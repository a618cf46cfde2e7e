import Ordexus.Blockchain.Genesis
import Ordexus.Consensus.CertificateCodec

/-!
# The ledger

`Ledger` of `blockchain/ledger.go`: the head of the main chain, its state and the index of
committed transactions, in memory and, where there is one, in a database. Every operation
either fails and leaves the ledger as it was or writes its changes in one transaction of the
database. Database failures, logging and the times of updates are left out.
-/

namespace Ordexus

/-- The hash of a block is that of the bytes its leader signs. -/
def BlockProposal.hash {τ : Type} (crypto : Crypto) (proposal : BlockProposal τ) :
    Except String Hash :=
  proposal.signedHeader.hash crypto

/-- The names of the voters are texts. -/
def QuorumCertificate.readBack (qc : QuorumCertificate) : QuorumCertificate :=
  { qc with voters := qc.voters.map Blockchain.jsonText }

/-- What is read back of a block but for its transactions. The evidence and the rewards, which
the ledger never reads back, are kept as they are. -/
def BlockProposal.readBack {τ : Type} (proposal : BlockProposal τ) :
    BlockProposal τ :=
  { proposal with
    header := { proposal.header with
      chainID := Blockchain.jsonText proposal.header.chainID
      leaderID := Blockchain.jsonText proposal.header.leaderID }
    rewardQCs := proposal.rewardQCs.map QuorumCertificate.readBack
    timeoutQC := proposal.timeoutQC.map QuorumCertificate.readBack }

/-- The texts of a header are valid, so that they are read back as they are. -/
structure BlockHeader.IsText (header : BlockHeader) : Prop where
  chainID : Borsh.validUTF8 header.chainID = true
  leaderID : Borsh.validUTF8 header.leaderID = true

/-- The same for the names in the reward certificates. -/
def BlockProposal.VotersText {τ : Type} (proposal : BlockProposal τ) : Prop :=
  ∀ qc ∈ proposal.rewardQCs, ∀ voter ∈ qc.voters, Borsh.validUTF8 voter = true

namespace Blockchain

open Checked

structure LedgerConfig where
  finalityDepth : ℕ
  disableStateRecovery : Bool
deriving DecidableEq

structure CommitBlockRequest (τ : Type) where
  proposal : BlockProposal τ
  nextState : ChainState
  qc : Option QuorumCertificate

structure ImportSnapshotRequest (τ : Type) where
  proposal : BlockProposal τ
  state : ChainState
  qc : Option QuorumCertificate

structure ForkDecision where
  accepted : Bool
  reorganized : Bool
  commonAncestor : Option Head
  oldBlocks : List Hash
  newBlocks : List Hash
  reason : String

/-- A ledger without a database lives in memory only. -/
structure Ledger (τ : Type) where
  db : Option (Database τ)
  head : Head
  state : ChainState
  committedTransactions : Table TransactionID Hash
  finalityDepth : ℕ
  finalitySuspended : Bool

def defaultFinalityDepth : ℕ := 2

variable {τ : Type}

def hashQC (crypto : Crypto) (qc : QuorumCertificate) : Except String Hash := do
  let data ← withContext "blockchain: marshal qc" qc.marshalBinary
  pure (crypto.sha256 data)

/-- The text `pos-qc-canonical-v1`. -/
def canonicalQCLabel : Bytes :=
  [112, 111, 115, 45, 113, 99, 45, 99, 97, 110, 111, 110, 105, 99, 97, 108, 45, 118, 49]

/-- The identity of a certificate, whoever voted. -/
def hashCanonicalQC (crypto : Crypto) (qc : QuorumCertificate) : Except String Hash := do
  qc.validate
  pure (crypto.sha256 (canonicalQCLabel ++ [UInt8.ofNat qc.type.code] ++ uint64ForHash qc.slot ++
    uint64ForHash qc.blockHeight ++ bigEndian 32 qc.blockHash))

/-! ### Blocks as they are stored -/

section

variable (model : LedgerTransactionModel τ)

/-- `marshalProposal` followed by `unmarshalProposal`: what is read back later. -/
def marshalProposal (proposal : BlockProposal τ) : Except String (BlockProposal τ) := do
  let transactions ← proposal.transactions.zipIdx.mapM fun (transaction, index) =>
    withContext s!"blockchain: marshal transaction {index}" (model.stored transaction)
  pure { proposal.readBack with transactions := transactions }

/-- One operation for each account of a state; an account is checked when it is encoded. -/
def accountOps (context : String) (operation : PublicKey → Account → DBOperation τ)
    (state : ChainState) : Except String (List (DBOperation τ)) :=
  state.accounts.mapM fun entry => do
    let _ ← withContext context entry.account.marshalBinary
    pure (operation entry.address entry.account)

def collectBlockStorageOps (proposal : BlockProposal τ) (blockHash : Hash) (state : ChainState) :
    Except String (List (DBOperation τ)) := do
  let stored ← marshalProposal model proposal
  let snapshot ← accountOps "blockchain: marshal state snapshot account"
    (.putCheckpoint blockHash) state
  pure (.putBlock blockHash stored :: snapshot)

def transactionText (id : TransactionID) : String :=
  String.ofList (id.map fun byte => Char.ofNat byte.toNat)

/-- The body of the loop of `transactionIDsForProposal`. -/
def addTransactionID (seen : List TransactionID) (transaction : τ) :
    Except String (List TransactionID) := do
  let transactionID ← withContext "blockchain: calculate transaction id"
    (model.txIDString transaction)
  failIf (transactionID ∈ seen) ("blockchain: invalid commit: duplicate transaction " ++
    transactionText transactionID ++ " in block")
  pure (seen ++ [transactionID])

def transactionIDsForProposal (proposal : BlockProposal τ) : Except String (List TransactionID) :=
  proposal.transactions.foldlM (addTransactionID model) []

/-! ### Address history -/

def transactionHistoryEntries (header : BlockHeader) (blockHash : Hash) (transaction : τ)
    (transactionIndex : ℕ) :
    Except String (List (AddressHistoryKey × AddressHistoryRecord)) := do
  let transactionID ← withContext "blockchain: calculate address history transaction id"
    (model.txIDString transaction)
  let effects ← model.extractAddressHistoryEffects transaction
  failIf (256 < effects.length) ("blockchain: address history effect count exceeds limit for " ++
    transactionText transactionID)
  pure (effects.zipIdx.map fun (effect, effectIndex) =>
    ({ address := effect.address
       blockHeight := header.height
       transactionIndex := transactionIndex
       effectIndex := effectIndex
       transactionID := transactionID },
     { transactionID := transactionID
       direction := effect.direction
       kind := effect.kind
       counterparty := effect.counterparty
       amountLamports := effect.amountLamports
       blockHeight := header.height
       slot := header.slot
       blockHash := blockHash
       submitTimeUnixMilli := model.submitTime transaction }))

section

variable (proposal : BlockProposal τ) (blockHash : Hash)

def buildAddressHistoryEntries :
    Except String (List (AddressHistoryKey × AddressHistoryRecord)) := do
  let count := proposal.transactions.length
  failIf (65535 < count)
    s!"blockchain: transaction count {count} exceeds address history index limit"
  let entries ← proposal.transactions.zipIdx.mapM fun (transaction, index) =>
    transactionHistoryEntries model proposal.header blockHash transaction index
  pure entries.flatten

def addressHistoryIndexOps : Except String (List (DBOperation τ)) := do
  let entries ← buildAddressHistoryEntries model proposal blockHash
  pure (entries.map fun entry => .putHistory entry.1 entry.2)

def addressHistoryDeleteOps : Except String (List (DBOperation τ)) := do
  let entries ← buildAddressHistoryEntries model proposal blockHash
  pure (entries.map fun entry => .deleteHistory entry.1)

end

end

/-! ### Rewarded slots -/

/-- The body of the loops over reward certificates; `seenSlots` are the slots so far. -/
def validateRewardQCIndexItem (seenSlots : List ℕ) (qc : QuorumCertificate) :
    Except String (List ℕ) := do
  withContext "blockchain: validate reward qc index" qc.validate
  failIf (qc.type ≠ .confirm ∨ qc.blockHeight = 0)
    "blockchain: invalid commit: invalid reward qc index item"
  let slot := qc.slot
  failIf (slot ∈ seenSlots) s!"blockchain: invalid commit: duplicate reward qc slot {slot}"
  pure (seenSlots ++ [slot])

def rewardQCSlots (proposal : BlockProposal τ) : Except String (List ℕ) :=
  proposal.rewardQCs.foldlM validateRewardQCIndexItem []

def rewardQCIndexOps (proposal : BlockProposal τ) (blockHash : Hash) :
    Except String (List (DBOperation τ)) := do
  let slots ← rewardQCSlots proposal
  pure (slots.map fun slot => .putRewardedQCSlot slot blockHash)

def rewardQCDeleteOps (proposal : BlockProposal τ) : Except String (List (DBOperation τ)) := do
  let slots ← rewardQCSlots proposal
  pure (slots.map fun slot => .deleteRewardedQCSlot slot)

/-! ### Certificates of the head -/

def isBetterRewardQC (candidate current : QuorumCertificate) : Bool :=
  if candidate.confirmedStake ≠ current.confirmedStake then
    decide (current.confirmedStake < candidate.confirmedStake)
  else if candidate.voters.length ≠ current.voters.length then
    decide (current.voters.length < candidate.voters.length)
  else if candidate.createdAtUnixMilli ≠ current.createdAtUnixMilli then
    decide (current.createdAtUnixMilli < candidate.createdAtUnixMilli)
  else if candidate.blockHeight ≠ current.blockHeight then
    decide (current.blockHeight < candidate.blockHeight)
  else decide (candidate.blockHash.text < current.blockHash.text)

def isBetterHeadQC (candidate current : QuorumCertificate) (head : Head) : Bool :=
  if candidate.blockHeight ≠ current.blockHeight then
    decide (current.blockHeight < candidate.blockHeight)
  else if candidate.slot ≠ current.slot then decide (current.slot < candidate.slot)
  else if decide (candidate.blockHash = head.blockHash) ≠
      decide (current.blockHash = head.blockHash) then
    decide (candidate.blockHash = head.blockHash)
  else isBetterRewardQC candidate current

def qcOnMainChain (db : Database τ) (head : Head) (qc : QuorumCertificate) : Bool :=
  decide (qc.blockHeight ≠ 0 ∧ qc.blockHeight ≤ head.height ∧
    db.heightToHash.lookup qc.blockHeight = some qc.blockHash)

def shouldPromoteHeadQC (db : Database τ) (head : Head) (candidate : QuorumCertificate) : Bool :=
  qcOnMainChain db head candidate &&
    match db.readStoredQCByHash head.qcHash with
    | none => true
    | some current => !qcOnMainChain db head current || isBetterHeadQC candidate current head

def attachBestQCForHead (crypto : Crypto) (db : Database τ) (blockHash : Hash) (head : Head) :
    Except String Head :=
  match db.readStoredQCByBlockHash blockHash with
  | none => pure head
  | some bestQC => do
    failIf (bestQC.blockHash ≠ blockHash ∨ bestQC.blockHeight ≠ head.height)
      "blockchain: invalid commit: stored block qc does not match head"
    let qcHash ← hashCanonicalQC crypto bestQC
    pure { head with qcHash := qcHash }

/-! ### Finality -/

namespace Ledger

def nextFinalizedHeight (ledger : Ledger τ) (nextHeight : ℕ) : ℕ :=
  let finalityDepth := if ledger.finalityDepth = 0 then defaultFinalityDepth
    else ledger.finalityDepth
  if ledger.finalitySuspended then ledger.head.finalizedHeight
  else if nextHeight ≤ finalityDepth then ledger.head.finalizedHeight
  else if nextHeight - finalityDepth < ledger.head.finalizedHeight then
    ledger.head.finalizedHeight
  else nextHeight - finalityDepth

def finalizedHashForCommittedHeight (ledger : Ledger τ) (finalizedHeight : ℕ) :
    Except String Hash :=
  if finalizedHeight = 0 then pure ledger.head.finalizedHash
  else if finalizedHeight = ledger.head.height then pure ledger.head.blockHash
  else match ledger.db with
    | none => pure ledger.head.finalizedHash
    | some db => orFail (db.heightToHash.lookup finalizedHeight)
      "blockchain: invalid commit: finalized block not found"

end Ledger

/-- The loop over the new blocks: the first one at the given height. -/
def newBlockAtHeight (db : Database τ) (height : ℕ) : List Hash → Except String (Option Hash)
  | [] => pure none
  | newHash :: newBlocks => do
    let block ← db.loadProposalByHash newHash
    if block.header.height = height then pure (some newHash)
    else newBlockAtHeight db height newBlocks

def finalizedHashFromReorgPlan (db : Database τ) (finalizedHeight : ℕ) (commonAncestor : Head)
    (newBlocks : List Hash) (previousFinalizedHash : Hash) : Except String Hash :=
  if finalizedHeight = 0 then pure previousFinalizedHash
  else if finalizedHeight = commonAncestor.height then pure commonAncestor.blockHash
  else do
    let found ← newBlockAtHeight db finalizedHeight newBlocks
    match found with
    | some newHash => pure newHash
    | none =>
      orFail (db.heightToHash.lookup finalizedHeight)
        "blockchain: invalid commit: reorg finalized block not found"

/-! ### Commits -/

def CommitBlockRequest.validate (request : CommitBlockRequest τ) (head : Head) :
    Except String Unit := do
  let header := request.proposal.header
  failIf (header.chainID = []) "blockchain: invalid commit: chain id is empty"
  failIf (header.height ≠ wrapUint64 (head.height + 1))
    "blockchain: invalid commit: height mismatch"
  failIf (header.parentHash ≠ head.blockHash) "blockchain: invalid commit: parent hash mismatch"
  failIf (header.slot ≤ head.slot) "blockchain: invalid commit: slot must increase"

namespace Ledger

def rejectCommittedTransactionIDs (ledger : Ledger τ) (transactionIDs : List TransactionID) :
    Except String Unit :=
  transactionIDs.forM fun transactionID =>
    failIf ((ledger.committedTransactions.lookup transactionID).isSome)
      ("blockchain: invalid commit: transaction " ++ transactionText transactionID ++
        " already committed")

def addCommittedTransactionIDs (index : Table TransactionID Hash)
    (transactionIDs : List TransactionID) (blockHash : Hash) : Table TransactionID Hash :=
  transactionIDs.foldl (fun index transactionID => index.insert transactionID blockHash) index

variable (crypto : Crypto) (model : LedgerTransactionModel τ)

def collectCommitQCOps (qc : Option QuorumCertificate) (head : Head) :
    Except String (List (DBOperation τ)) :=
  match qc with
  | none => pure []
  | some qc => do
    let fullQCHash ← hashQC crypto qc
    pure ([.putQC fullQCHash qc, .putBlockQC qc.blockHash qc] ++
      if fullQCHash ≠ head.qcHash then [.putQC head.qcHash qc] else [])

def persistCommit (db : Database τ) (request : CommitBlockRequest τ) (blockHash : Hash)
    (head : Head) (transactionIDs : List TransactionID) : Except String (Database τ) := do
  let storage ← collectBlockStorageOps model request.proposal blockHash request.nextState
  let history ← addressHistoryIndexOps model request.proposal blockHash
  let rewards ← rewardQCIndexOps request.proposal blockHash
  let certificates ← collectCommitQCOps crypto request.qc head
  let accounts ← accountOps "blockchain: marshal account" .putAccount request.nextState
  pure (db.dataTransaction (storage ++ [.putHeight head.height blockHash] ++
    transactionIDs.map (fun transactionID => .putTransaction transactionID blockHash) ++ history ++
    rewards ++ certificates ++ accounts ++ [.putHead head]))

/-- The head of a committed block, before a stored certificate is attached. -/
def committedHead (ledger : Ledger τ) (request : CommitBlockRequest τ) (blockHash stateRoot : Hash)
    (finalizedHeight : ℕ) (finalizedHash : Hash) : Except String Head := do
  let header := request.proposal.header
  let qcHash ← match request.qc with
    | none => pure ledger.head.qcHash
    | some qc => hashCanonicalQC crypto qc
  pure
    { chainID := header.chainID
      height := header.height
      slot := header.slot
      blockHash := blockHash
      qcHash := qcHash
      stateRoot := stateRoot
      epochID := header.epochID
      finalizedHeight := finalizedHeight
      finalizedHash := finalizedHash }

/-- The writes of a commit, where there is a database. -/
def commitDatabase (db : Option (Database τ)) (request : CommitBlockRequest τ) (blockHash : Hash)
    (head : Head) (transactionIDs : List TransactionID) :
    Except String (Option (Database τ) × Head) :=
  match db with
  | none => pure (none, head)
  | some db => do
    let nextHead ← attachBestQCForHead crypto db blockHash head
    let db ← persistCommit crypto model db request blockHash nextHead transactionIDs
    pure (some db, nextHead)

def commitBlock (ledger : Ledger τ) (request : CommitBlockRequest τ) :
    Except String (Ledger τ) := do
  request.validate ledger.head
  let transactionIDs ← transactionIDsForProposal model request.proposal
  ledger.rejectCommittedTransactionIDs transactionIDs
  let blockHash ← withContext "blockchain: hash proposal" (request.proposal.hash crypto)
  let stateRoot ← withContext "blockchain: hash next state" (request.nextState.rootHash crypto)
  failIf (stateRoot ≠ request.proposal.header.stateRoot)
    "blockchain: invalid commit: state root mismatch"
  let finalizedHeight := ledger.nextFinalizedHeight request.proposal.header.height
  let finalizedHash ← ledger.finalizedHashForCommittedHeight finalizedHeight
  let head ← ledger.committedHead crypto request blockHash stateRoot finalizedHeight
    finalizedHash
  let persisted ← commitDatabase crypto model ledger.db request blockHash head transactionIDs
  pure { ledger with
    db := persisted.1
    head := persisted.2
    state := request.nextState
    committedTransactions :=
      addCommittedTransactionIDs ledger.committedTransactions transactionIDs blockHash }

/-! ### Candidates -/

/-- The ledger with the block stored, and the hash of the block. -/
def saveBlockCandidate (ledger : Ledger τ) (request : CommitBlockRequest τ) :
    Except String (Ledger τ × Hash) := do
  let blockHash ← withContext "blockchain: hash candidate block" (request.proposal.hash crypto)
  let stateRoot ← withContext "blockchain: hash candidate state"
    (request.nextState.rootHash crypto)
  failIf (stateRoot ≠ request.proposal.header.stateRoot)
    "blockchain: invalid commit: candidate state root mismatch"
  let _ ← transactionIDsForProposal model request.proposal
  match ledger.db with
  | none => pure (ledger, blockHash)
  | some db => do
    let ops ← collectBlockStorageOps model request.proposal blockHash request.nextState
    pure ({ ledger with db := some (db.dataTransaction ops) }, blockHash)

end Ledger

end Blockchain

end Ordexus
