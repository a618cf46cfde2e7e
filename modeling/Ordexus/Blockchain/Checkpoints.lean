import Ordexus.Blockchain.Reorganization

/-!
# Certificates, checkpoints and restarts

The remaining operations of `blockchain/ledger.go`: a certificate may become that of the
head, a finalized snapshot replaces the chain below it, a checkpoint of the main chain is
finalized, and a ledger is read back from its database.
-/

namespace Ordexus.Blockchain

open Checked

variable {τ : Type}

namespace Ledger

/-! ### Certificates -/

section

variable (crypto : Crypto)

/-- The writes of `SaveQC` and the head afterwards. -/
def collectQCOps (db : Database τ) (head : Head) (qc : QuorumCertificate)
    (qcHash fullQCHash : Hash) : Except String (List (DBOperation τ) × Head) := do
  let current := db.readStoredQCByBlockHash qc.blockHash
  let updateBlockQC := current.all fun current => isBetterRewardQC qc current
  let bestBlockQC := if updateBlockQC then qc else current.getD qc
  let _ ← withContext "blockchain: marshal qc" qc.marshalBinary
  let operations : List (DBOperation τ) := .putQC fullQCHash qc ::
    if updateBlockQC then [.putBlockQC qc.blockHash qc, .putQC qcHash qc] else []
  if shouldPromoteHeadQC db head bestBlockQC then do
    let bestQCHash ← hashCanonicalQC crypto bestBlockQC
    let _ ← withContext "blockchain: marshal best qc" bestBlockQC.marshalBinary
    let nextHead := { head with qcHash := bestQCHash }
    pure (operations ++ [.putQC bestQCHash bestBlockQC, .putHead nextHead], nextHead)
  else pure (operations, head)

def saveQC (ledger : Ledger τ) (qc : QuorumCertificate) : Except String (Ledger τ) := do
  qc.validate
  failIf (qc.type ≠ .confirm)
    "blockchain: invalid commit: only confirm qc can be persisted as a block certificate"
  let qcHash ← hashCanonicalQC crypto qc
  let fullQCHash ← hashQC crypto qc
  match ledger.db with
  | none => pure { ledger with head := { ledger.head with qcHash := qcHash } }
  | some db => do
    let (operations, nextHead) ← collectQCOps crypto db ledger.head qc qcHash fullQCHash
    pure { ledger with db := some (db.dataTransaction operations), head := nextHead }

end

/-! ### Checkpoints -/

def setFinalitySuspended (ledger : Ledger τ) (suspended : Bool) : Ledger τ :=
  { ledger with finalitySuspended := suspended }

section

variable (ledger : Ledger τ) (height : ℕ)

/-- Without a database only the head and the finalized block are known. -/
def mainChainHashAtHeight : Option Hash :=
  match ledger.db with
  | some db => db.heightToHash.lookup height
  | none =>
    if height = ledger.head.height then some ledger.head.blockHash
    else if height = ledger.head.finalizedHeight then some ledger.head.finalizedHash
    else none

/-- The ledger with the checkpoint finalized, if it is on the main chain. -/
def tryAdvanceFinalizedCheckpoint (blockHash : Hash) : Option (Ledger τ) :=
  if height ≤ ledger.head.height ∧ ledger.mainChainHashAtHeight height = some blockHash then
    let nextHead :=
      { ledger.head with finalizedHeight := height, finalizedHash := blockHash }
    some { ledger with
      db := ledger.db.map fun db => db.apply (.putHead nextHead)
      head := nextHead }
  else none

def advanceFinalizedCheckpoint (blockHash : Hash) : Except String (Ledger τ) :=
  orFail (ledger.tryAdvanceFinalizedCheckpoint height blockHash)
    "blockchain: invalid commit: activation checkpoint is not on the main chain"

end

/-! ### Finalized snapshots -/

section

variable (crypto : Crypto) (model : LedgerTransactionModel τ)

/-- What leaves the indexes at one height above the snapshot. -/
def rollbackOpsAtHeight (db : Database τ) (height : ℕ) :
    Except String (List TransactionID × List (DBOperation τ)) :=
  match db.heightToHash.lookup height with
  | none => pure ([], [])
  | some blockHash => do
    let block ← db.loadProposalByHash blockHash
    let transactionIDs ← transactionIDsForProposal model block
    let history ← addressHistoryDeleteOps model block blockHash
    let rewards ← rewardQCDeleteOps block
    pure (transactionIDs, transactionIDs.map .deleteTransaction ++ history ++ rewards ++
      [.deleteHeight height])

def collectImportedSnapshotRollbackOps (db : Database τ) (head : Head) (newHeight : ℕ) :
    Except String (List TransactionID × List (DBOperation τ)) := do
  let rollbacks ← (List.range' (newHeight + 1) (head.height - newHeight)).mapM
    (rollbackOpsAtHeight model db)
  pure (rollbacks.flatMap Prod.fst, rollbacks.flatMap Prod.snd)

/-- The account table becomes that of a state. -/
def accountSnapshotImportOps (db : Database τ) (state : ChainState) :
    Except String (List (DBOperation τ)) := do
  let stale := db.accounts.keys.filter fun address => decide (address ∉ state.addresses)
  let accounts ← accountOps "blockchain: marshal imported account" .putAccount state
  pure (stale.map .deleteAccount ++ accounts)

def importedQCOps (qc : QuorumCertificate) (blockHash : Hash) :
    Except String (List (DBOperation τ)) := do
  let canonicalQCHash ← hashCanonicalQC crypto qc
  let fullQCHash ← hashQC crypto qc
  pure [.putQC fullQCHash qc, .putQC canonicalQCHash qc, .putBlockQC blockHash qc]

/-- The database after an import and the transactions that were rolled back. The
transactions of the imported block are not written to the index. -/
def persistImportedSnapshot (db : Database τ) (head : Head) (request : ImportSnapshotRequest τ)
    (qc : QuorumCertificate) (blockHash : Hash) (nextHead : Head) :
    Except String (Database τ × List TransactionID) := do
  let (removed, rollback) ← collectImportedSnapshotRollbackOps model db head nextHead.height
  let storage ← collectBlockStorageOps model request.proposal blockHash request.state
  let certificates ← importedQCOps crypto qc blockHash
  let history ← addressHistoryIndexOps model request.proposal blockHash
  let rewards ← rewardQCIndexOps request.proposal blockHash
  let accounts ← accountSnapshotImportOps db request.state
  pure (db.dataTransaction (storage ++ rollback ++ [.putHeight nextHead.height blockHash] ++
    certificates ++ history ++ rewards ++ accounts ++ [.putHead nextHead]), removed)

section

variable (ledger : Ledger τ) (request : ImportSnapshotRequest τ)

/-- The checks of `ImportFinalizedSnapshot`: they return the certificate, the hash of the
block and the canonical hash of the certificate. -/
def checkImport : Except String (QuorumCertificate × Hash × Hash) := do
  let header := request.proposal.header
  failIf (header.chainID ≠ ledger.head.chainID)
    "blockchain: invalid commit: snapshot chain id mismatch"
  let blockHash ← withContext "blockchain: hash snapshot block" (request.proposal.hash crypto)
  let stateRoot ← withContext "blockchain: hash snapshot state" (request.state.rootHash crypto)
  failIf (stateRoot ≠ header.stateRoot) "blockchain: invalid commit: snapshot state root mismatch"
  let qc ← orFail request.qc "blockchain: invalid commit: snapshot confirm qc is required"
  withContext "blockchain: invalid commit: invalid snapshot qc" qc.validate
  failIf (qc.type ≠ .confirm ∨ qc.blockHash ≠ blockHash ∨ qc.blockHeight ≠ header.height)
    "blockchain: invalid commit: snapshot qc binding mismatch"
  let qcHash ← withContext "blockchain: invalid commit: hash snapshot qc"
    (hashCanonicalQC crypto qc)
  pure (qc, blockHash, qcHash)

def importedHead (request : ImportSnapshotRequest τ) (blockHash qcHash : Hash) : Head where
  chainID := request.proposal.header.chainID
  height := request.proposal.header.height
  slot := request.proposal.header.slot
  blockHash := blockHash
  qcHash := if qcHash = 0 then blockHash else qcHash
  stateRoot := request.proposal.header.stateRoot
  epochID := request.proposal.header.epochID
  finalizedHeight := request.proposal.header.height
  finalizedHash := blockHash

def replaceBySnapshot (qc : QuorumCertificate) (blockHash qcHash : Hash) :
    Except String (Ledger τ) := do
  let nextHead := importedHead request blockHash qcHash
  let transactionIDs ← transactionIDsForProposal model request.proposal
  let (db, removed) ← match ledger.db with
    | none => pure (none, [])
    | some db => do
      let (db, removed) ← persistImportedSnapshot crypto model db ledger.head request qc blockHash
        nextHead
      pure (some db, removed)
  pure { ledger with
    db := db
    head := nextHead
    state := request.state
    committedTransactions := addCommittedTransactionIDs
      (removed.foldl (fun index transactionID => index.erase transactionID)
        ledger.committedTransactions) transactionIDs blockHash }

def importFinalizedSnapshot : Except String (Ledger τ) := do
  let (qc, blockHash, qcHash) ← ledger.checkImport crypto request
  let height := request.proposal.header.height
  if height < ledger.head.finalizedHeight then pure ledger
  else if height = ledger.head.finalizedHeight then do
    failIf (ledger.head.finalizedHash ≠ blockHash)
      "blockchain: invalid commit: finalized snapshot conflicts with local finalized hash"
    pure ledger
  else match ledger.tryAdvanceFinalizedCheckpoint height blockHash with
    | some advanced => pure advanced
    | none => ledger.replaceBySnapshot crypto model request qc blockHash qcHash

end

end

/-! ### Creation and restart -/

section

variable (crypto : Crypto)

def normalizeLedgerConfig (config : LedgerConfig) : LedgerConfig :=
  if config.finalityDepth = 0 then { config with finalityDepth := defaultFinalityDepth }
  else config

def persistGenesis (db : Database τ) (state : ChainState) (head : Head) :
    Except String (Database τ) := do
  let accounts ← accountOps "blockchain: marshal genesis account" .putAccount state
  let snapshot ← accountOps "blockchain: marshal genesis account" (.putCheckpoint head.blockHash)
    state
  pure (db.dataTransaction (accounts ++ snapshot ++
    [.putHeight head.height head.blockHash, .putHead head]))

def newLedgerFromGenesisWithConfig (program : Shielded.Program) (db : Option (Database τ))
    (genesis : GenesisConfig) (config : LedgerConfig) : Except String (Ledger τ) := do
  let (state, head) ← buildGenesisState crypto program genesis
  let persisted ← match db with
    | none => pure none
    | some db => do
      let db ← persistGenesis db state head
      pure (some db)
  pure
    { db := persisted
      head := head
      state := state
      committedTransactions := ∅
      finalityDepth := (normalizeLedgerConfig config).finalityDepth
      finalitySuspended := false }

/-- The account table, in the order of the addresses; each account is checked when it is
decoded. -/
def loadState (db : Database τ) : Except String ChainState := do
  let accounts := (db.accounts.entries.map fun row => ({ address := row.1, account := row.2 } :
    AddressedAccount)).insertionSort fun left right => left.address ≤ right.address
  for entry in accounts do
    withContext "blockchain: load account" entry.account.validate
  pure { accounts := accounts }

def validateStateRootMatchesHead (state : ChainState) (head : Head) : Except String Unit := do
  let stateRoot ← withContext "blockchain: hash loaded state" (state.rootHash crypto)
  failIf (stateRoot ≠ head.stateRoot) ("blockchain: invalid commit: loaded state root " ++
    stateRoot.string ++ " does not match head " ++ head.stateRoot.string)

/-- The state of the head and the database, whose account table may be repaired. -/
def recoverLoadedStateFromSnapshot (db : Database τ) (head : Head) (state : ChainState) :
    Except String (ChainState × Database τ) :=
  if succeeds (validateStateRootMatchesHead crypto state head) then pure (state, db)
  else do
    let recovered ← db.loadStateSnapshot head.blockHash
    failIf (recovered.accounts = []) "blockchain: invalid commit: head state snapshot not found"
    validateStateRootMatchesHead crypto recovered head
    let operations ← accountSnapshotImportOps db recovered
    pure (recovered, db.dataTransaction operations)

variable (model : LedgerTransactionModel τ)

section

variable (db : Database τ)

/-- The body of the loop that rebuilds the index of transactions. -/
def indexTransactionsAtHeight (index : Table TransactionID Hash) (height : ℕ) :
    Except String (Table TransactionID Hash) :=
  match db.heightToHash.lookup height with
  | none => pure index
  | some blockHash => do
    let proposal ← db.loadProposalByHash blockHash
    let transactionIDs ← transactionIDsForProposal model proposal
    pure (addCommittedTransactionIDs index transactionIDs blockHash)

/-- A database without an index of transactions gets one from its blocks. -/
def loadCommittedTransactionIndex (head : Head) : Except String (Table TransactionID Hash) :=
  if db.txToBlock.entries ≠ [] then pure db.txToBlock
  else (List.range' 1 head.height).foldlM (indexTransactionsAtHeight model db) ∅

def historyOpsAtHeight (height : ℕ) : Except String (List (DBOperation τ)) :=
  match db.heightToHash.lookup height with
  | none => pure []
  | some blockHash => do
    let proposal ← db.loadProposalByHash blockHash
    addressHistoryIndexOps model proposal blockHash

def ensureAddressHistoryIndex (head : Head) : Except String (Database τ) :=
  if head.height = 0 ∨ db.addrToTx.entries ≠ [] then pure db
  else do
    let operations ← (List.range' 1 head.height).mapM (historyOpsAtHeight model db)
    pure (db.dataTransaction operations.flatten)

def loadHeadState (head : Head) (config : LedgerConfig) :
    Except String (ChainState × Database τ) := do
  let state ← loadState db
  if config.disableStateRecovery then do
    validateStateRootMatchesHead crypto state head
    pure (state, db)
  else recoverLoadedStateFromSnapshot crypto db head state

end

def loadOrCreateLedgerWithConfig (program : Shielded.Program) (db : Option (Database τ))
    (genesis : GenesisConfig) (config : LedgerConfig) : Except String (Ledger τ) :=
  match db.bind fun db => db.head.map fun head => (db, head) with
  | none => newLedgerFromGenesisWithConfig crypto program db genesis config
  | some (db, head) => do
    let (state, db) ← loadHeadState crypto db head config
    let index ← loadCommittedTransactionIndex model db head
    let db ← ensureAddressHistoryIndex model db head
    pure
      { db := some db
        head := head
        state := state
        committedTransactions := index
        finalityDepth := (normalizeLedgerConfig config).finalityDepth
        finalitySuspended := false }

end

end Ledger

/-! ### Sequences of operations -/

inductive LedgerOperation (τ : Type) where
  | commitBlock (request : CommitBlockRequest τ)
  | saveBlockCandidate (request : CommitBlockRequest τ)
  | reorganizeTo (newTipHash : Hash)
  | saveQC (qc : QuorumCertificate)
  | setFinalitySuspended (suspended : Bool)
  | importFinalizedSnapshot (request : ImportSnapshotRequest τ)
  | advanceFinalizedCheckpoint (height : ℕ) (blockHash : Hash)

section

variable (crypto : Crypto) (model : LedgerTransactionModel τ) (ledger : Ledger τ)

/-- The ledger after an operation that succeeds. -/
def Ledger.perform :
    LedgerOperation τ → Except String (Ledger τ)
  | .commitBlock request => ledger.commitBlock crypto model request
  | .saveBlockCandidate request => do
    let (next, _) ← ledger.saveBlockCandidate crypto model request
    pure next
  | .reorganizeTo newTipHash => do
    let (next, _) ← ledger.reorganizeTo crypto model newTipHash
    pure next
  | .saveQC qc => ledger.saveQC crypto qc
  | .setFinalitySuspended suspended => pure (ledger.setFinalitySuspended suspended)
  | .importFinalizedSnapshot request => ledger.importFinalizedSnapshot crypto model request
  | .advanceFinalizedCheckpoint height blockHash =>
    ledger.advanceFinalizedCheckpoint height blockHash

/-- One operation of a run; one that fails changes nothing and is no step. -/
def Ledger.step (operation : LedgerOperation τ) : Option (Ledger τ) :=
  (ledger.perform crypto model operation).toOption

end

end Ordexus.Blockchain
