import Ordexus.Consensus.ParallelExecution
import Ordexus.Consensus.Rewards

/-!
# Producing and verifying a block

`ProduceBlockWithReport` and `VerifyProposal` (`consensus/proposal.go`): the leader
executes the transactions it has, leaves out those that fail, applies the rewards
and signs a header over the results; every other validator executes what the
proposal carries and compares the results.
-/

namespace Ordexus

open Checked

def maxProposalTransactions : ℕ := 1000

/-- What the block code asks of a transaction. The mark of a confirmed transaction is
no part of what is hashed, locked or priced. -/
structure BlockTransactionModel (τ : Type) extends TransactionModel τ where
  hash : τ → Except String Hash
  estimateTransactionResourceDemand : τ → Except String ℕ
  txIDString_mark (transaction : τ) (fee : ℕ) :
    txIDString (markTransactionConfirmed transaction fee) = txIDString transaction
  transactionLockAccounts_mark (transaction : τ) (fee : ℕ) :
    transactionLockAccounts (markTransactionConfirmed transaction fee) =
      transactionLockAccounts transaction
  estimateTransactionResourceDemand_mark (transaction : τ) (fee : ℕ) :
    estimateTransactionResourceDemand (markTransactionConfirmed transaction fee) =
      estimateTransactionResourceDemand transaction

structure BlockProposal (τ : Type) where
  header : BlockHeader
  transactions : List τ
  rewardQCs : List QuorumCertificate
  timeoutQC : Option QuorumCertificate
  evidence : List SlashingEvidence
  rewards : List BlockReward
  leaderSignature : Signature
deriving DecidableEq

structure BlockProductionResult (τ : Type) where
  proposal : BlockProposal τ
  state : ChainState
  rejectedTransactions : List (RejectedTransaction τ)

/-- The key of a leader and the signatures it makes. -/
structure KeyPair where
  publicKey : PublicKey
  sign : Bytes → Signature

structure ProduceBlockRequest (τ : Type) where
  slot : ℕ
  parentSlot : ℕ
  height : ℕ
  epochSnapshot : EpochSnapshot
  schedule : LeaderSchedule
  parentHash : Hash
  previousQCHash : Hash
  timeoutQC : Option QuorumCertificate
  parentState : ChainState
  transactions : List τ
  blockhashQueue : BlockhashQueue
  leaderKeyPair : KeyPair
  rewardQCs : List QuorumCertificate
  evidence : List SlashingEvidence
  proofSnapshots : List EpochSnapshot
  rewardConfig : RewardConfig

structure VerifyProposalRequest (τ : Type) where
  proposal : BlockProposal τ
  parentSlot : ℕ
  epochSnapshot : EpochSnapshot
  schedule : LeaderSchedule
  parentHash : Hash
  parentState : ChainState
  blockhashQueue : BlockhashQueue
  leader : ValidatorState
  proofSnapshots : List EpochSnapshot
  rewardConfig : RewardConfig

/-- `BlockProducer` and `ProposalVerifier`: the chain, the executor and the order in
which the workers finish their jobs. -/
structure BlockExecutor (τ : Type) where
  chainID : Bytes
  executor : TransactionExecutor τ
  finishing : ℕ → List ℕ

variable {τ : Type}

/-! ### Resource limits -/

section

variable (model : BlockTransactionModel τ)

def estimateBlockTransactionResourceDemand (transactionIndex : ℕ) (transaction : τ) :
    Except String BlockResourceUsage := do
  let computeUnits ← withContext
    s!"consensus: estimate transaction {transactionIndex} resource demand"
    (model.estimateTransactionResourceDemand transaction)
  failIf (maxComputeUnitsPerTransaction < computeUnits)
    (s!"consensus: transaction {transactionIndex} compute demand {computeUnits} " ++
      s!"exceeds transaction limit {maxComputeUnitsPerTransaction}")
  pure { computeUnits := computeUnits, costUnits := computeUnits }

/-- The loop of `selectBlockTransactionPrefix`: the transactions that fit and whether
some were left out. -/
def selectPrefixFrom (model : BlockTransactionModel τ) :
    ℕ → BlockResourceUsage → List (τ × ℕ) → Except String (List τ × BlockResourceUsage × Bool)
  | _, usage, [] => pure ([], usage, false)
  | 0, usage, _ :: _ => pure ([], usage, true)
  | room + 1, usage, (transaction, index) :: transactions => do
    let demand ← estimateBlockTransactionResourceDemand model index transaction
    match addBlockResourceUsage usage demand with
    | none => pure ([], usage, true)
    | some nextUsage =>
      let (selected, finalUsage, truncated) ← selectPrefixFrom model room nextUsage transactions
      pure (transaction :: selected, finalUsage, truncated)

def selectBlockTransactionPrefix (transactions : List τ) :
    Except String (List τ × BlockResourceUsage × Bool) :=
  selectPrefixFrom model maxProposalTransactions { computeUnits := 0, costUnits := 0 }
    transactions.zipIdx

def validateBlockTransactionResources (transactions : List τ) : Except String Unit := do
  let (selected, usage, truncated) ← selectBlockTransactionPrefix model transactions
  let accepted := selected.length
  let count := transactions.length
  let computeUnits := usage.computeUnits
  let costUnits := usage.costUnits
  failIf (truncated = true ∨ accepted ≠ count)
    ("consensus: proposal resource demand exceeds block limit: " ++
      s!"accepted {accepted} of {count} transactions at {computeUnits} compute and " ++
      s!"{costUnits} cost units")

end

/-! ### Commitments -/

/-- The empty list has the zero digest. -/
def hashHashList (crypto : Crypto) (hashes : List Hash) : Hash :=
  if hashes = [] then 0 else crypto.sha256 (hashes.flatMap (bigEndian 32))

section

variable (crypto : Crypto) (model : BlockTransactionModel τ) (transactions : List τ)

def hashTransactions : Except String Hash := do
  let hashes ← transactions.zipIdx.mapM fun (transaction, index) =>
    withContext s!"consensus: hash transaction {index}" (model.hash transaction)
  pure (hashHashList crypto hashes)

/-- The digests of a block's contents, as both sides compute them. -/
structure ProposalRoots where
  txRoot : Hash
  receiptRoot : Hash
  rewardRoot : Hash
  rewardQCRoot : Hash
  evidenceRoot : Hash
  stateRoot : Hash
deriving DecidableEq

def computeProposalRoots (receipts : List Hash) (rewards : List BlockReward)
    (rewardQCs : List QuorumCertificate) (evidence : List SlashingEvidence) (state : ChainState) :
    Except String ProposalRoots := do
  let txRoot ← hashTransactions crypto model transactions
  let rewardQCRoot ← hashRewardQuorumCertificates crypto rewardQCs
  let evidenceRoot ← hashSlashingEvidenceList crypto evidence
  let stateRoot ← withContext "consensus: marshal account for state root" (state.rootHash crypto)
  pure
    { txRoot := txRoot
      receiptRoot := hashHashList crypto receipts
      rewardRoot := hashBlockRewards crypto rewards
      rewardQCRoot := rewardQCRoot
      evidenceRoot := evidenceRoot
      stateRoot := stateRoot }

end

section

variable (crypto : Crypto) (signed : List VoteMessage) (model : BlockTransactionModel τ)

/-! ### Production -/

def ProduceBlockRequest.validate (request : ProduceBlockRequest τ) : Except String Unit := do
  request.epochSnapshot.validate crypto
  failIf (request.leaderKeyPair.publicKey = 0) "consensus: leader key is empty"
  failIf (request.parentSlot ≠ 0 ∧ request.slot ≤ request.parentSlot)
    "consensus: parent slot must be lower than proposal slot"
  validateTimeoutQC request.slot request.parentSlot request.height request.parentHash
    request.timeoutQC
  verifyTimeoutQCProof crypto signed request.timeoutQC request.epochSnapshot
    request.proofSnapshots
  let leaderID ← request.schedule.leaderForSlot request.slot
  failIf (∀ leader ∈ request.epochSnapshot.validatorByID leaderID,
      leader.consensusPublicKey ≠ request.leaderKeyPair.publicKey)
    "consensus: local key is not slot leader"

/-- The time is that of the leader's clock. -/
def buildProposalHeader (chainID : Bytes) (now : ℤ) (request : ProduceBlockRequest τ)
    (transactions : List τ) (receipts : List Hash) (rewards : List BlockReward)
    (state : ChainState) : Except String BlockHeader := do
  let leaderID ← request.schedule.leaderForSlot request.slot
  let roots ← computeProposalRoots crypto model transactions receipts rewards request.rewardQCs
    request.evidence state
  let timeoutQCHash ← hashQuorumCertificate crypto request.timeoutQC
  pure
    { chainID := chainID
      slot := request.slot
      height := request.height
      parentHash := request.parentHash
      previousQCHash := request.previousQCHash
      timeoutQCHash := timeoutQCHash
      leaderID := leaderID
      epochID := request.epochSnapshot.epochID
      epochSnapshotRoot := request.epochSnapshot.snapshotStateRoot
      txRoot := roots.txRoot
      receiptRoot := roots.receiptRoot
      rewardQCRoot := roots.rewardQCRoot
      evidenceRoot := roots.evidenceRoot
      rewardRoot := roots.rewardRoot
      stateRoot := roots.stateRoot
      accountRoot := roots.stateRoot
      timestampUnixMilli := now }

def BlockExecutor.productionInput (producer : BlockExecutor τ) (request : ProduceBlockRequest τ)
    (transactions : List τ) : ParallelExecutionInput τ where
  chainID := producer.chainID
  slot := request.slot
  epoch := request.epochSnapshot.epochID
  transactions := transactions
  state := request.parentState
  blockhashQueue := request.blockhashQueue
  processedTxIDs := []
  executor := producer.executor
  maxIncludedCount := maxProposalTransactions
  rejectFailed := false
  markIncluded := true
  failureLabel := "produce"

def ProduceBlockRequest.rewardInput (request : ProduceBlockRequest τ) (leader : ValidatorState)
    (feeDetails : List FeeDetails) : BlockRewardInput where
  slot := request.slot
  parentSlot := request.parentSlot
  height := request.height
  epochID := request.epochSnapshot.epochID
  epochSnapshot := request.epochSnapshot
  schedule := request.schedule
  leader := leader
  feeDetails := feeDetails
  rewardQCs := request.rewardQCs
  evidence := request.evidence
  proofSnapshots := request.proofSnapshots
  config := request.rewardConfig
  rentConfig :=
    { lamportsPerByteYear := 0, exemptionThresholdYears := 0, accountStorageOverheadSize := 0 }

def BlockExecutor.produceBlockWithReport (producer : BlockExecutor τ) (now : ℤ)
    (request : ProduceBlockRequest τ) : Except String (BlockProductionResult τ) := do
  request.validate crypto signed
  let (transactions, _, _) ← selectBlockTransactionPrefix model request.transactions
  let output ← executeTransactionsParallel crypto model.toTransactionModel
    (producer.productionInput request transactions) producer.finishing
  let leaderID ← request.schedule.leaderForSlot request.slot
  let leader ← orFail (request.epochSnapshot.validatorByID leaderID)
    "consensus: block leader not in epoch snapshot"
  let rewarded ← applyBlockRewards crypto signed (request.rewardInput leader output.feeDetails)
    output.state
  let header ← buildProposalHeader crypto model producer.chainID now request output.transactions
    output.receipts rewarded.rewards rewarded.state
  let signData ← header.signBytes
  pure
    { proposal :=
        { header := header
          transactions := output.transactions
          rewardQCs := request.rewardQCs
          timeoutQC := request.timeoutQC
          evidence := request.evidence
          rewards := rewarded.rewards
          leaderSignature := request.leaderKeyPair.sign signData }
      state := rewarded.state
      rejectedTransactions := output.rejectedTransactions }

/-! ### Verification -/

def BlockProposal.signedHeader (proposal : BlockProposal τ) : SignedHeader where
  header := proposal.header
  leaderSignature := proposal.leaderSignature

def VerifyProposalRequest.validate (request : VerifyProposalRequest τ) : Except String Unit := do
  let header := request.proposal.header
  request.epochSnapshot.validate crypto
  failIf (header.parentHash ≠ request.parentHash) "consensus: parent hash mismatch"
  failIf (request.parentSlot ≠ 0 ∧ header.slot ≤ request.parentSlot)
    "consensus: parent slot must be lower than proposal slot"
  validateTimeoutQC header.slot request.parentSlot header.height request.parentHash
    request.proposal.timeoutQC
  verifyTimeoutQCProof crypto signed request.proposal.timeoutQC request.epochSnapshot
    request.proofSnapshots
  let timeoutQCHash ← hashQuorumCertificate crypto request.proposal.timeoutQC
  failIf (header.timeoutQCHash ≠ timeoutQCHash) "consensus: timeout qc hash mismatch"
  failIf (header.epochID ≠ request.epochSnapshot.epochID) "consensus: epoch mismatch"
  failIf (header.epochSnapshotRoot ≠ request.epochSnapshot.snapshotStateRoot)
    "consensus: epoch snapshot root mismatch"
  failIf (maxProposalTransactions < request.proposal.transactions.length)
    "consensus: proposal transaction count exceeds limit"

def verifyProposalRoots (proposal : BlockProposal τ) (receipts : List Hash)
    (rewards : List BlockReward) (state : ChainState) : Except String Unit := do
  let header := proposal.header
  let roots ← computeProposalRoots crypto model proposal.transactions receipts rewards
    proposal.rewardQCs proposal.evidence state
  failIf (header.txRoot ≠ roots.txRoot ∨ header.receiptRoot ≠ roots.receiptRoot)
    "consensus: proposal transaction roots mismatch"
  failIf (header.rewardQCRoot ≠ roots.rewardQCRoot ∨ header.evidenceRoot ≠ roots.evidenceRoot)
    "consensus: proposal proof roots mismatch"
  failIf (header.rewardRoot ≠ roots.rewardRoot ∨ proposal.rewards ≠ rewards)
    "consensus: proposal reward root mismatch"
  failIf (header.stateRoot ≠ roots.stateRoot ∨ header.accountRoot ≠ roots.stateRoot)
    "consensus: proposal state root mismatch"

def BlockExecutor.verificationInput (verifier : BlockExecutor τ)
    (request : VerifyProposalRequest τ) : ParallelExecutionInput τ where
  chainID := verifier.chainID
  slot := request.proposal.header.slot
  epoch := request.epochSnapshot.epochID
  transactions := request.proposal.transactions
  state := request.parentState
  blockhashQueue := request.blockhashQueue
  processedTxIDs := []
  executor := verifier.executor
  maxIncludedCount := request.proposal.transactions.length
  rejectFailed := true
  markIncluded := false
  failureLabel := "proposal"

def VerifyProposalRequest.rewardInput (request : VerifyProposalRequest τ)
    (feeDetails : List FeeDetails) : BlockRewardInput where
  slot := request.proposal.header.slot
  parentSlot := request.parentSlot
  height := request.proposal.header.height
  epochID := request.epochSnapshot.epochID
  epochSnapshot := request.epochSnapshot
  schedule := request.schedule
  leader := request.leader
  feeDetails := feeDetails
  rewardQCs := request.proposal.rewardQCs
  evidence := request.proposal.evidence
  proofSnapshots := request.proofSnapshots
  config := request.rewardConfig
  rentConfig :=
    { lamportsPerByteYear := 0, exemptionThresholdYears := 0, accountStorageOverheadSize := 0 }

def BlockExecutor.verifyProposal (verifier : BlockExecutor τ)
    (request : VerifyProposalRequest τ) : Except String ChainState := do
  let proposal := request.proposal
  request.validate crypto signed
  failIf (proposal.header.chainID ≠ verifier.chainID) "consensus: invalid chain id"
  proposal.signedHeader.verifyLeaderSignature crypto request.leader.consensusPublicKey
  let leaderID ← request.schedule.leaderForSlot proposal.header.slot
  failIf (leaderID ≠ proposal.header.leaderID ∨ leaderID ≠ request.leader.validatorID)
    "consensus: proposal leader mismatch"
  validateBlockTransactionResources model proposal.transactions
  let output ← executeTransactionsParallel crypto model.toTransactionModel
    (verifier.verificationInput request) verifier.finishing
  let rewarded ← applyBlockRewards crypto signed (request.rewardInput output.feeDetails)
    output.state
  verifyProposalRoots crypto model proposal output.receipts rewarded.rewards rewarded.state
  pure rewarded.state

end

end Ordexus
