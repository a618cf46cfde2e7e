import Ordexus.Consensus.ChainState
import Ordexus.Library.Batch

/-!
# Parallel execution of a transaction list

`executeTransactionsParallel` (`consensus/parallel_execution.go`): the scheduler
takes a batch of transactions whose account locks are compatible, executes the
batch against one state, commits the results in batch order and goes on with the
transactions it passed over. The executor and the type of transactions are
parameters.
-/

namespace Ordexus

open Checked

/-- The text of a transaction's first signature or, without one, of its digest. -/
abbrev TransactionID := Bytes

/-- What the scheduler asks of a transaction. -/
structure TransactionModel (τ : Type) where
  txIDString : τ → Except String TransactionID
  /-- The accounts a transaction only reads, and those it may write. -/
  transactionLockAccounts : τ → Except String (List PublicKey × List PublicKey)
  markTransactionConfirmed : τ → ℕ → τ

/-- The accounts held by the transactions of a batch. -/
structure AccountLockSet where
  readLocks : List PublicKey
  writeLocks : List PublicKey
deriving DecidableEq

namespace AccountLockSet

def empty : AccountLockSet := { readLocks := [], writeLocks := [] }

/-- Writers exclude everybody, readers exclude writers. -/
def tryLock (locks : AccountLockSet) (reads writes : List PublicKey) : Option AccountLockSet :=
  if (∃ account ∈ writes, account ∈ locks.writeLocks ∨ account ∈ locks.readLocks) ∨
      ∃ account ∈ reads, account ∈ locks.writeLocks then none
  else some { readLocks := reads ++ locks.readLocks, writeLocks := writes ++ locks.writeLocks }

end AccountLockSet

def tryLockTransaction {τ : Type} (model : TransactionModel τ) (locks : AccountLockSet)
    (transaction : τ) : Except String (Option AccountLockSet) := do
  let (reads, writes) ← model.transactionLockAccounts transaction
  pure (locks.tryLock reads writes)

structure BlockResourceUsage where
  computeUnits : ℕ
  costUnits : ℕ
deriving DecidableEq

def maxBlockComputeUnits : ℕ := maxComputeUnitsPerTransaction * 5
def maxBlockCostUnits : ℕ := maxBlockComputeUnits

/-- The usage after an addition, or `none` if a block limit would be passed. -/
def addBlockResourceUsage (current additional : BlockResourceUsage) : Option BlockResourceUsage :=
  if maxBlockComputeUnits < current.computeUnits ∨ maxBlockCostUnits < current.costUnits ∨
      maxBlockComputeUnits - current.computeUnits < additional.computeUnits ∨
      maxBlockCostUnits - current.costUnits < additional.costUnits then none
  else some
    { computeUnits := current.computeUnits + additional.computeUnits
      costUnits := current.costUnits + additional.costUnits }

def addActualBlockResourceUsage (current : BlockResourceUsage)
    (execution : TransactionExecutionResult) (transactionIndex : ℕ) :
    Except String BlockResourceUsage :=
  let computeUnits := current.computeUnits
  let costUnits := current.costUnits
  let additional : BlockResourceUsage :=
    { computeUnits := execution.computeUnitsConsumed, costUnits := execution.costUnits }
  let moreCompute := additional.computeUnits
  let moreCost := additional.costUnits
  orFail (addBlockResourceUsage current additional)
    (s!"consensus: transaction {transactionIndex} actual block resources exceed limit: " ++
      s!"consumed {computeUnits} compute and {costUnits} cost units before transaction, " ++
      s!"additional {moreCompute}/{moreCost}")

section

variable (τ : Type)

structure TransactionRequest where
  chainID : Bytes
  slot : ℕ
  epoch : ℕ
  transaction : τ
  accounts : ChainState
  blockhashQueue : BlockhashQueue
  processedTxIDs : List TransactionID

abbrev TransactionExecutor :=
  TransactionRequest τ → Except String TransactionExecutionResult

structure ParallelExecutionInput where
  chainID : Bytes
  slot : ℕ
  epoch : ℕ
  transactions : List τ
  state : ChainState
  blockhashQueue : BlockhashQueue
  processedTxIDs : List TransactionID
  executor : TransactionExecutor τ
  maxIncludedCount : ℕ
  rejectFailed : Bool
  markIncluded : Bool
  failureLabel : String

structure RejectedTransaction where
  transactionID : TransactionID
  transaction : τ
  status : TransactionStatus
  error : String
deriving DecidableEq

structure ParallelExecutionOutput where
  state : ChainState
  transactions : List τ
  receipts : List Hash
  feeDetails : List FeeDetails
  rejectedTransactions : List (RejectedTransaction τ)
  resourceUsage : BlockResourceUsage
deriving DecidableEq

structure ScheduledTransaction where
  originalIndex : ℕ
  transaction : τ
deriving DecidableEq

structure ParallelExecutionResult extends ScheduledTransaction τ where
  result : TransactionExecutionResult

/-- The output so far and the ids of the transactions confirmed so far. -/
structure Progress where
  output : ParallelExecutionOutput τ
  processed : List TransactionID

end

variable {τ : Type} (crypto : Crypto) (model : TransactionModel τ)
  (input : ParallelExecutionInput τ)

def hashReceipt (result : TransactionExecutionResult) : Hash :=
  crypto.sha256 (uint64ForHash result.status.code ++ uint64ForHash result.feeDetails.totalFee ++
    result.postBalances.flatMap uint64ForHash)

def transactionExecutionFailureMessage (result : TransactionExecutionResult) : String :=
  result.error.getD "transaction rejected"

def buildScheduledTransactions (transactions : List τ) : List (ScheduledTransaction τ) :=
  transactions.zipIdx.map fun (transaction, index) =>
    { originalIndex := index, transaction := transaction }

/-- `selectParallelBatch`: the batch and the transactions that remain pending. A
transaction that is passed over holds no locks. -/
def selectParallelBatch : ℕ → AccountLockSet → List (ScheduledTransaction τ) →
    Except String (List (ScheduledTransaction τ) × List (ScheduledTransaction τ))
  | _, _, [] => pure ([], [])
  | 0, _, pending => pure ([], pending)
  | room + 1, locks, scheduled :: pending => do
    let index := scheduled.originalIndex
    match ← withContext s!"consensus: lock transaction {index}"
        (tryLockTransaction model locks scheduled.transaction) with
    | some held =>
      let (batch, remaining) ← selectParallelBatch room held pending
      pure (scheduled :: batch, remaining)
    | none =>
      let (batch, remaining) ← selectParallelBatch (room + 1) locks pending
      pure (batch, scheduled :: remaining)

def executeScheduledTransaction (progress : Progress τ) (scheduled : ScheduledTransaction τ) :
    Except String (ParallelExecutionResult τ) := do
  let index := scheduled.originalIndex
  let result ← withContext s!"consensus: execute transaction {index}" (input.executor
    { chainID := input.chainID
      slot := input.slot
      epoch := input.epoch
      transaction := scheduled.transaction
      accounts := progress.output.state
      blockhashQueue := input.blockhashQueue
      processedTxIDs := progress.processed })
  pure { scheduled with result := result }

/-- `executeParallelBatch`. The workers finish the jobs of a batch in any order,
given by `finished`; every job fills its own slot of the results, and the first
error that is stored stops the batch. -/
def executeParallelBatch (finished : List ℕ) (progress : Progress τ)
    (batch : List (ScheduledTransaction τ)) : Except String (List (ParallelExecutionResult τ)) :=
  let results := batch.map (executeScheduledTransaction input progress)
  match finished.findSome? fun index => results[index]?.bind failureMessage with
  | some message => .error message
  | none => results.mapM id

def buildRejectedTransaction (executed : ParallelExecutionResult τ) :
    Except String (RejectedTransaction τ) := do
  let index := executed.originalIndex
  let transactionID ← withContext s!"consensus: rejected transaction id {index}"
    (model.txIDString executed.transaction)
  pure
    { transactionID := transactionID
      transaction := executed.transaction
      status := executed.result.status
      error := transactionExecutionFailureMessage executed.result }

/-- The body of the loop of `applyParallelBatchResults`. -/
def applyExecutionResult (progress : Progress τ) (executed : ParallelExecutionResult τ) :
    Except String (Progress τ) := do
  let index := executed.originalIndex
  let label := input.failureLabel
  let message := transactionExecutionFailureMessage executed.result
  let output := progress.output
  let usage ← addActualBlockResourceUsage output.resourceUsage executed.result index
  if executed.result.status ≠ .confirmed then
    failIf (input.rejectFailed = true) s!"consensus: {label} transaction {index} failed: {message}"
    let rejected ← buildRejectedTransaction model executed
    pure { progress with
      output := { output with
        resourceUsage := usage
        rejectedTransactions := output.rejectedTransactions ++ [rejected] } }
  else
    let transactionID ← withContext s!"consensus: transaction id {index}"
      (model.txIDString executed.transaction)
    let included :=
      if input.markIncluded then
        model.markTransactionConfirmed executed.transaction executed.result.feeDetails.totalFee
      else executed.transaction
    pure
      { processed := transactionID :: progress.processed
        output := { output with
          state := output.state.applyWrites executed.result.writtenAccounts
          transactions := output.transactions ++ [included]
          receipts := output.receipts ++ [hashReceipt crypto executed.result]
          feeDetails := output.feeDetails ++ [executed.result.feeDetails]
          resourceUsage := usage } }

def applyParallelBatchResults (progress : Progress τ)
    (results : List (ParallelExecutionResult τ)) : Except String (Progress τ) :=
  results.foldlM (applyExecutionResult crypto model input) progress

/-- The loop of `executeTransactionsParallel`. Every round takes at least one
pending transaction, so their number is enough fuel. -/
def parallelLoop (finishing : ℕ → List ℕ) :
    ℕ → Progress τ → List (ScheduledTransaction τ) → Except String (Progress τ)
  | 0, progress, _ => pure progress
  | fuel + 1, progress, pending =>
    let included := progress.output.transactions.length
    if pending = [] ∨ input.maxIncludedCount ≤ included then pure progress
    else do
      let (batch, remaining) ←
        selectParallelBatch model (input.maxIncludedCount - included) .empty pending
      failIf (batch = []) "consensus: empty parallel execution batch"
      let results ← executeParallelBatch input (finishing pending.length) progress batch
      let next ← applyParallelBatchResults crypto model input progress results
      parallelLoop finishing fuel next remaining

def initialProgress : Progress τ where
  output :=
    { state := input.state
      transactions := []
      receipts := []
      feeDetails := []
      rejectedTransactions := []
      resourceUsage := { computeUnits := 0, costUnits := 0 } }
  processed := input.processedTxIDs

def executeTransactionsParallel (finishing : ℕ → List ℕ) :
    Except String (ParallelExecutionOutput τ) := do
  let progress ← parallelLoop crypto model input finishing input.transactions.length
    (initialProgress input) (buildScheduledTransactions input.transactions)
  pure progress.output

/-- What the scheduler stands for: the transactions are executed and committed one
after the other, in their order, until the block is full. -/
def sequentialLoop : Progress τ → List (ScheduledTransaction τ) → Except String (Progress τ)
  | progress, [] => pure progress
  | progress, scheduled :: pending =>
    if input.maxIncludedCount ≤ progress.output.transactions.length then pure progress
    else do
      let executed ← executeScheduledTransaction input progress scheduled
      let next ← applyExecutionResult crypto model input progress executed
      sequentialLoop next pending

def executeTransactionsSequentially : Except String (ParallelExecutionOutput τ) := do
  let progress ← sequentialLoop crypto model input (initialProgress input)
    (buildScheduledTransactions input.transactions)
  pure progress.output

end Ordexus
