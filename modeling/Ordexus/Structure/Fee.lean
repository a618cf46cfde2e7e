import Ordexus.Structure.Account

/-!
# Fees and execution results

The fee of a transaction (`structure/fee.go`) and the record an executor returns
for it (`structure/execution.go`), with the fields the block code reads.
-/

namespace Ordexus

open Checked

def maxComputeUnitsPerTransaction : ℕ := 1400000
def defaultLoadedAccountsDataSize : ℕ := 64 * 1024 * 1024
def microLamportsPerLamport : ℕ := 1000000

structure ComputeBudgetLimits where
  maxComputeUnits : ℕ
  computeUnitPriceMicroLamports : ℕ
  loadedAccountsDataSizeLimit : ℕ
  storageWriteBytesLimit : ℕ
  heapFrameBytes : ℕ
deriving DecidableEq

structure FeeDetails where
  signatureCount : ℕ
  signatureFee : ℕ
  computeFee : ℕ
  storageWriteFee : ℕ
  baseFee : ℕ
  prioritizationFee : ℕ
  totalFee : ℕ
  burnedFee : ℕ
  validatorFee : ℕ
deriving DecidableEq

structure FeeCalculator where
  lamportsPerSignature : ℕ
  baseComputeUnitPriceMicroLamports : ℕ
  storageWriteLamportsPerByte : ℕ
  baseFeeBurnPercent : ℕ
deriving DecidableEq

def defaultComputeBudgetLimits : ComputeBudgetLimits where
  maxComputeUnits := maxComputeUnitsPerTransaction
  computeUnitPriceMicroLamports := 0
  loadedAccountsDataSizeLimit := defaultLoadedAccountsDataSize
  storageWriteBytesLimit := 0
  heapFrameBytes := 0

def defaultFeeCalculator : FeeCalculator where
  lamportsPerSignature := 5000
  baseComputeUnitPriceMicroLamports := 100
  storageWriteLamportsPerByte := 10
  baseFeeBurnPercent := 50

def ComputeBudgetLimits.validate (limits : ComputeBudgetLimits) : Except String Unit := do
  let units := limits.maxComputeUnits
  failIf (units = 0) "structure: invalid fee: max compute units cannot be zero"
  failIf (maxComputeUnitsPerTransaction < units)
    s!"structure: invalid fee: max compute units {units} exceeds {maxComputeUnitsPerTransaction}"
  failIf (limits.loadedAccountsDataSizeLimit = 0)
    "structure: invalid fee: loaded account data size limit cannot be zero"

/-- `PrioritizationFee.Fee`: the price is rounded up to a whole lamport. -/
def prioritizationFee (computeUnitLimit computeUnitPriceMicroLamports : ℕ) : Except String ℕ := do
  let product ← safeMulUint64 computeUnitLimit computeUnitPriceMicroLamports
  pure (if product = 0 then 0 else (product - 1) / microLamportsPerLamport + 1)

namespace FeeCalculator

def validate (calculator : FeeCalculator) : Except String Unit := do
  let percent := calculator.baseFeeBurnPercent
  failIf (calculator.lamportsPerSignature = 0)
    "structure: invalid fee: lamports per signature cannot be zero"
  failIf (calculator.baseComputeUnitPriceMicroLamports = 0)
    "structure: invalid fee: base compute unit price cannot be zero"
  failIf (calculator.storageWriteLamportsPerByte = 0)
    "structure: invalid fee: storage write price cannot be zero"
  failIf (100 < percent) s!"structure: invalid fee: burn percent {percent} exceeds 100"

def calculate (calculator : FeeCalculator) (signatureCount : ℕ) (limits : ComputeBudgetLimits) :
    Except String FeeDetails := do
  calculator.validate
  limits.validate
  let signatureFee ← safeMulUint64 signatureCount calculator.lamportsPerSignature
  let computeProduct ← safeMulUint64 limits.maxComputeUnits
    calculator.baseComputeUnitPriceMicroLamports
  let computeFee := computeProduct / microLamportsPerLamport
  let storageWriteFee ← safeMulUint64 limits.storageWriteBytesLimit
    calculator.storageWriteLamportsPerByte
  let signatureAndCompute ← safeAddUint64 signatureFee computeFee
  let baseFee ← safeAddUint64 signatureAndCompute storageWriteFee
  let priorityFee ← prioritizationFee limits.maxComputeUnits limits.computeUnitPriceMicroLamports
  let totalFee ← safeAddUint64 baseFee priorityFee
  let burnedFeeNumerator ← safeMulUint64 baseFee calculator.baseFeeBurnPercent
  let burnedFee := burnedFeeNumerator / 100
  let validatorFee ← safeAddUint64 (baseFee - burnedFee) priorityFee
  pure
    { signatureCount, signatureFee, computeFee, storageWriteFee, baseFee
      prioritizationFee := priorityFee
      totalFee, burnedFee, validatorFee }

end FeeCalculator

inductive TransactionStatus where
  | pending
  | confirmed
  | failed
  | expired
deriving DecidableEq

def TransactionStatus.code : TransactionStatus → ℕ
  | .pending => 0
  | .confirmed => 1
  | .failed => 2
  | .expired => 3

/-- The outcome of one transaction. `error` is the text of the transaction error. -/
structure TransactionExecutionResult where
  status : TransactionStatus
  error : Option String
  feeDetails : FeeDetails
  postBalances : List ℕ
  computeUnitsConsumed : ℕ
  costUnits : ℕ
  writtenAccounts : List AddressedAccount
deriving DecidableEq

structure RecentBlockhashEntry where
  blockhash : Hash
  slot : ℕ
deriving DecidableEq

structure BlockhashQueue where
  entries : List RecentBlockhashEntry
  maxAgeSlots : ℕ
deriving DecidableEq

def RecentBlockhashEntry.isRecent (entry : RecentBlockhashEntry) (currentSlot maxAgeSlots : ℕ) :
    Bool :=
  entry.slot ≤ currentSlot && currentSlot - entry.slot ≤ maxAgeSlots

def BlockhashQueue.isRecent (queue : BlockhashQueue) (blockhash : Hash) (currentSlot : ℕ) : Bool :=
  (queue.entries.find? fun entry => entry.blockhash = blockhash).any fun entry =>
    entry.isRecent currentSlot queue.maxAgeSlots

end Ordexus
