import Ordexus.Structure.Fee
import Ordexus.Structure.Shielded

/-!
# Transactions

A transaction as it comes off the wire: signatures and a message
(`structure/transaction.go`), and the resources its instructions are estimated to need
(`structure/fee_budget.go`). A transaction without signatures is authorised by the proof of
its only instruction, and its message has one possible layout.
-/

namespace Ordexus

open Checked

def defaultBuiltinInstructionCU : ℕ := 3000
def defaultTransferComputeUnits : ℕ := 3000
def defaultContractCallComputeUnits : ℕ := 200000
def shieldedGroth16VerificationComputeUnits : ℕ := defaultContractCallComputeUnits
def defaultContractDeployBaseCU : ℕ := 200000
def defaultContractDeployByteCU : ℕ := 10

structure Transaction where
  signatures : List Signature
  message : OrdexusMessage
deriving DecidableEq

/-! ### Validation -/

/-- The accounts an unsigned transaction names: the pool, the destination of a payment out
of it, and the marker of every spend. -/
def ShieldedTransferInstruction.unsignedAccountCount (instruction : ShieldedTransferInstruction) :
    ℕ :=
  1 + (if 0 < instruction.transparentOutputAmount then 1 else 0) +
    (spentNullifiers instruction.bundle.actions).length

/-- The markers stand at consecutive places of the account list. -/
def validateUnsignedMarkers (addresses : ShieldedAddresses) (accountKeys : List PublicKey)
    (instruction : ShieldedTransferInstruction) : Except String Unit :=
  let firstMarker := if 0 < instruction.transparentOutputAmount then 2 else 1
  (spentNullifiers instruction.bundle.actions).zipIdx.forM fun (nullifier, position) =>
    failIf (accountKeys[firstMarker + position]? ≠ some (addresses.nullifierAccount nullifier))
      "structure: invalid instruction: unsigned shielded nullifier marker is not canonical"

/-- The layout of an unsigned message whose only instruction is `compiled`. -/
def validateUnsignedLayout (addresses : ShieldedAddresses) (message : OrdexusMessage)
    (compiled : CompiledInstruction) : Except String Unit := do
  let keyCount := message.accountKeys.length
  let indexCount := compiled.accountIndexes.length
  failIf (message.accountKeys[compiled.programIDIndex]? ≠ some defaultBuiltinProgramIDs.shielded)
    ("structure: missing required signature: " ++
      "unsigned transaction must target the shielded program")
  let instruction ← unmarshalShieldedTransferInstructionBinary compiled.data
  failIf (instruction.transparentInputAmount ≠ 0)
    "structure: missing required signature: transparent shielded input requires a signature"
  let accountCount := instruction.unsignedAccountCount
  let messageCount := accountCount + 1
  failIf (keyCount ≠ messageCount)
    (s!"structure: invalid instruction: unsigned shielded message has {keyCount} accounts, " ++
      s!"want {messageCount}")
  failIf (¬message.accountKeys.Nodup)
    "structure: invalid instruction: unsigned shielded message contains duplicate accounts"
  failIf (message.header ≠
      { numRequiredSignatures := 0, numReadonlySignedAccounts := 0,
        numReadonlyUnsignedAccounts := 1 })
    "structure: invalid message header: unsigned shielded message header is not canonical"
  failIf (indexCount ≠ accountCount)
    (s!"structure: invalid instruction: unsigned shielded instruction has {indexCount} " ++
      s!"accounts, want {accountCount}")
  compiled.accountIndexes.zipIdx.forM fun (accountIndex, accountPosition) =>
    failIf (accountIndex ≠ accountPosition)
      (s!"structure: invalid instruction: unsigned shielded instruction account " ++
        s!"{accountPosition} must use canonical index {accountPosition}")
  failIf (message.accountKeys[0]? ≠ some addresses.pool)
    "structure: invalid instruction: unsigned transaction must use the global shielded pool"
  validateUnsignedMarkers addresses message.accountKeys instruction
  failIf (compiled.programIDIndex ≠ accountCount ∨
      message.accountKeys[accountCount]? ≠ some defaultBuiltinProgramIDs.shielded)
    ("structure: missing required signature: " ++
      "unsigned transaction must place the shielded program last")

def validateTransactionAuthorizationShape (addresses : ShieldedAddresses)
    (message : OrdexusMessage) : Except String Unit :=
  if 0 < message.header.numRequiredSignatures then pure ()
  else do
    failIf (message.usesAddressTable = true ∨ message.addressTableLookups ≠ [])
      ("structure: invalid address table lookup: " ++
        "unsigned shielded transaction cannot use address tables")
    match message.instructions with
    | [compiled] => validateUnsignedLayout addresses message compiled
    | _ => .error ("structure: missing required signature: " ++
        "unsigned transaction requires one shielded instruction")

def Transaction.validate (addresses : ShieldedAddresses) (transaction : Transaction) :
    Except String Unit := do
  let signatureCount := transaction.signatures.length
  let required := transaction.message.header.numRequiredSignatures
  failIf (maxSignaturesPerTransaction < signatureCount)
    (s!"structure: invalid transaction encoding: signatures count {signatureCount} exceeds " ++
      s!"{maxSignaturesPerTransaction}")
  withContext "structure: validate transaction message" transaction.message.validate
  failIf (signatureCount ≠ required)
    s!"structure: signatures count {signatureCount} does not match required {required}"
  validateTransactionAuthorizationShape addresses transaction.message

/-! ### Resources -/

/-- Compute units and bytes of storage. -/
structure ResourceDemand where
  computeUnits : ℕ
  storageWriteBytes : ℕ
deriving DecidableEq

/-- Writing, deploying and upgrading are charged for their bytes; instructions of fewer
than eight bytes have no type to read. -/
def estimateLoaderInstructionBudget (instruction : CompiledInstruction) :
    Except String ResourceDemand :=
  let instructionType := Borsh.ofLittleEndian (instruction.data.take 4)
  let payloadLength := instruction.data.length - 8
  if instruction.data.length < 8 then
    pure { computeUnits := defaultContractDeployBaseCU
           storageWriteBytes := instruction.data.length }
  else if instructionType = 0 ∨ instructionType = 2 ∨ instructionType = 3 then do
    let byteUnits ← safeMulUint64 payloadLength defaultContractDeployByteCU
    let units ← safeAddUint64 defaultContractDeployBaseCU byteUnits
    pure { computeUnits := units, storageWriteBytes := payloadLength }
  else pure { computeUnits := defaultBuiltinInstructionCU, storageWriteBytes := 0 }

def estimateInstructionBudget (programID : PublicKey) (instruction : CompiledInstruction) :
    Except String ResourceDemand :=
  if programID = defaultBuiltinProgramIDs.system ∧ 2 ≤ instruction.accountIndexes.length then
    pure { computeUnits := defaultTransferComputeUnits, storageWriteBytes := 0 }
  else if programID = defaultBuiltinProgramIDs.bpfLoader then
    estimateLoaderInstructionBudget instruction
  else if programID = defaultBuiltinProgramIDs.shielded then do
    let shielded ← unmarshalShieldedTransferInstructionBinary instruction.data
    let storageWriteBytes ← shieldedStorageWriteChargeBytes shielded.bundle.actions
    pure { computeUnits := shieldedGroth16VerificationComputeUnits, storageWriteBytes }
  else if defaultBuiltinProgramIDs.isBuiltinProgram programID then
    pure { computeUnits := defaultBuiltinInstructionCU, storageWriteBytes := 0 }
  else pure { computeUnits := defaultContractCallComputeUnits, storageWriteBytes := 0 }

/-- The loop over the instructions of a message. -/
def addInstructionDemand (accountKeys : List PublicKey) (total : ResourceDemand)
    (entry : CompiledInstruction × ℕ) : Except String ResourceDemand := do
  let instructionIndex := entry.2
  let programID ← orFail accountKeys[entry.1.programIDIndex]?
    (s!"structure: estimate instruction {instructionIndex}: " ++
      "loaded program addresses are not resolved")
  let demand ← withContext s!"structure: estimate instruction {instructionIndex} budget"
    (estimateInstructionBudget programID entry.1)
  let computeUnits ← withContext "structure: compute demand overflow"
    (safeAddUint64 total.computeUnits demand.computeUnits)
  let storageWriteBytes ← withContext "structure: storage demand overflow"
    (safeAddUint64 total.storageWriteBytes demand.storageWriteBytes)
  pure { computeUnits, storageWriteBytes }

def estimateTransactionResourceDemand (transaction : Transaction) :
    Except String ResourceDemand := do
  let message := transaction.message
  withContext "structure: estimate resource demand" message.validate
  let total ← message.instructions.zipIdx.foldlM (addInstructionDemand message.accountKeys)
    { computeUnits := 0, storageWriteBytes := 0 }
  pure (if total.computeUnits = 0 then
    { total with computeUnits := defaultBuiltinInstructionCU } else total)

def estimateTransactionComputeBudget (transaction : Transaction) :
    Except String ComputeBudgetLimits := do
  let demand ← estimateTransactionResourceDemand transaction
  let computeUnits := demand.computeUnits
  failIf (maxComputeUnitsPerTransaction < computeUnits)
    (s!"structure: invalid fee: estimated compute units {computeUnits} exceeds transaction " ++
      s!"maximum {maxComputeUnitsPerTransaction}")
  pure { defaultComputeBudgetLimits with
    maxComputeUnits := computeUnits
    storageWriteBytesLimit := demand.storageWriteBytes }

/-! ### What an unsigned transaction is -/

section

variable {addresses : ShieldedAddresses} {transaction : Transaction}

/-- The only instruction goes to the shielded program, takes nothing from a transparent
account, and names the pool first, which is the first account of the message. -/
theorem Transaction.unsigned_of_validate (h : transaction.validate addresses = .ok ())
    (hunsigned : transaction.message.header.numRequiredSignatures = 0) :
    ∃ compiled instruction, transaction.message.instructions = [compiled] ∧
      transaction.message.accountKeys[compiled.programIDIndex]? =
        some defaultBuiltinProgramIDs.shielded ∧
      unmarshalShieldedTransferInstructionBinary compiled.data = .ok instruction ∧
      instruction.transparentInputAmount = 0 ∧
      transaction.message.accountKeys[0]? = some addresses.pool := by
  simp only [validate, eq_ok] at h
  obtain ⟨-, -, -, h⟩ := h
  rw [validateTransactionAuthorizationShape, if_neg (by omega)] at h
  obtain ⟨_, -, h⟩ := bind_eq_ok.mp h
  split at h
  · next compiled hinstructions =>
    simp only [validateUnsignedLayout, eq_ok, not_not, ne_eq] at h
    obtain ⟨hprogram, instruction, hdata, hinput, -, -, -, -, -, hpool, -⟩ := h
    exact ⟨compiled, instruction, hinstructions, hprogram, hdata, hinput, hpool⟩
  · cases h

end

end Ordexus
