import Ordexus.Runtime.Context

/-!
# The loader of contract programs

Writing, deploying and upgrading the bytecode of an account (`programs/bpfloader/program.go`).
The account stays with the loader and keeps its lamports; what bytecode is well formed and
what its manifest says are parameters.
-/

namespace Ordexus.BpfLoader

open Checked Borsh

def programID : PublicKey := defaultBuiltinProgramIDs.bpfLoader

def maxLoaderInstructionBytes : ℕ := maxInstructionDataSize
def maxLoaderInstructionDataBytes : ℕ := maxLoaderInstructionBytes - 12
def maxProgramDataSize : ℕ := 1024 * 1024

inductive InstructionType where
  | write
  | finalize
  | deploy
  | upgrade
  | unknown (code : ℕ)
deriving DecidableEq

def InstructionType.ofCode : ℕ → InstructionType
  | 0 => .write
  | 1 => .finalize
  | 2 => .deploy
  | 3 => .upgrade
  | code => .unknown code

structure Instruction where
  type : InstructionType
  offset : ℕ
  data : Bytes
deriving DecidableEq

structure DeploymentPolicy where
  allowedDeployers : List PublicKey
  minDeploymentDepositLamports : ℕ
  requireManifest : Bool
  allowUpgradeableContracts : Bool
deriving DecidableEq

/-- The policy of a node and what the virtual machine says about bytecode. -/
structure Program where
  policy : DeploymentPolicy
  loadBytecode : Bytes → Except String Unit
  /-- The upgrade authority of the manifest, if there is a manifest. -/
  decodeProgramManifest : Bytes → Except String (Option PublicKey)

/-! ### The instruction format -/

def validateProgramDataLength (data : Bytes) : Except String Unit := do
  let length := data.length
  failIf (data = []) "bpfloader: program data is empty"
  failIf (maxProgramDataSize < length)
    s!"bpfloader: program data length {length} exceeds {maxProgramDataSize}"

def validateLoaderInstructionDataLength (data : Bytes) : Except String Unit := do
  let length := data.length
  validateProgramDataLength data
  failIf (maxLoaderInstructionDataBytes < length)
    s!"bpfloader: instruction data length {length} exceeds {maxLoaderInstructionDataBytes}"

/-- An instruction that brings bytecode. -/
def validateLoaderData (data : Bytes) (empty : String) : Except String Unit := do
  failIf (data = []) empty
  validateLoaderInstructionDataLength data

def Instruction.validate (instruction : Instruction) : Except String Unit :=
  match instruction.type with
  | .write => validateLoaderData instruction.data "bpfloader: write data is empty"
  | .finalize => pure ()
  | .deploy => validateLoaderData instruction.data "bpfloader: deploy data is empty"
  | .upgrade => validateLoaderData instruction.data "bpfloader: upgrade data is empty"
  | .unknown code => .error s!"bpfloader: invalid instruction type {code}"

def readInstruction : Reader Instruction := do
  let instructionType ← readField 4 "bpfloader: decode instruction type"
  let offset ← readField 4 "bpfloader: decode offset"
  let data ← (readBytes maxLoaderInstructionBytes).withContext "bpfloader: decode data"
  pure { type := .ofCode instructionType, offset, data }

def unmarshalInstructionBinary (data : Bytes) : Except String Instruction := do
  let instruction ← readAll readInstruction "bpfloader: decode eof" data
  instruction.validate
  pure instruction

/-! ### The deployment policy -/

/-- `Normalize`: empty addresses and repetitions are dropped. -/
def DeploymentPolicy.deployers (policy : DeploymentPolicy) : List PublicKey :=
  (policy.allowedDeployers.filter (· ≠ 0)).reverse.dedup.reverse

def feePayerAddress (context : InstructionContext) : PublicKey :=
  context.message.accountKeys.headD 0

def isAllowedDeployer (policy : DeploymentPolicy) (address : PublicKey) : Bool :=
  address ≠ 0 && decide (address ∈ policy.deployers)

section

variable (program : Program) (context : InstructionContext)

def isDeploymentAllowedByPolicy (programAccount : Account) (dataLength : ℕ) : Bool :=
  let policy := program.policy
  (policy.deployers = [] && policy.minDeploymentDepositLamports = 0) ||
    isAllowedDeployer policy (feePayerAddress context) ||
    (policy.minDeploymentDepositLamports ≠ 0 &&
      match context.rentConfig.minimumBalance dataLength with
      | .error _ => false
      | .ok minimumBalance =>
        minimumBalance ≤ programAccount.lamports &&
          policy.minDeploymentDepositLamports ≤ programAccount.lamports - minimumBalance)

def validateOVMProgramData (program : Program) (data : Bytes) : Except String Unit := do
  validateProgramDataLength data
  withContext "bpfloader: validate ovm bytecode" (program.loadBytecode data)

/-- A contract with an upgrade authority needs its signature. -/
def validateUpgradeAuthority (authority : PublicKey) : Except String Unit :=
  if authority = 0 then pure ()
  else do
    failIf (program.policy.allowUpgradeableContracts = false)
      "structure: invalid instruction: upgradeable contracts are disabled"
    failIf (context.isSignerContextAddress authority = false)
      "structure: missing required signature: upgrade authority must sign"

def validateDeployment (programAccount : Account) (data : Bytes) : Except String Unit := do
  validateOVMProgramData program data
  let manifest ← withContext "bpfloader: decode deployment manifest"
    (program.decodeProgramManifest data)
  failIf (program.policy.requireManifest = true ∧ manifest = none)
    "structure: invalid instruction: manifest is required"
  validateUpgradeAuthority program context (manifest.getD 0)
  failIf (isDeploymentAllowedByPolicy program context programAccount data.length = false)
    ("structure: invalid instruction: " ++
      "deployer is not whitelisted and deposit is insufficient")

end

/-! ### Execution -/

def loadWritableProgramAccount (context : InstructionContext) (accounts : AccountMap) :
    Except String (PublicKey × Account) := do
  failIf (context.instruction.accountIndexes.length < 1)
    "bpfloader: instruction requires program account"
  let accountIndex ← context.accountIndexAt 0
  let programAddress ← context.accountKey accountIndex
  failIf (context.isSignerContextAddress programAddress = false)
    "structure: missing required signature: program account must sign"
  failIf (isWritableMessageAccount accountIndex context.message = false)
    "structure: invalid instruction: program account must be writable"
  let account ← orFail (accounts.lookup programAddress)
    "structure: invalid loaded transaction: program account not found"
  failIf (account.owner ≠ programID)
    "structure: invalid instruction: program account owner must be bpf loader"
  failIf (account.executable = true)
    "structure: invalid instruction: program account already executable"
  pure (programAddress, account)

/-- An upgrade is authorised by the manifest, not by the program account. -/
def loadWritableExecutableProgramAccount (context : InstructionContext) (accounts : AccountMap) :
    Except String (PublicKey × Account) := do
  failIf (context.instruction.accountIndexes.length < 1)
    "bpfloader: instruction requires program account"
  let accountIndex ← context.accountIndexAt 0
  let programAddress ← context.accountKey accountIndex
  failIf (isWritableMessageAccount accountIndex context.message = false)
    "structure: invalid instruction: program account must be writable"
  let account ← orFail (accounts.lookup programAddress)
    "structure: invalid loaded transaction: program account not found"
  failIf (account.owner ≠ programID)
    "structure: invalid instruction: program account owner must be bpf loader"
  failIf (account.executable = false)
    "structure: invalid instruction: program account is not executable"
  pure (programAddress, account)

def withBytecode (account : Account) (data : Bytes) (executable : Bool) : Account :=
  { account with data := data, executable := executable }

def executeWrite (instruction : Instruction) (context : InstructionContext)
    (accounts : AccountMap) : Except String AccountMap := do
  let (programAddress, programAccount) ← loadWritableProgramAccount context accounts
  let endOffset := instruction.offset + instruction.data.length
  failIf (programAccount.data.length < endOffset)
    "bpfloader: write range exceeds program account data"
  let data := programAccount.data.take instruction.offset ++ instruction.data ++
    programAccount.data.drop endOffset
  pure (accounts.insert programAddress (withBytecode programAccount data false))

section

variable (program : Program)

def executeFinalize (context : InstructionContext) (accounts : AccountMap) :
    Except String AccountMap := do
  let (programAddress, programAccount) ← loadWritableProgramAccount context accounts
  validateDeployment program context programAccount programAccount.data
  let next := withBytecode programAccount programAccount.data true
  withContext "bpfloader: validate executable account" (next.validateWithRent context.rentConfig)
  pure (accounts.insert programAddress next)

def executeDeploy (instruction : Instruction) (context : InstructionContext)
    (accounts : AccountMap) : Except String AccountMap := do
  let (programAddress, programAccount) ← loadWritableProgramAccount context accounts
  validateDeployment program context programAccount instruction.data
  let _ ← withContext "bpfloader: write program data"
    (programAccount.setData instruction.data context.rentConfig)
  let next := withBytecode programAccount instruction.data true
  withContext "bpfloader: validate executable account" (next.validateWithRent context.rentConfig)
  pure (accounts.insert programAddress next)

def currentUpgradeAuthority (data : Bytes) : Except String PublicKey := do
  let manifest ← withContext "bpfloader: decode current manifest"
    (program.decodeProgramManifest data)
  let authority ← orFail manifest
    "structure: invalid instruction: executable program is immutable without manifest"
  failIf (authority = 0)
    "structure: invalid instruction: executable program has no upgrade authority"
  pure authority

def executeUpgrade (instruction : Instruction) (context : InstructionContext)
    (accounts : AccountMap) : Except String AccountMap := do
  let (programAddress, programAccount) ← loadWritableExecutableProgramAccount context accounts
  let authority ← currentUpgradeAuthority program programAccount.data
  failIf (context.isSignerContextAddress authority = false)
    "structure: missing required signature: upgrade authority must sign"
  validateOVMProgramData program instruction.data
  let manifest ← withContext "bpfloader: decode next manifest"
    (program.decodeProgramManifest instruction.data)
  let nextAuthority ← orFail manifest
    "structure: invalid instruction: upgraded program must keep manifest"
  failIf (nextAuthority ≠ 0 ∧ nextAuthority ≠ authority)
    "structure: invalid instruction: upgrade cannot rotate authority"
  let _ ← withContext "bpfloader: write upgraded program data"
    (programAccount.setData instruction.data context.rentConfig)
  let next := withBytecode programAccount instruction.data true
  withContext "bpfloader: validate upgraded executable account"
    (next.validateWithRent context.rentConfig)
  pure (accounts.insert programAddress next)

def execute (context : InstructionContext) (accounts : AccountMap) : Except String AccountMap := do
  let instruction ← unmarshalInstructionBinary context.instruction.data
  match instruction.type with
  | .write => executeWrite instruction context accounts
  | .finalize => executeFinalize program context accounts
  | .deploy => executeDeploy program instruction context accounts
  | .upgrade => executeUpgrade program instruction context accounts
  | .unknown code => .error s!"bpfloader: unsupported instruction type {code}"

end

/-! ### What an instruction does -/

section

variable {program : Program} {context : InstructionContext} {accounts next : AccountMap}
  {address : PublicKey} {account : Account}

theorem loadWritableProgramAccount_eq_ok
    (h : loadWritableProgramAccount context accounts = .ok (address, account)) :
    accounts.lookup address = some account ∧ account.owner = programID := by
  simp only [loadWritableProgramAccount, eq_ok, Prod.mk.injEq, ne_eq, not_not] at h
  obtain ⟨-, _, -, _, -, -, -, _, hlookup, howner, -, rfl, rfl⟩ := h
  exact ⟨hlookup, howner⟩

theorem loadWritableExecutableProgramAccount_eq_ok
    (h : loadWritableExecutableProgramAccount context accounts = .ok (address, account)) :
    accounts.lookup address = some account ∧ account.owner = programID := by
  simp only [loadWritableExecutableProgramAccount, eq_ok, Prod.mk.injEq, ne_eq, not_not] at h
  obtain ⟨-, _, -, _, -, -, _, hlookup, howner, -, rfl, rfl⟩ := h
  exact ⟨hlookup, howner⟩

/-- One account of the loader gets other bytecode. -/
theorem execute_eq_ok (h : execute program context accounts = .ok next) :
    ∃ address account data executable, accounts.lookup address = some account ∧
      account.owner = programID ∧
      next = accounts.insert address (withBytecode account data executable) := by
  simp only [execute, eq_ok] at h
  obtain ⟨instruction, -, h⟩ := h
  split at h
  · simp only [executeWrite, eq_ok] at h
    obtain ⟨⟨address, account⟩, hload, -, rfl⟩ := h
    obtain ⟨hlookup, howner⟩ := loadWritableProgramAccount_eq_ok hload
    exact ⟨address, account, _, _, hlookup, howner, rfl⟩
  · simp only [executeFinalize, eq_ok] at h
    obtain ⟨⟨address, account⟩, hload, -, -, rfl⟩ := h
    obtain ⟨hlookup, howner⟩ := loadWritableProgramAccount_eq_ok hload
    exact ⟨address, account, _, _, hlookup, howner, rfl⟩
  · simp only [executeDeploy, eq_ok] at h
    obtain ⟨⟨address, account⟩, hload, -, _, -, -, rfl⟩ := h
    obtain ⟨hlookup, howner⟩ := loadWritableProgramAccount_eq_ok hload
    exact ⟨address, account, _, _, hlookup, howner, rfl⟩
  · simp only [executeUpgrade, eq_ok] at h
    obtain ⟨⟨address, account⟩, hload, _, -, -, -, _, -, _, -, -, _, -, -, rfl⟩ := h
    obtain ⟨hlookup, howner⟩ := loadWritableExecutableProgramAccount_eq_ok hload
    exact ⟨address, account, _, _, hlookup, howner, rfl⟩
  · cases h

end

end Ordexus.BpfLoader
