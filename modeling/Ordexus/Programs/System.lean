import Ordexus.Runtime.Context

/-!
# The system program

Payments between accounts, and the creation, assignment and allocation of accounts
(`programs/system/program.go`, with the format of `structure/system_instruction.go`). The
account whose owner or data changes signs, and so does the account that pays.
-/

namespace Ordexus.System

open Checked Borsh

def programID : PublicKey := defaultBuiltinProgramIDs.system

def maxSystemInstructionBytes : ℕ := 128

inductive Instruction where
  | createAccount (lamports space : ℕ) (owner : PublicKey)
  | assign (owner : PublicKey)
  | transfer (lamports : ℕ)
  | allocate (space : ℕ)
deriving DecidableEq

/-! ### The instruction format -/

def validateAccountSpace (space : ℕ) : Except String Unit :=
  failIf (maxAccountDataSize < space)
    s!"structure: account data too large: space {space} exceeds {maxAccountDataSize}"

def Instruction.validate : Instruction → Except String Unit
  | .createAccount _ space _ => validateAccountSpace space
  | .assign _ | .transfer _ => pure ()
  | .allocate space => validateAccountSpace space

def readCreateAccountInstruction : Reader Instruction := do
  let lamports ← readField 8 "structure: decode create account lamports"
  let space ← readField 8 "structure: decode create account space"
  let owner ← readKey maxSystemInstructionBytes "structure: decode create account owner"
  pure (.createAccount lamports space owner)

def readAssignInstruction : Reader Instruction := do
  let owner ← readKey maxSystemInstructionBytes "structure: decode assign owner"
  pure (.assign owner)

def readTransferInstruction : Reader Instruction := do
  let lamports ← readField 8 "structure: decode transfer lamports"
  pure (.transfer lamports)

def readAllocateInstruction : Reader Instruction := do
  let space ← readField 8 "structure: decode allocate space"
  pure (.allocate space)

/-- The fields of an instruction of the given type; they are checked before the end of the
input is. -/
def readSystemInstructionBody : ℕ → Reader Instruction
  | 0 => do
    let instruction ← readCreateAccountInstruction
    check instruction.validate
    pure instruction
  | 1 => readAssignInstruction
  | 2 => readTransferInstruction
  | 3 => do
    let instruction ← readAllocateInstruction
    check instruction.validate
    pure instruction
  | code => fun _ => .error s!"structure: invalid system instruction: unsupported type {code}"

def readSystemInstruction : Reader Instruction := do
  let instructionType ← readField 4 "structure: decode system instruction type"
  readSystemInstructionBody instructionType

def unmarshalSystemInstructionBinary (data : Bytes) : Except String Instruction :=
  readAll readSystemInstruction "structure: decode system instruction eof" data

/-! ### Execution -/

/-- `requireSystemOwnedAccount`; the program of the instruction is the system program. -/
def requireSystemOwnedAccount (accounts : AccountMap) (address : PublicKey) :
    Except String Unit :=
  let account := accountOrZero accounts address
  failIf (account.owner ≠ programID ∨ account.executable = true)
    ("structure: invalid system instruction: " ++
      "system instruction requires a non-executable system-owned account")

def executeSystemTransfer (lamports : ℕ) (context : InstructionContext) (accounts : AccountMap) :
    Except String AccountMap := do
  failIf (context.instruction.accountIndexes.length < 2)
    "structure: invalid system instruction: transfer requires source and destination"
  let sourceAddress ← context.accountAddressAt 0
  let destinationAddress ← context.accountAddressAt 1
  failIf (context.isSignerContextAddress sourceAddress = false)
    "structure: missing required signature: transfer source must sign"
  requireSystemOwnedAccount accounts sourceAddress
  failIf ((accountOrZero accounts sourceAddress).data ≠ [])
    "structure: invalid system instruction: transfer source must not contain data"
  transferLamports sourceAddress destinationAddress lamports accounts context.rentConfig

/-- The account that is created: its data is zero throughout. -/
def createdAccount (account : Account) (space : ℕ) (owner : PublicKey) : Account :=
  { account with owner := owner, data := List.replicate space 0 }

def executeSystemCreateAccount (lamports space : ℕ) (owner : PublicKey)
    (context : InstructionContext) (accounts : AccountMap) : Except String AccountMap := do
  failIf (context.instruction.accountIndexes.length < 2)
    "structure: invalid system instruction: create account requires payer and new account"
  let payerAddress ← context.accountAddressAt 0
  let newAccountAddress ← context.accountAddressAt 1
  failIf (context.isSignerContextAddress payerAddress = false ∨
      context.isSignerContextAddress newAccountAddress = false)
    ("structure: missing required signature: " ++
      "create account requires payer and new account signatures")
  failIf (payerAddress = newAccountAddress)
    "structure: invalid system instruction: payer cannot be the new account"
  requireSystemOwnedAccount accounts payerAddress
  failIf ((accountOrZero accounts payerAddress).data ≠ [])
    "structure: invalid system instruction: payer must not contain data"
  requireSystemOwnedAccount accounts newAccountAddress
  failIf ((accountOrZero accounts newAccountAddress).data ≠ [])
    "structure: invalid system instruction: account already initialized"
  let funded ← transferLamports payerAddress newAccountAddress lamports accounts context.rentConfig
  let newAccount := createdAccount (accountOrZero funded newAccountAddress) space owner
  newAccount.validateWithRent context.rentConfig
  pure (funded.insert newAccountAddress newAccount)

/-- The account that an assignment or an allocation is about. -/
def loadTarget (missing unsigned : String) (context : InstructionContext)
    (accounts : AccountMap) : Except String PublicKey := do
  failIf (context.instruction.accountIndexes.length < 1)
    ("structure: invalid system instruction: " ++ missing)
  let targetAddress ← context.accountAddressAt 0
  failIf (context.isSignerContextAddress targetAddress = false)
    ("structure: missing required signature: " ++ unsigned)
  requireSystemOwnedAccount accounts targetAddress
  pure targetAddress

def executeSystemAssign (owner : PublicKey) (context : InstructionContext)
    (accounts : AccountMap) : Except String AccountMap := do
  let targetAddress ← loadTarget "assign requires target account" "assign target must sign"
    context accounts
  let account := accountOrZero accounts targetAddress
  pure (accounts.insert targetAddress { account with owner := owner })

def executeSystemAllocate (space : ℕ) (context : InstructionContext) (accounts : AccountMap) :
    Except String AccountMap := do
  let targetAddress ← loadTarget "allocate requires target account" "allocate target must sign"
    context accounts
  let resized ← (accountOrZero accounts targetAddress).resizeData space context.rentConfig
  pure (accounts.insert targetAddress resized)

def executeSystemInstruction (instruction : Instruction) (context : InstructionContext)
    (accounts : AccountMap) : Except String AccountMap :=
  match instruction with
  | .transfer lamports => executeSystemTransfer lamports context accounts
  | .createAccount lamports space owner =>
    executeSystemCreateAccount lamports space owner context accounts
  | .assign owner => executeSystemAssign owner context accounts
  | .allocate space => executeSystemAllocate space context accounts

def execute (context : InstructionContext) (accounts : AccountMap) : Except String AccountMap := do
  let instruction ← unmarshalSystemInstructionBinary context.instruction.data
  executeSystemInstruction instruction context accounts

/-! ### What an instruction does -/

section

variable {context : InstructionContext} {accounts next : AccountMap} {address : PublicKey}
  {lamports space : ℕ} {owner : PublicKey}

/-- An account the system program may change. -/
def SystemOwned (accounts : AccountMap) (address : PublicKey) : Prop :=
  (accountOrZero accounts address).owner = programID ∧
    (accountOrZero accounts address).executable = false

theorem requireSystemOwnedAccount_eq_ok
    (h : requireSystemOwnedAccount accounts address = .ok ()) : SystemOwned accounts address := by
  simp only [requireSystemOwnedAccount, failIf_eq_ok, not_or, ne_eq, not_not, Bool.not_eq_true] at h
  exact h

theorem executeSystemTransfer_eq_ok
    (h : executeSystemTransfer lamports context accounts = .ok next) :
    ∃ source destination, context.accountAddressAt 0 = .ok source ∧
      context.accountAddressAt 1 = .ok destination ∧
      context.isSignerContextAddress source = true ∧ SystemOwned accounts source ∧
      (accountOrZero accounts source).data = [] ∧
      transferLamports source destination lamports accounts context.rentConfig = .ok next := by
  simp only [executeSystemTransfer, eq_ok, ne_eq, not_not, Bool.not_eq_false] at h
  obtain ⟨-, source, hsource, destination, hdestination, hsigned, howned, hempty, htransfer⟩ := h
  exact ⟨source, destination, hsource, hdestination, hsigned,
    requireSystemOwnedAccount_eq_ok howned, hempty, htransfer⟩

theorem executeSystemCreateAccount_eq_ok
    (h : executeSystemCreateAccount lamports space owner context accounts = .ok next) :
    ∃ payer created funded, context.accountAddressAt 0 = .ok payer ∧
      context.accountAddressAt 1 = .ok created ∧
      context.isSignerContextAddress payer = true ∧
      context.isSignerContextAddress created = true ∧ payer ≠ created ∧
      SystemOwned accounts payer ∧ SystemOwned accounts created ∧
      (accountOrZero accounts payer).data = [] ∧ (accountOrZero accounts created).data = [] ∧
      transferLamports payer created lamports accounts context.rentConfig = .ok funded ∧
      next = funded.insert created (createdAccount (accountOrZero funded created) space owner) := by
  simp only [executeSystemCreateAccount, eq_ok, ne_eq, not_not, not_or, Bool.not_eq_false] at h
  obtain ⟨-, payer, hpayer, created, hcreated, ⟨hsigned, hcreatedSigned⟩, hne, howned, hempty,
    hcreatedOwned, hcreatedEmpty, funded, hfunded, -, rfl⟩ := h
  exact ⟨payer, created, funded, hpayer, hcreated, hsigned, hcreatedSigned, hne,
    requireSystemOwnedAccount_eq_ok howned, requireSystemOwnedAccount_eq_ok hcreatedOwned, hempty,
    hcreatedEmpty, hfunded, rfl⟩

theorem loadTarget_eq_ok {missing unsigned : String}
    (h : loadTarget missing unsigned context accounts = .ok address) :
    context.accountAddressAt 0 = .ok address ∧ context.isSignerContextAddress address = true ∧
      SystemOwned accounts address := by
  simp only [loadTarget, eq_ok, Bool.not_eq_false] at h
  obtain ⟨-, target, htarget, hsigned, howned, rfl⟩ := h
  exact ⟨htarget, hsigned, requireSystemOwnedAccount_eq_ok howned⟩

theorem executeSystemAssign_eq_ok (h : executeSystemAssign owner context accounts = .ok next) :
    ∃ target, context.accountAddressAt 0 = .ok target ∧
      context.isSignerContextAddress target = true ∧ SystemOwned accounts target ∧
      next = accounts.insert target { accountOrZero accounts target with owner := owner } := by
  simp only [executeSystemAssign, eq_ok] at h
  obtain ⟨target, htarget, rfl⟩ := h
  obtain ⟨haddress, hsigned, howned⟩ := loadTarget_eq_ok htarget
  exact ⟨target, haddress, hsigned, howned, rfl⟩

theorem executeSystemAllocate_eq_ok (h : executeSystemAllocate space context accounts = .ok next) :
    ∃ target data, context.accountAddressAt 0 = .ok target ∧
      context.isSignerContextAddress target = true ∧ SystemOwned accounts target ∧
      next = accounts.insert target { accountOrZero accounts target with data := data } := by
  simp only [executeSystemAllocate, eq_ok] at h
  obtain ⟨target, htarget, resized, hresized, rfl⟩ := h
  obtain ⟨haddress, hsigned, howned⟩ := loadTarget_eq_ok htarget
  obtain ⟨data, rfl⟩ := Account.resizeData_eq_ok hresized
  exact ⟨target, data, haddress, hsigned, howned, rfl⟩

end

end Ordexus.System
