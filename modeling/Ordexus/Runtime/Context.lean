import Ordexus.Library.Table
import Ordexus.Structure.Fee
import Ordexus.Structure.Message

/-!
# Instructions and the accounts they work on

What a program is given when one of its instructions runs (`runtime/program.go`), and
the operations all programs share (`runtime/account_ops.go`). The source hands a mutable
map to a program; here a program takes the map and returns the next one.
-/

namespace Ordexus

open Checked

/-- The accounts of a transaction while it is executed. -/
abbrev AccountMap := Table PublicKey Account

/-- Who pays the fee of a transaction. -/
inductive FeePaymentSource where
  | transparentAccount
  | shieldedPool
deriving DecidableEq

/-- The addresses of the programs are the default ones throughout. -/
structure InstructionContext where
  instructionIndex : ℕ
  instruction : CompiledInstruction
  message : ResolvedMessage
  currentSlot : ℕ
  currentEpoch : ℕ
  rentConfig : RentConfig
  computeBudget : ComputeBudgetLimits
  transactionFee : ℕ
  feeSource : FeePaymentSource
  /-- Accounts that a calling program signs for. -/
  signerOverrides : List PublicKey
deriving DecidableEq

namespace InstructionContext

/-- `context.Message.AccountKeys[accountIndex]`, which panics out of range. -/
def accountKey (context : InstructionContext) (accountIndex : ℕ) : Except String PublicKey :=
  orFail context.message.accountKeys[accountIndex]? "runtime error: index out of range"

/-- The place in the message of an account of the instruction. -/
def accountIndexAt (context : InstructionContext) (position : ℕ) : Except String ℕ :=
  orFail context.instruction.accountIndexes[position]? "runtime error: index out of range"

def accountAddressAt (context : InstructionContext) (position : ℕ) : Except String PublicKey := do
  let accountIndex ← context.accountIndexAt position
  context.accountKey accountIndex

def isSignerContextAddress (address : PublicKey) (context : InstructionContext) : Bool :=
  isSignerAddress address context.message || decide (address ∈ context.signerOverrides)

theorem accountAddressAt_lt {context : InstructionContext} {position : ℕ} {address : PublicKey}
    (h : context.accountAddressAt position = .ok address) : address < 256 ^ 32 := by
  obtain ⟨accountIndex, -, hkey⟩ := bind_eq_ok.mp h
  exact context.message.key_lt address (List.mem_of_getElem? (orFail_eq_ok.mp hkey))

end InstructionContext

/-- What a program does with an instruction: the compute units it reports and the
accounts it leaves. -/
abbrev ProgramHandler := InstructionContext → AccountMap → ℕ × Except String AccountMap

/-- An account nobody has written yet. -/
def Account.emptySystem : Account where
  lamports := 0
  data := []
  owner := defaultBuiltinProgramIDs.system
  executable := false
  rentEpoch := 0

/-- `context.Accounts[address]`: a missing account reads as the zero account. -/
def accountOrZero (accounts : AccountMap) (address : PublicKey) : Account :=
  (accounts.lookup address).getD .emptySystem

theorem accountOrZero_of_lookup {accounts : AccountMap} {address : PublicKey} {account : Account}
    (h : accounts.lookup address = some account) : accountOrZero accounts address = account := by
  simp [accountOrZero, h]

/-- Both accounts are taken out of the map before either of them is written back. -/
def transferLamports (sourceAddress destinationAddress : PublicKey) (lamports : ℕ)
    (accounts : AccountMap) (rentConfig : RentConfig) : Except String AccountMap := do
  let sourceAccount ← orFail (accounts.lookup sourceAddress)
    "structure: invalid loaded transaction: source account not found"
  let destinationAccount := accountOrZero accounts destinationAddress
  let nextSource ← sourceAccount.debitLamports lamports rentConfig
  let nextDestination ← destinationAccount.creditLamports lamports
  nextDestination.validateWithRent rentConfig
  pure ((accounts.insert sourceAddress nextSource).insert destinationAddress nextDestination)

theorem transferLamports_eq_ok {sourceAddress destinationAddress : PublicKey} {lamports : ℕ}
    {accounts next : AccountMap} {rentConfig : RentConfig}
    (h : transferLamports sourceAddress destinationAddress lamports accounts rentConfig =
      .ok next) :
    ∃ source, accounts.lookup sourceAddress = some source ∧ lamports ≤ source.lamports ∧
      next = (accounts.insert sourceAddress
          { source with lamports := source.lamports - lamports }).insert destinationAddress
        { accountOrZero accounts destinationAddress with
          lamports := (accountOrZero accounts destinationAddress).lamports + lamports } := by
  simp only [transferLamports, eq_ok] at h
  obtain ⟨source, hsource, nextSource, hdebit, nextDestination, hcredit, -, rfl⟩ := h
  obtain ⟨henough, rfl⟩ := Account.debitLamports_eq_ok hdebit
  obtain rfl := Account.creditLamports_eq_ok hcredit
  exact ⟨source, hsource, henough, rfl⟩

/-! ### Balances -/

def AccountMap.lamports (accounts : AccountMap) : ℕ :=
  Table.total (fun _ account => account.lamports) accounts

section

variable {accounts next : AccountMap} {address source destination : PublicKey} {lamports : ℕ}
  {rentConfig : RentConfig}

/-- Writing an account adds its balance and takes away the one it replaces. -/
theorem AccountMap.lamports_insert (accounts : AccountMap) (address : PublicKey)
    (account : Account) :
    AccountMap.lamports (accounts.insert address account) +
        (accountOrZero accounts address).lamports =
      AccountMap.lamports accounts + account.lamports := by
  have htotal := Table.total_insert (fun _ account => account.lamports) accounts address account
  have hweight : Table.weightAt (fun _ account => account.lamports) accounts address =
      (accountOrZero accounts address).lamports := by
    unfold Table.weightAt accountOrZero
    cases accounts.lookup address <;> rfl
  rwa [hweight] at htotal

theorem accountOrZero_insert (accounts : AccountMap) (address other : PublicKey)
    (account : Account) :
    accountOrZero (accounts.insert address account) other =
      if other = address then account else accountOrZero accounts other := by
  rw [accountOrZero, Table.lookup_insert]
  split <;> rfl

section

variable (h : transferLamports source destination lamports accounts rentConfig = .ok next)
include h

/-- A transfer from an account to itself creates what it moves. -/
theorem transferLamports_lamports :
    AccountMap.lamports next =
      AccountMap.lamports accounts + if source = destination then lamports else 0 := by
  obtain ⟨account, hsource, henough, rfl⟩ := transferLamports_eq_ok h
  have hzero := accountOrZero_of_lookup hsource
  have hdebit := AccountMap.lamports_insert accounts source
    { account with lamports := account.lamports - lamports }
  rw [hzero] at hdebit
  have hcredit := AccountMap.lamports_insert
    (accounts.insert source { account with lamports := account.lamports - lamports }) destination
    { accountOrZero accounts destination with
      lamports := (accountOrZero accounts destination).lamports + lamports }
  dsimp only at hdebit hcredit
  by_cases hsame : source = destination
  · subst hsame
    rw [accountOrZero_insert, if_pos rfl, hzero] at hcredit
    rw [if_pos rfl, hzero]
    dsimp only at hcredit ⊢
    omega
  · rw [accountOrZero_insert, if_neg (Ne.symm hsame)] at hcredit
    rw [if_neg hsame]
    dsimp only
    omega

theorem transferLamports_lookup (address : PublicKey) :
    next.lookup address =
      if address = destination then
        some { accountOrZero accounts destination with
          lamports := (accountOrZero accounts destination).lamports + lamports }
      else if address = source then
        some { accountOrZero accounts source with
          lamports := (accountOrZero accounts source).lamports - lamports }
      else accounts.lookup address := by
  obtain ⟨account, hsource, -, rfl⟩ := transferLamports_eq_ok h
  rw [Table.lookup_insert, Table.lookup_insert, accountOrZero_of_lookup hsource]

end

end

end Ordexus
