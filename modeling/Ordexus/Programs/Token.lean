import Ordexus.Runtime.Context

/-!
# The token program

Mints and token accounts (`programs/token/program.go`). The state of either kind is the
data of an account that the program owns; an instruction reads the states it needs, and
writes the changed ones back one after the other.
-/

namespace Ordexus.Token

open Checked Borsh

def maxTokenStateBytes : ℕ := 256
def tokenStateVersion : ℕ := 1

def programID : PublicKey := defaultBuiltinProgramIDs.token

inductive InstructionType where
  | initializeMint
  | initializeAccount
  | mintTo
  | transfer
  | unknown (code : ℕ)
deriving DecidableEq

def InstructionType.ofCode : ℕ → InstructionType
  | 0 => .initializeMint
  | 1 => .initializeAccount
  | 2 => .mintTo
  | 3 => .transfer
  | code => .unknown code

structure Instruction where
  type : InstructionType
  decimals : ℕ
  amount : ℕ
deriving DecidableEq

structure MintState where
  version : ℕ
  decimals : ℕ
  mintAuthority : PublicKey
  supply : ℕ
deriving DecidableEq

structure AccountState where
  version : ℕ
  mint : PublicKey
  owner : PublicKey
  amount : ℕ
deriving DecidableEq

/-! ### Formats -/

def Instruction.validate (instruction : Instruction) : Except String Unit :=
  match instruction.type with
  | .initializeMint | .initializeAccount => pure ()
  | .mintTo | .transfer => failIf (instruction.amount = 0) "token: amount is zero"
  | .unknown code => .error s!"token: invalid instruction type {code}"

def readInstruction : Reader Instruction := do
  let instructionType ← readField 4 "token: decode instruction type"
  let decimals ← readField 1 "token: decode decimals"
  let amount ← readField 8 "token: decode amount"
  pure { type := .ofCode instructionType, decimals, amount }

def unmarshalInstructionBinary (data : Bytes) : Except String Instruction := do
  let instruction ← readAll readInstruction "token: decode instruction eof" data
  instruction.validate
  pure instruction

/-- The first byte of a state. -/
def accountKindMint : ℕ := 1
def accountKindTokenAccount : ℕ := 2

def MintState.marshalBinary (state : MintState) : Bytes :=
  littleEndian 1 accountKindMint ++ (littleEndian 1 state.version ++
    (littleEndian 1 state.decimals ++ (bigEndian 32 state.mintAuthority ++
      littleEndian 8 state.supply)))

def AccountState.marshalBinary (state : AccountState) : Bytes :=
  littleEndian 1 accountKindTokenAccount ++ (littleEndian 1 state.version ++
    (bigEndian 32 state.mint ++ (bigEndian 32 state.owner ++ littleEndian 8 state.amount)))

def readStatePrefix : Reader (ℕ × ℕ) := do
  let kind ← readField 1 "token: decode account kind"
  let version ← readField 1 "token: decode account version"
  require (version ≠ tokenStateVersion) s!"token: unsupported state version {version}"
  pure (kind, version)

def readMint : Reader MintState := do
  let (kind, version) ← readStatePrefix
  require (kind ≠ accountKindMint) "token: account is not mint"
  let decimals ← readField 1 "token: decode mint decimals"
  let mintAuthority ← readKey maxTokenStateBytes "token: decode mint authority"
  let supply ← readField 8 "token: decode mint supply"
  pure { version, decimals, mintAuthority, supply }

def readAccount : Reader AccountState := do
  let (kind, version) ← readStatePrefix
  require (kind ≠ accountKindTokenAccount) "token: account is not token account"
  let mint ← readKey maxTokenStateBytes "token: decode account mint"
  let owner ← readKey maxTokenStateBytes "token: decode account owner"
  let amount ← readField 8 "token: decode account amount"
  pure { version, mint, owner, amount }

def unmarshalMintStateBinary (data : Bytes) : Except String MintState :=
  readAll readMint "token: decode mint eof" data

def unmarshalAccountStateBinary (data : Bytes) : Except String AccountState :=
  readAll readAccount "token: decode account eof" data

/-! ### Execution -/

section

variable (accounts : AccountMap) (address : PublicKey)

def tokenOwnedAccount : Except String Account := do
  let account ← orFail (accounts.lookup address)
    ("structure: invalid loaded transaction: token account " ++ Hash.string address ++
      " not found")
  failIf (account.owner ≠ programID) "structure: invalid instruction: token account owner mismatch"
  failIf (account.executable = true)
    "structure: invalid instruction: token account cannot be executable"
  pure account

def readMintState : Except String MintState := do
  let account ← tokenOwnedAccount accounts address
  unmarshalMintStateBinary account.data

def readAccountState : Except String AccountState := do
  let account ← tokenOwnedAccount accounts address
  unmarshalAccountStateBinary account.data

end

/-- Some place at which the instruction names the account is writable. -/
def requireWritable (context : InstructionContext) (address : PublicKey) : Except String Unit :=
  failIf (¬∃ accountIndex ∈ context.instruction.accountIndexes,
      context.message.accountKeys[accountIndex]? = some address ∧
        isWritableMessageAccount accountIndex context.message = true)
    "structure: invalid instruction: token account must be writable"

def writeAccountData (context : InstructionContext) (accounts : AccountMap) (address : PublicKey)
    (account : Account) (data : Bytes) : Except String AccountMap := do
  let next := { account with data := data }
  withContext "token: validate account write" (next.validateWithRent context.rentConfig)
  pure (accounts.insert address next)

def MintState.initial (decimals : ℕ) (mintAuthority : PublicKey) : MintState where
  version := tokenStateVersion
  decimals := decimals
  mintAuthority := mintAuthority
  supply := 0

def AccountState.initial (mint owner : PublicKey) : AccountState where
  version := tokenStateVersion
  mint := mint
  owner := owner
  amount := 0

def MintState.withSupply (state : MintState) (supply : ℕ) : MintState :=
  { state with supply := supply }

def AccountState.withAmount (state : AccountState) (amount : ℕ) : AccountState :=
  { state with amount := amount }

section

variable (instruction : Instruction) (context : InstructionContext) (accounts : AccountMap)

def executeInitializeMint : Except String AccountMap := do
  failIf (context.instruction.accountIndexes.length < 2)
    "token: initialize mint requires mint and authority"
  let mintAddress ← context.accountAddressAt 0
  let authorityAddress ← context.accountAddressAt 1
  requireWritable context mintAddress
  failIf (context.isSignerContextAddress authorityAddress = false)
    "structure: missing required signature: mint authority must sign"
  let mintAccount ← tokenOwnedAccount accounts mintAddress
  failIf (mintAccount.data ≠ []) "token: mint account is already initialized"
  writeAccountData context accounts mintAddress mintAccount
    (MintState.initial instruction.decimals authorityAddress).marshalBinary

def executeInitializeAccount (context : InstructionContext) (accounts : AccountMap) :
    Except String AccountMap := do
  failIf (context.instruction.accountIndexes.length < 3)
    "token: initialize account requires account, mint and owner"
  let accountAddress ← context.accountAddressAt 0
  let mintAddress ← context.accountAddressAt 1
  let ownerAddress ← context.accountAddressAt 2
  requireWritable context accountAddress
  let _ ← readMintState accounts mintAddress
  let tokenAccount ← tokenOwnedAccount accounts accountAddress
  failIf (tokenAccount.data ≠ []) "token: token account is already initialized"
  writeAccountData context accounts accountAddress tokenAccount
    (AccountState.initial mintAddress ownerAddress).marshalBinary

def executeMintTo : Except String AccountMap := do
  failIf (context.instruction.accountIndexes.length < 3)
    "token: mint_to requires mint, destination and authority"
  let mintAddress ← context.accountAddressAt 0
  let destinationAddress ← context.accountAddressAt 1
  let authorityAddress ← context.accountAddressAt 2
  requireWritable context mintAddress
  requireWritable context destinationAddress
  failIf (context.isSignerContextAddress authorityAddress = false)
    "structure: missing required signature: mint authority must sign"
  let mintState ← readMintState accounts mintAddress
  failIf (mintState.mintAuthority ≠ authorityAddress) "token: mint authority mismatch"
  let destinationState ← readAccountState accounts destinationAddress
  failIf (destinationState.mint ≠ mintAddress) "token: destination mint mismatch"
  failIf (maxUint64 - mintState.supply < instruction.amount ∨
      maxUint64 - destinationState.amount < instruction.amount) "token: amount overflow"
  let nextMint := mintState.withSupply (mintState.supply + instruction.amount)
  let nextDestination :=
    destinationState.withAmount (destinationState.amount + instruction.amount)
  let minted ← writeAccountData context accounts mintAddress (accountOrZero accounts mintAddress)
    nextMint.marshalBinary
  writeAccountData context minted destinationAddress (accountOrZero minted destinationAddress)
    nextDestination.marshalBinary

def executeTransfer : Except String AccountMap := do
  failIf (context.instruction.accountIndexes.length < 3)
    "token: transfer requires source, destination and owner"
  let sourceAddress ← context.accountAddressAt 0
  let destinationAddress ← context.accountAddressAt 1
  let ownerAddress ← context.accountAddressAt 2
  requireWritable context sourceAddress
  requireWritable context destinationAddress
  failIf (context.isSignerContextAddress ownerAddress = false)
    "structure: missing required signature: token owner must sign"
  let sourceState ← readAccountState accounts sourceAddress
  failIf (sourceState.owner ≠ ownerAddress) "token: source owner mismatch"
  let destinationState ← readAccountState accounts destinationAddress
  failIf (sourceState.mint ≠ destinationState.mint) "token: mint mismatch"
  failIf (sourceState.amount < instruction.amount) "token: insufficient token balance"
  failIf (maxUint64 - destinationState.amount < instruction.amount) "token: amount overflow"
  let nextSource := sourceState.withAmount (sourceState.amount - instruction.amount)
  let nextDestination :=
    destinationState.withAmount (destinationState.amount + instruction.amount)
  let debited ← writeAccountData context accounts sourceAddress
    (accountOrZero accounts sourceAddress) nextSource.marshalBinary
  writeAccountData context debited destinationAddress (accountOrZero debited destinationAddress)
    nextDestination.marshalBinary

def executeInstruction : Except String AccountMap :=
  match instruction.type with
  | .initializeMint => executeInitializeMint instruction context accounts
  | .initializeAccount => executeInitializeAccount context accounts
  | .mintTo => executeMintTo instruction context accounts
  | .transfer => executeTransfer instruction context accounts
  | .unknown code => .error s!"token: unsupported instruction type {code}"

end

def execute (context : InstructionContext) (accounts : AccountMap) : Except String AccountMap := do
  let instruction ← unmarshalInstructionBinary context.instruction.data
  executeInstruction instruction context accounts

/-! ### What an instruction writes -/

/-- The program may write the account: it owns it, and it is no program. -/
def Owned (account : Account) : Prop :=
  account.owner = programID ∧ account.executable = false

instance (account : Account) : Decidable (Owned account) :=
  inferInstanceAs (Decidable (_ ∧ _))

/-- The mint an account holds, if it holds one. -/
def mintStateOf (account : Account) : Option MintState :=
  if Owned account then
    (unmarshalMintStateBinary account.data).toOption
  else none

/-- The token account an account holds, if it holds one. -/
def accountStateOf (account : Account) : Option AccountState :=
  if Owned account then
    (unmarshalAccountStateBinary account.data).toOption
  else none

section

variable {context : InstructionContext} {instruction : Instruction} {accounts next : AccountMap}
  {address : PublicKey} {account : Account} {data : Bytes}

theorem tokenOwnedAccount_eq_ok :
    tokenOwnedAccount accounts address = .ok account ↔
      accounts.lookup address = some account ∧ Owned account := by
  simp only [tokenOwnedAccount, eq_ok, ne_eq, Decidable.not_not, Bool.not_eq_true]
  constructor
  · rintro ⟨_, hlookup, howner, hplain, rfl⟩
    exact ⟨hlookup, howner, hplain⟩
  · rintro ⟨hlookup, howner, hplain⟩
    exact ⟨account, hlookup, howner, hplain, rfl⟩

theorem readState_eq_ok {σ : Type} {decode : Bytes → Except String σ} {state : σ} :
    (tokenOwnedAccount accounts address >>= fun account => decode account.data) = .ok state ↔
      ∃ account, accounts.lookup address = some account ∧
        (if Owned account then (decode account.data).toOption else none) = some state := by
  simp only [eq_ok, tokenOwnedAccount_eq_ok]
  constructor
  · rintro ⟨account, ⟨hlookup, howned⟩, hread⟩
    exact ⟨account, hlookup, by rw [if_pos howned, hread]; rfl⟩
  · rintro ⟨account, hlookup, hstate⟩
    by_cases howned : Owned account
    · rw [if_pos howned] at hstate
      exact ⟨account, ⟨hlookup, howned⟩, toOption_eq_some.mp hstate⟩
    · simp [howned] at hstate

theorem readMintState_eq_ok {state : MintState} :
    readMintState accounts address = .ok state ↔
      ∃ account, accounts.lookup address = some account ∧ mintStateOf account = some state :=
  readState_eq_ok

theorem readAccountState_eq_ok {state : AccountState} :
    readAccountState accounts address = .ok state ↔
      ∃ account, accounts.lookup address = some account ∧ accountStateOf account = some state :=
  readState_eq_ok

theorem writeAccountData_eq_ok
    (h : writeAccountData context accounts address account data = .ok next) :
    next = accounts.insert address { account with data := data } := by
  simp only [writeAccountData, eq_ok] at h
  obtain ⟨-, rfl⟩ := h
  rfl

theorem executeInitializeMint_eq_ok
    (h : executeInitializeMint instruction context accounts = .ok next) :
    ∃ mintAddress authorityAddress account, context.accountAddressAt 0 = .ok mintAddress ∧
      context.accountAddressAt 1 = .ok authorityAddress ∧
      accounts.lookup mintAddress = some account ∧ Owned account ∧ account.data = [] ∧
      next = accounts.insert mintAddress { account with
        data := (MintState.initial instruction.decimals authorityAddress).marshalBinary } := by
  simp only [executeInitializeMint, eq_ok, not_not, ne_eq] at h
  obtain ⟨-, mintAddress, hmint, authorityAddress, hauthority, -, -, account, howned, hempty,
    hwrite⟩ := h
  obtain ⟨hlookup, howned⟩ := tokenOwnedAccount_eq_ok.mp howned
  exact ⟨mintAddress, authorityAddress, account, hmint, hauthority, hlookup, howned, hempty,
    writeAccountData_eq_ok hwrite⟩

/-- An empty account becomes an empty token account of a mint that exists. -/
theorem executeInitializeAccount_eq_ok (h : executeInitializeAccount context accounts = .ok next) :
    ∃ accountAddress mintAddress ownerAddress mintState account,
      context.accountAddressAt 0 = .ok accountAddress ∧
      context.accountAddressAt 1 = .ok mintAddress ∧
      context.accountAddressAt 2 = .ok ownerAddress ∧
      readMintState accounts mintAddress = .ok mintState ∧
      accounts.lookup accountAddress = some account ∧ Owned account ∧ account.data = [] ∧
      next = accounts.insert accountAddress { account with
        data := (AccountState.initial mintAddress ownerAddress).marshalBinary } := by
  simp only [executeInitializeAccount, eq_ok, not_not, ne_eq] at h
  obtain ⟨-, accountAddress, haccount, mintAddress, hmint, ownerAddress, howner, -, mintState,
    hstate, account, howned, hempty, hwrite⟩ := h
  obtain ⟨hlookup, howned⟩ := tokenOwnedAccount_eq_ok.mp howned
  exact ⟨accountAddress, mintAddress, ownerAddress, mintState, account, haccount, hmint, howner,
    hstate, hlookup, howned, hempty, writeAccountData_eq_ok hwrite⟩

/-- The supply of a mint and the balance of one of its token accounts grow together. -/
theorem executeMintTo_eq_ok (h : executeMintTo instruction context accounts = .ok next) :
    ∃ mintAddress destinationAddress mintState destinationState,
      readMintState accounts mintAddress = .ok mintState ∧
      readAccountState accounts destinationAddress = .ok destinationState ∧
      destinationState.mint = mintAddress ∧
      instruction.amount ≤ maxUint64 - mintState.supply ∧
      instruction.amount ≤ maxUint64 - destinationState.amount ∧
      ∃ minted, minted = accounts.insert mintAddress { accountOrZero accounts mintAddress with
          data := (mintState.withSupply
            (mintState.supply + instruction.amount)).marshalBinary } ∧
        next = minted.insert destinationAddress { accountOrZero minted destinationAddress with
          data := (destinationState.withAmount
            (destinationState.amount + instruction.amount)).marshalBinary } := by
  simp only [executeMintTo, eq_ok, not_or, not_lt, not_not, ne_eq] at h
  obtain ⟨-, mintAddress, -, destinationAddress, -, _, -, -, -, -, mintState, hmint, -,
    destinationState, hdestination, hsame, hfits, minted, hminted, hwrite⟩ := h
  obtain rfl := writeAccountData_eq_ok hminted
  exact ⟨mintAddress, destinationAddress, mintState, destinationState, hmint, hdestination, hsame,
    hfits.1, hfits.2, _, rfl, writeAccountData_eq_ok hwrite⟩

/-- An amount leaves one token account and arrives at another one of the same mint; both
are read before the first is written. -/
theorem executeTransfer_eq_ok (h : executeTransfer instruction context accounts = .ok next) :
    ∃ sourceAddress destinationAddress sourceState destinationState,
      context.accountAddressAt 0 = .ok sourceAddress ∧
      context.accountAddressAt 1 = .ok destinationAddress ∧
      readAccountState accounts sourceAddress = .ok sourceState ∧
      readAccountState accounts destinationAddress = .ok destinationState ∧
      sourceState.mint = destinationState.mint ∧
      instruction.amount ≤ sourceState.amount ∧
      instruction.amount ≤ maxUint64 - destinationState.amount ∧
      ∃ debited, debited = accounts.insert sourceAddress { accountOrZero accounts sourceAddress with
          data := (sourceState.withAmount
            (sourceState.amount - instruction.amount)).marshalBinary } ∧
        next = debited.insert destinationAddress { accountOrZero debited destinationAddress with
          data := (destinationState.withAmount
            (destinationState.amount + instruction.amount)).marshalBinary } := by
  simp only [executeTransfer, eq_ok, not_lt, not_not, ne_eq] at h
  obtain ⟨-, sourceAddress, hsourceAt, destinationAddress, hdestinationAt, _, -, -, -, -,
    sourceState, hsource, -, destinationState, hdestination, hsame, henough, hfits, debited,
    hdebited, hwrite⟩ := h
  obtain rfl := writeAccountData_eq_ok hdebited
  exact ⟨sourceAddress, destinationAddress, sourceState, destinationState, hsourceAt,
    hdestinationAt, hsource, hdestination, hsame, henough, hfits, _, rfl,
    writeAccountData_eq_ok hwrite⟩

end

end Ordexus.Token
