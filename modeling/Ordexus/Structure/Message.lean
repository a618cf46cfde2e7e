import Ordexus.Structure.Account

/-!
# Transaction messages

The part of a transaction that is signed (`structure/transaction.go`) and the form
in which it is executed (`structure/loaded_transaction.go`): a list of accounts, of
which the header says who signs and who may be written, and instructions that name
accounts by their place in the list.
-/

namespace Ordexus

open Checked

def maxSignaturesPerTransaction : ℕ := 12
def maxAccountsPerTransaction : ℕ := 64
def maxInstructionsPerTransaction : ℕ := 64
def maxInstructionAccounts : ℕ := maxAccountsPerTransaction
def maxInstructionDataSize : ℕ := 60 * 1024

structure AccountMeta where
  publicKey : PublicKey
  isSigner : Bool
  isWritable : Bool
deriving DecidableEq

structure MessageHeader where
  numRequiredSignatures : ℕ
  numReadonlySignedAccounts : ℕ
  numReadonlyUnsignedAccounts : ℕ
deriving DecidableEq

structure CompiledInstruction where
  programIDIndex : ℕ
  accountIndexes : List ℕ
  data : Bytes
deriving DecidableEq

structure MessageAddressTableLookup where
  accountKey : PublicKey
  writableIndexes : List ℕ
  readonlyIndexes : List ℕ
deriving DecidableEq

/-- The signed message. Its keys have 32 bytes. -/
structure OrdexusMessage where
  header : MessageHeader
  accountKeys : List PublicKey
  recentBlockhash : Hash
  instructions : List CompiledInstruction
  addressTableLookups : List MessageAddressTableLookup
  version : ℕ
  usesAddressTable : Bool
  key_lt : ∀ key ∈ accountKeys, key < 256 ^ 32
deriving DecidableEq

structure LoadedAddresses where
  writable : List PublicKey
  readonly : List PublicKey
deriving DecidableEq

/-- The message as it is executed: the accounts of address tables follow its own ones. -/
structure ResolvedMessage where
  header : MessageHeader
  staticAccountKeys : List PublicKey
  loadedAddresses : LoadedAddresses
  accountKeys : List PublicKey
  recentBlockhash : Hash
  instructions : List CompiledInstruction
  key_lt : ∀ key ∈ accountKeys, key < 256 ^ 32
deriving DecidableEq

/-- `StaticAccountMetas`: signers come first, and each group ends with its read-only
accounts. -/
def staticAccountMetas (header : MessageHeader) (accountKeys : List PublicKey) :
    List AccountMeta :=
  let readonlySignedStart := header.numRequiredSignatures - header.numReadonlySignedAccounts
  let readonlyUnsignedStart := accountKeys.length - header.numReadonlyUnsignedAccounts
  accountKeys.zipIdx.map fun (publicKey, accountIndex) =>
    let isSigner := decide (accountIndex < header.numRequiredSignatures)
    let isReadonlySigned := isSigner && decide (readonlySignedStart ≤ accountIndex)
    let isReadonlyUnsigned := !isSigner && decide (readonlyUnsignedStart ≤ accountIndex)
    { publicKey, isSigner, isWritable := !isReadonlySigned && !isReadonlyUnsigned }

/-! ### Checks -/

def validateMessageHeader (header : MessageHeader) (accountKeyCount : ℕ) : Except String Unit := do
  failIf (accountKeyCount < header.numRequiredSignatures)
    "structure: invalid message header: required signatures exceed account keys"
  failIf (header.numRequiredSignatures < header.numReadonlySignedAccounts)
    "structure: invalid message header: readonly signed accounts exceed signed accounts"
  failIf (accountKeyCount - header.numRequiredSignatures < header.numReadonlyUnsignedAccounts)
    "structure: invalid message header: readonly unsigned accounts exceed unsigned accounts"

def validateInstruction (instruction : CompiledInstruction) (accountCount : ℕ) :
    Except String Unit := do
  let programIDIndex := instruction.programIDIndex
  let indexCount := instruction.accountIndexes.length
  let dataSize := instruction.data.length
  failIf (accountCount ≤ programIDIndex)
    s!"structure: invalid instruction: program id index {programIDIndex} out of range"
  failIf (maxInstructionAccounts < indexCount)
    (s!"structure: invalid instruction: account index count {indexCount} exceeds " ++
      s!"{maxInstructionAccounts}")
  failIf (maxInstructionDataSize < dataSize)
    s!"structure: invalid instruction: data size {dataSize} exceeds {maxInstructionDataSize}"
  instruction.accountIndexes.forM fun accountIndex =>
    failIf (accountCount ≤ accountIndex)
      s!"structure: invalid instruction: account index {accountIndex} out of range"

def validateCompiledInstructions (instructions : List CompiledInstruction) (accountCount : ℕ) :
    Except String Unit := do
  let instructionCount := instructions.length
  failIf (instructions = []) "structure: instructions cannot be empty"
  failIf (maxInstructionsPerTransaction < instructionCount)
    (s!"structure: instruction count {instructionCount} exceeds " ++
      s!"{maxInstructionsPerTransaction}")
  instructions.zipIdx.forM fun (instruction, instructionIndex) =>
    withContext s!"structure: instruction {instructionIndex}"
      (validateInstruction instruction accountCount)

def validateAddressTableLookups (lookups : List MessageAddressTableLookup) : Except String Unit :=
  lookups.zipIdx.forM fun (lookup, lookupIndex) =>
    failIf (lookup.accountKey = 0)
      (s!"structure: invalid address table lookup: address table {lookupIndex} " ++
        "account key is empty")

namespace OrdexusMessage

def totalAccountCount (message : OrdexusMessage) : ℕ :=
  message.accountKeys.length + (message.addressTableLookups.map fun lookup =>
    lookup.writableIndexes.length + lookup.readonlyIndexes.length).sum

def validate (message : OrdexusMessage) : Except String Unit := do
  let accountCount := message.totalAccountCount
  failIf (message.usesAddressTable = true ∧ message.version ≠ 0)
    "structure: invalid message version: only v0 message is supported"
  failIf (message.usesAddressTable = false ∧ message.version ≠ 0)
    "structure: invalid message version: legacy message cannot carry a version"
  failIf (message.usesAddressTable = false ∧ message.addressTableLookups ≠ [])
    ("structure: invalid address table lookup: " ++
      "legacy message cannot contain address table lookups")
  failIf (message.accountKeys = []) "structure: account keys cannot be empty"
  failIf (maxAccountsPerTransaction < accountCount)
    s!"structure: account key count {accountCount} exceeds {maxAccountsPerTransaction}"
  failIf (message.recentBlockhash = 0) "structure: recent blockhash cannot be empty"
  validateMessageHeader message.header message.accountKeys.length
  validateCompiledInstructions message.instructions accountCount
  validateAddressTableLookups message.addressTableLookups

end OrdexusMessage

def LoadedAddresses.validate (addresses : LoadedAddresses) : Except String Unit := do
  let totalCount := addresses.writable.length + addresses.readonly.length
  failIf (maxAccountsPerTransaction < totalCount)
    (s!"structure: invalid loaded transaction: loaded address count {totalCount} exceeds " ++
      s!"{maxAccountsPerTransaction}")
  failIf (¬(addresses.writable ++ addresses.readonly).Nodup)
    "structure: invalid loaded transaction: duplicate loaded addresses"

namespace ResolvedMessage

def validate (message : ResolvedMessage) : Except String Unit := do
  let keyCount := message.accountKeys.length
  failIf (message.staticAccountKeys = []) "structure: account keys cannot be empty"
  failIf (message.accountKeys = []) "structure: account keys cannot be empty"
  failIf (maxAccountsPerTransaction < keyCount)
    (s!"structure: invalid loaded transaction: account key count {keyCount} exceeds " ++
      s!"{maxAccountsPerTransaction}")
  failIf (¬message.accountKeys.Nodup)
    "structure: invalid loaded transaction: duplicate account keys"
  failIf (message.recentBlockhash = 0) "structure: recent blockhash cannot be empty"
  validateMessageHeader message.header message.staticAccountKeys.length
  validateCompiledInstructions message.instructions message.accountKeys.length
  message.loadedAddresses.validate

/-- `NewResolvedMessage` without address tables, which the runtime refuses. -/
def ofMessage (message : OrdexusMessage) : ResolvedMessage where
  header := message.header
  staticAccountKeys := message.accountKeys
  loadedAddresses := { writable := [], readonly := [] }
  accountKeys := message.accountKeys
  recentBlockhash := message.recentBlockhash
  instructions := message.instructions
  key_lt := message.key_lt

end ResolvedMessage

def newResolvedMessage (message : OrdexusMessage) : Except String ResolvedMessage := do
  message.validate
  (ResolvedMessage.ofMessage message).validate
  pure (ResolvedMessage.ofMessage message)

/-! ### Permissions of a message -/

def isSignerAddress (address : PublicKey) (message : ResolvedMessage) : Bool :=
  address ∈ message.staticAccountKeys.take message.header.numRequiredSignatures

def isWritableMessageAccount (accountIndex : ℕ) (message : ResolvedMessage) : Bool :=
  match (staticAccountMetas message.header message.staticAccountKeys)[accountIndex]? with
  | some account => account.isWritable
  | none =>
    accountIndex - message.staticAccountKeys.length < message.loadedAddresses.writable.length

def writableAccountSet (message : ResolvedMessage) : List PublicKey :=
  (message.accountKeys.zipIdx.filter fun (_, accountIndex) =>
    isWritableMessageAccount accountIndex message).map Prod.fst

def instructionAccountSet (instruction : CompiledInstruction) (message : ResolvedMessage) :
    List PublicKey :=
  instruction.accountIndexes.filterMap fun accountIndex => message.accountKeys[accountIndex]?

end Ordexus
