import Ordexus.Programs.StakeCodec
import Ordexus.Runtime.Context

/-!
# The stake program

The instructions on validator accounts (`programs/stake/program.go`). An instruction names
a party that signs, the staker or a delegator, and the validator account. Each one is cut
into the part that moves lamports and the part that changes the validator state.
-/

namespace Ordexus.Stake

open Checked Borsh

def programID : PublicKey := defaultBuiltinProgramIDs.stake

inductive InstructionType where
  | registerValidator
  | stake
  | unstake
  | withdrawUnstaked
  | exitValidator
  | slashValidator
  | jailValidator
  | delegate
  | undelegate
  | withdrawDelegation
  | updateCommission
  | unknown (code : ℕ)
deriving DecidableEq

def InstructionType.ofCode : ℕ → InstructionType
  | 0 => .registerValidator
  | 1 => .stake
  | 2 => .unstake
  | 3 => .withdrawUnstaked
  | 4 => .exitValidator
  | 5 => .slashValidator
  | 6 => .jailValidator
  | 7 => .delegate
  | 8 => .undelegate
  | 9 => .withdrawDelegation
  | 10 => .updateCommission
  | code => .unknown code

structure Instruction where
  type : InstructionType
  consensusPublicKey : PublicKey
  blsPublicKey : Bytes
  p2pPeerID : Bytes
  commissionBps : ℕ
  amount : ℕ
  unlockEpoch : ℕ
deriving DecidableEq

/-! ### The instruction format -/

def validateStakeAmount (amount : ℕ) : Except String Unit :=
  failIf (amount < minimumStakeLamports) "stake: amount below minimum stake"

def validateRegisterInstruction (instruction : Instruction) : Except String Unit := do
  failIf (instruction.consensusPublicKey = 0) "stake: consensus public key is empty"
  failIf (instruction.p2pPeerID = []) "stake: p2p peer id is empty"
  validateStakeAmount instruction.amount

def Instruction.validate (instruction : Instruction) : Except String Unit := do
  failIf (maxPeerIDLength < instruction.p2pPeerID.length) "stake: p2p peer id too long"
  failIf (maxBLSPublicKeyBytes < instruction.blsPublicKey.length) "stake: bls public key too long"
  failIf (10000 < instruction.commissionBps) "stake: commission exceeds 10000 bps"
  match instruction.type with
  | .registerValidator => validateRegisterInstruction instruction
  | .stake | .unstake | .delegate | .undelegate => validateStakeAmount instruction.amount
  | .slashValidator => failIf (instruction.amount = 0) "stake: slash amount is zero"
  | .withdrawUnstaked | .exitValidator | .jailValidator | .withdrawDelegation
  | .updateCommission => pure ()
  | .unknown code => .error s!"stake: invalid instruction type {code}"

/-- Instructions written before the BLS key was added end early. -/
def readInstruction : Reader Instruction := do
  let instructionType ← readField 4 "stake: decode instruction type"
  let consensusPublicKey ← readKey maxStakeStateBytes "stake: decode consensus public key"
  let p2pPeerID ← (readString maxStakeStateBytes).withContext "stake: decode p2p peer id"
  let commissionBps ← readField 2 "stake: decode commission"
  let amount ← readField 8 "stake: decode amount"
  let unlockEpoch ← readField 8 "stake: decode unlock epoch"
  let blsPublicKey ← unlessEnd []
    ((readBytes maxStakeStateBytes).withContext "stake: decode bls public key")
  pure { type := .ofCode instructionType, consensusPublicKey, blsPublicKey, p2pPeerID
         commissionBps, amount, unlockEpoch }

def unmarshalInstructionBinary (data : Bytes) : Except String Instruction := do
  let instruction ← readAll readInstruction "stake: decode instruction eof" data
  instruction.validate
  pure instruction

/-! ### Changes of the validator state -/

/-- The next epoch as a 64-bit number. -/
def nextEpoch (epoch : ℕ) : ℕ := wrapUint64 (epoch + 1)

/-- The first delegation of a delegator. -/
def findDelegation (delegations : List DelegationState) (delegator : PublicKey) :
    Option DelegationState :=
  delegations.find? fun delegation => delegation.delegatorAccount = delegator

/-- Overwrite the first delegation of the same delegator. -/
def replaceDelegation (delegations : List DelegationState) (next : DelegationState) :
    List DelegationState :=
  match delegations with
  | [] => []
  | delegation :: delegations =>
    if delegation.delegatorAccount = next.delegatorAccount then next :: delegations
    else delegation :: replaceDelegation delegations next

def DelegationState.empty (delegator : PublicKey) : DelegationState where
  delegatorAccount := delegator
  activeStake := 0
  pendingStake := 0
  unlockingStake := 0
  unlockEpoch := 0
  activationEpoch := 0
  deactivationEpoch := 0
  rewardLamports := 0

/-- The state of a validator that has just registered. -/
def registeredState (instruction : Instruction) (staker : PublicKey) (epoch : ℕ) :
    ValidatorState :=
  { ValidatorState.zero with
    consensusPublicKey := instruction.consensusPublicKey
    blsPublicKey := instruction.blsPublicKey
    stakerAccount := staker
    p2pPeerID := instruction.p2pPeerID
    commissionBps := instruction.commissionBps
    pendingStake := instruction.amount
    status := .active
    activationEpoch := nextEpoch epoch }

section

variable (state : ValidatorState)

def ValidatorState.addPending (amount epoch : ℕ) : ValidatorState :=
  { state with pendingStake := state.pendingStake + amount, activationEpoch := nextEpoch epoch }

/-- A delegator without a delegation gets an empty one. -/
def ensureDelegation (delegations : List DelegationState) (delegator : PublicKey) :
    Except String (List DelegationState) :=
  if (findDelegation delegations delegator).isSome then pure delegations
  else do
    failIf (maxDelegations ≤ delegations.length) "stake: too many delegations"
    pure (delegations ++ [.empty delegator])

def ValidatorState.addDelegation (delegator : PublicKey) (amount epoch : ℕ) :
    Except String ValidatorState := do
  let delegations ← ensureDelegation state.delegations delegator
  let delegation := (findDelegation delegations delegator).getD (.empty delegator)
  failIf (maxUint64 - delegation.pendingStake < amount) "stake: delegation pending stake overflow"
  let next :=
    { delegation with
      pendingStake := delegation.pendingStake + amount
      activationEpoch := nextEpoch epoch }
  let delegated := { state with delegations := replaceDelegation delegations next }
  pure (delegated.addPending amount epoch)

/-- Active stake of the validator begins to unlock. -/
def ValidatorState.beginUnstake (amount unlockEpoch epoch : ℕ) : Except String ValidatorState := do
  let selfActive ← selfActiveStake state
  failIf (selfActive < amount) "stake: unstake exceeds active stake"
  pure { state with
    activeStake := state.activeStake - amount
    unlockingStake := wrapUint64 (state.unlockingStake + amount)
    unlockEpoch := unlockEpoch
    deactivationEpoch := nextEpoch epoch }

/-- Active stake of a delegator begins to unlock. -/
def ValidatorState.beginUndelegate (delegator : PublicKey) (amount unlockEpoch epoch : ℕ) :
    Except String ValidatorState := do
  let delegation ← orFail (findDelegation state.delegations delegator)
    "stake: delegation not found"
  failIf (delegation.activeStake < amount) "stake: undelegate exceeds active delegation"
  failIf (state.activeStake < amount) "stake: undelegate exceeds validator active stake"
  let next :=
    { delegation with
      activeStake := delegation.activeStake - amount
      unlockingStake := wrapUint64 (delegation.unlockingStake + amount)
      unlockEpoch := unlockEpoch
      deactivationEpoch := nextEpoch epoch }
  pure { state with
    delegations := replaceDelegation state.delegations next
    activeStake := state.activeStake - amount
    unlockingStake := wrapUint64 (state.unlockingStake + amount)
    deactivationEpoch := nextEpoch epoch }

/-- Everything that unlocks goes to the staker. -/
def ValidatorState.takeUnstaked (unlockEpoch : ℕ) : Except String (ValidatorState × ℕ) := do
  failIf (state.unlockingStake = 0 ∨ unlockEpoch < state.unlockEpoch)
    "stake: unlocking stake is not withdrawable"
  pure ({ state with unlockingStake := 0 }, state.unlockingStake)

/-- What unlocks for a delegator goes to the delegator. -/
def ValidatorState.takeDelegation (delegator : PublicKey) (unlockEpoch : ℕ) :
    Except String (ValidatorState × ℕ) := do
  let delegation ← orFail (findDelegation state.delegations delegator)
    "stake: delegation not found"
  failIf (delegation.unlockingStake = 0 ∨ unlockEpoch < delegation.unlockEpoch)
    "stake: delegation is not withdrawable"
  let amount := delegation.unlockingStake
  failIf (state.unlockingStake < amount)
    "stake: delegation unlocking exceeds validator unlocking stake"
  let next := { delegation with unlockingStake := 0 }
  pure ({ state with
    delegations := replaceDelegation state.delegations next
    unlockingStake := state.unlockingStake - amount }, amount)

def ValidatorState.compacted : ValidatorState :=
  { state with delegations := compactDelegations state.delegations }

end

/-! ### Execution -/

/-- A validator account and the party that acts on it. -/
structure LoadedValidator where
  party : PublicKey
  address : PublicKey
  state : ValidatorState
  account : Account
deriving DecidableEq

/-- The part that `loadWritableValidator` and `loadValidatorForDelegator` share. -/
def loadValidator (missing unsigned : String) (context : InstructionContext)
    (accounts : AccountMap) : Except String LoadedValidator := do
  failIf (context.instruction.accountIndexes.length < 2) missing
  let party ← context.accountAddressAt 0
  let address ← context.accountAddressAt 1
  failIf (context.isSignerContextAddress party = false)
    ("structure: missing required signature: " ++ unsigned)
  let account ← orFail (accounts.lookup address) "stake: validator account not found"
  let state ← unmarshalValidatorStateBinary account.data
  pure { party, address, state, account }

section

variable (context : InstructionContext) (accounts : AccountMap)

def loadWritableValidator : Except String LoadedValidator := do
  let loaded ← loadValidator "stake: instruction requires staker and validator accounts"
    "staker must sign" context accounts
  failIf (loaded.state.stakerAccount ≠ loaded.party) "stake: staker mismatch"
  pure loaded

def loadValidatorForDelegator : Except String LoadedValidator :=
  loadValidator "stake: delegate requires delegator and validator accounts"
    "delegator must sign" context accounts

/-- The account changes its owner whoever owned it before. -/
def writeValidatorState (address : PublicKey) (account : Account) (state : ValidatorState) :
    Except String AccountMap := do
  let data ← state.marshalBinary
  let next ← { account with owner := programID }.setData data context.rentConfig
  pure (accounts.insert address next)

end

section

variable (instruction : Instruction) (context : InstructionContext) (accounts : AccountMap)

def executeRegisterValidator : Except String AccountMap := do
  failIf (context.instruction.accountIndexes.length < 2)
    "stake: register requires staker and validator accounts"
  let staker ← context.accountAddressAt 0
  let address ← context.accountAddressAt 1
  failIf (context.isSignerContextAddress staker = false)
    "structure: missing required signature: staker must sign"
  let funded ← transferLamports staker address instruction.amount accounts context.rentConfig
  let account := accountOrZero funded address
  failIf (account.data ≠ []) "stake: validator account already initialized"
  let state ← (registeredState instruction staker context.currentEpoch).withEffectiveStake
    context.currentEpoch
  writeValidatorState context funded address account state

def executeStake : Except String AccountMap := do
  let loaded ← loadWritableValidator context accounts
  failIf (loaded.state.status ≠ .active) "stake: validator is not active"
  let matured ← matureStakeForEpoch loaded.state context.currentEpoch
  let funded ← transferLamports loaded.party loaded.address instruction.amount accounts
    context.rentConfig
  failIf (maxUint64 - matured.pendingStake < instruction.amount) "stake: pending stake overflow"
  let state ← (matured.addPending instruction.amount context.currentEpoch).withEffectiveStake
    context.currentEpoch
  writeValidatorState context funded loaded.address (accountOrZero funded loaded.address) state

/-- The validator account is written back as it was before the transfer. -/
def executeDelegate : Except String AccountMap := do
  let loaded ← loadValidatorForDelegator context accounts
  failIf (loaded.state.status ≠ .active) "stake: validator is not active"
  let matured ← matureStakeForEpoch loaded.state context.currentEpoch
  let funded ← transferLamports loaded.party loaded.address instruction.amount accounts
    context.rentConfig
  failIf (maxUint64 - matured.pendingStake < instruction.amount) "stake: pending stake overflow"
  let delegated ← matured.addDelegation loaded.party instruction.amount context.currentEpoch
  let state ← delegated.withEffectiveStake context.currentEpoch
  writeValidatorState context funded loaded.address loaded.account state

def executeUnstake : Except String AccountMap := do
  let loaded ← loadWritableValidator context accounts
  let matured ← matureStakeForEpoch loaded.state context.currentEpoch
  let unstaked ← matured.beginUnstake instruction.amount instruction.unlockEpoch
    context.currentEpoch
  let state ← unstaked.withEffectiveStake context.currentEpoch
  writeValidatorState context accounts loaded.address loaded.account state

def executeUndelegate : Except String AccountMap := do
  let loaded ← loadValidatorForDelegator context accounts
  let matured ← matureStakeForEpoch loaded.state context.currentEpoch
  let undelegated ← matured.beginUndelegate loaded.party instruction.amount
    instruction.unlockEpoch context.currentEpoch
  let state ← undelegated.withEffectiveStake context.currentEpoch
  writeValidatorState context accounts loaded.address loaded.account state.compacted

/-- The epoch that is compared is the one the instruction brings. -/
def executeWithdrawUnstaked : Except String AccountMap := do
  let loaded ← loadWritableValidator context accounts
  let matured ← matureStakeForEpoch loaded.state context.currentEpoch
  let (state, amount) ← matured.takeUnstaked instruction.unlockEpoch
  let paid ← transferLamports loaded.address loaded.party amount accounts context.rentConfig
  writeValidatorState context paid loaded.address (accountOrZero paid loaded.address) state

def executeWithdrawDelegation : Except String AccountMap := do
  let loaded ← loadValidatorForDelegator context accounts
  let matured ← matureStakeForEpoch loaded.state context.currentEpoch
  let (state, amount) ← matured.takeDelegation loaded.party instruction.unlockEpoch
  let paid ← transferLamports loaded.address loaded.party amount accounts context.rentConfig
  writeValidatorState context paid loaded.address (accountOrZero paid loaded.address)
    state.compacted

def executeUpdateCommission : Except String AccountMap := do
  let loaded ← loadWritableValidator context accounts
  failIf (loaded.party ≠ loaded.state.stakerAccount) "stake: only staker can update commission"
  writeValidatorState context accounts loaded.address loaded.account
    { loaded.state with commissionBps := instruction.commissionBps }

def executeExitValidator (context : InstructionContext) (accounts : AccountMap) :
    Except String AccountMap := do
  let loaded ← loadWritableValidator context accounts
  let state ← { loaded.state with
    status := .exiting
    deactivationEpoch := nextEpoch context.currentEpoch }.withEffectiveStake context.currentEpoch
  writeValidatorState context accounts loaded.address loaded.account state

def executeInstruction : Except String AccountMap :=
  match instruction.type with
  | .registerValidator => executeRegisterValidator instruction context accounts
  | .stake => executeStake instruction context accounts
  | .unstake => executeUnstake instruction context accounts
  | .withdrawUnstaked => executeWithdrawUnstaked instruction context accounts
  | .exitValidator => executeExitValidator context accounts
  | .slashValidator | .jailValidator =>
    .error ("stake: validator punishment is consensus-managed and cannot be submitted " ++
      "as a transaction")
  | .delegate => executeDelegate instruction context accounts
  | .undelegate => executeUndelegate instruction context accounts
  | .withdrawDelegation => executeWithdrawDelegation instruction context accounts
  | .updateCommission => executeUpdateCommission instruction context accounts
  | .unknown code => .error s!"stake: unsupported instruction type {code}"

end

def execute (context : InstructionContext) (accounts : AccountMap) : Except String AccountMap := do
  let instruction ← unmarshalInstructionBinary context.instruction.data
  executeInstruction instruction context accounts

/-! ### What an instruction does -/

/-- A validator account after its state was written. -/
def Account.withState (account : Account) (data : Bytes) : Account :=
  { account with owner := programID, data := data }

section

variable {context : InstructionContext} {accounts next : AccountMap} {address : PublicKey}
  {account : Account} {state : ValidatorState} {loaded : LoadedValidator}

theorem writeValidatorState_eq_ok
    (h : writeValidatorState context accounts address account state = .ok next) :
    ∃ data, state.marshalBinary = .ok data ∧
      (Account.withState account data).validateWithRent context.rentConfig = .ok () ∧
      next = accounts.insert address (Account.withState account data) := by
  simp only [writeValidatorState, eq_ok] at h
  obtain ⟨data, hdata, written, hwritten, rfl⟩ := h
  simp only [Account.setData, eq_ok] at hwritten
  obtain ⟨-, -, hvalid, rfl⟩ := hwritten
  exact ⟨data, hdata, hvalid, rfl⟩

/-- The party signs, and the state is what the account holds. -/
structure Loads (context : InstructionContext) (accounts : AccountMap)
    (loaded : LoadedValidator) : Prop where
  party : context.accountAddressAt 0 = .ok loaded.party
  address : context.accountAddressAt 1 = .ok loaded.address
  signed : context.isSignerContextAddress loaded.party = true
  account : accounts.lookup loaded.address = some loaded.account
  state : unmarshalValidatorStateBinary loaded.account.data = .ok loaded.state

theorem loadValidator_eq_ok {missing unsigned : String}
    (h : loadValidator missing unsigned context accounts = .ok loaded) :
    Loads context accounts loaded := by
  simp only [loadValidator, eq_ok, Bool.not_eq_false] at h
  obtain ⟨-, party, hparty, address, haddress, hsigned, account, haccount, state, hstate, rfl⟩ := h
  exact ⟨hparty, haddress, hsigned, haccount, hstate⟩

theorem loadWritableValidator_eq_ok (h : loadWritableValidator context accounts = .ok loaded) :
    Loads context accounts loaded ∧ loaded.state.stakerAccount = loaded.party := by
  simp only [loadWritableValidator, eq_ok, not_not, ne_eq] at h
  obtain ⟨_, hload, hstaker, rfl⟩ := h
  exact ⟨loadValidator_eq_ok hload, hstaker⟩

end

end Ordexus.Stake
