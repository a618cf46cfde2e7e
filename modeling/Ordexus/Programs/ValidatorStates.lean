import Ordexus.Programs.StakeTransitions

/-!
# The validator states of an account map

Seen through the states that the accounts hold, an instruction of the stake program does
one thing: it replaces the state of one validator. `StateChange` says by what, and
`execute_eq_ok` that nothing else happens to any validator state. `Payment` says how the
lamports of the party and of the validator account move along.
-/

namespace Ordexus.Stake

open Checked Borsh

def stateAt (accounts : AccountMap) (address : PublicKey) : Option ValidatorState :=
  (accounts.lookup address).bind fun account =>
    (unmarshalValidatorStateBinary account.data).toOption

/-- What an instruction of a party turns a validator state into. -/
inductive StateChange (instruction : Instruction) (party : PublicKey) (epoch : ℕ) :
    Option ValidatorState → ValidatorState → Prop
  | registerValidator {state : ValidatorState} (htype : instruction.type = .registerValidator)
      (hstate : (registeredState instruction party epoch).withEffectiveStake epoch = .ok state) :
      StateChange instruction party epoch none state
  | stake {before matured state : ValidatorState} (htype : instruction.type = .stake)
      (hstaker : before.stakerAccount = party)
      (hmatured : matureStakeForEpoch before epoch = .ok matured)
      (hfits : instruction.amount ≤ maxUint64 - matured.pendingStake)
      (hstate : (matured.addPending instruction.amount epoch).withEffectiveStake epoch =
        .ok state) : StateChange instruction party epoch (some before) state
  | delegate {before matured delegated state : ValidatorState}
      (htype : instruction.type = .delegate)
      (hmatured : matureStakeForEpoch before epoch = .ok matured)
      (hfits : instruction.amount ≤ maxUint64 - matured.pendingStake)
      (hdelegated : matured.addDelegation party instruction.amount epoch = .ok delegated)
      (hstate : delegated.withEffectiveStake epoch = .ok state) :
      StateChange instruction party epoch (some before) state
  | unstake {before matured unstaked state : ValidatorState}
      (htype : instruction.type = .unstake) (hstaker : before.stakerAccount = party)
      (hmatured : matureStakeForEpoch before epoch = .ok matured)
      (hunstaked : matured.beginUnstake instruction.amount instruction.unlockEpoch epoch =
        .ok unstaked)
      (hstate : unstaked.withEffectiveStake epoch = .ok state) :
      StateChange instruction party epoch (some before) state
  | undelegate {before matured undelegated state : ValidatorState}
      (htype : instruction.type = .undelegate)
      (hmatured : matureStakeForEpoch before epoch = .ok matured)
      (hundelegated : matured.beginUndelegate party instruction.amount instruction.unlockEpoch
        epoch = .ok undelegated)
      (hstate : undelegated.withEffectiveStake epoch = .ok state) :
      StateChange instruction party epoch (some before) state.compacted
  | withdrawUnstaked {before matured state : ValidatorState} {amount : ℕ}
      (htype : instruction.type = .withdrawUnstaked) (hstaker : before.stakerAccount = party)
      (hmatured : matureStakeForEpoch before epoch = .ok matured)
      (htake : matured.takeUnstaked instruction.unlockEpoch = .ok (state, amount)) :
      StateChange instruction party epoch (some before) state
  | withdrawDelegation {before matured state : ValidatorState} {amount : ℕ}
      (htype : instruction.type = .withdrawDelegation)
      (hmatured : matureStakeForEpoch before epoch = .ok matured)
      (htake : matured.takeDelegation party instruction.unlockEpoch = .ok (state, amount)) :
      StateChange instruction party epoch (some before) state.compacted
  | updateCommission {before : ValidatorState} (htype : instruction.type = .updateCommission)
      (hstaker : before.stakerAccount = party) :
      StateChange instruction party epoch (some before)
        { before with commissionBps := instruction.commissionBps }
  | exitValidator {before state : ValidatorState} (htype : instruction.type = .exitValidator)
      (hstaker : before.stakerAccount = party)
      (hstate : { before with
        status := .exiting
        deactivationEpoch := nextEpoch epoch }.withEffectiveStake epoch = .ok state) :
      StateChange instruction party epoch (some before) state

section

variable {instruction : Instruction} {party : PublicKey} {epoch : ℕ}
  {before : Option ValidatorState} {state : ValidatorState}

/-- A changed state can be written and read back. -/
theorem StateChange.inRange (h : StateChange instruction party epoch before state)
    (hinstruction : instruction.InRange) (hparty : party < 256 ^ 32)
    (hbefore : ∀ old ∈ before, old.InRange) : state.InRange := by
  have matured {old next : ValidatorState} (hmatured : matureStakeForEpoch old epoch = .ok next)
      (hold : old ∈ before) : next.InRange :=
    (matureStakeForEpoch_eq_ok hmatured).1.inRange (hbefore old hold)
  have withEffectiveStake {old next : ValidatorState} (hrange : old.InRange)
      (hstate : old.withEffectiveStake epoch = .ok next) : next.InRange := by
    obtain ⟨-, -, hkeep⟩ := withEffectiveStake_eq_ok hstate
    exact hkeep hrange
  cases h with
  | registerValidator _ hstate => exact withEffectiveStake (.registered hinstruction hparty) hstate
  | stake _ _ hmatured hfits hstate =>
    exact withEffectiveStake ((matured hmatured rfl).addPending hfits) hstate
  | delegate _ hmatured hfits hdelegated hstate =>
    exact withEffectiveStake ((matured hmatured rfl).addDelegation hparty hfits hdelegated) hstate
  | unstake _ _ hmatured hunstaked hstate =>
    exact withEffectiveStake
      ((matured hmatured rfl).beginUnstake hinstruction.unlockEpoch hunstaked) hstate
  | undelegate _ hmatured hundelegated hstate =>
    have hstarted := (matured hmatured rfl).beginUndelegate hinstruction.unlockEpoch hundelegated
    exact (withEffectiveStake hstarted hstate).compacted
  | withdrawUnstaked _ _ hmatured htake => exact (matured hmatured rfl).takeUnstaked htake
  | withdrawDelegation _ hmatured htake =>
    exact ((matured hmatured rfl).takeDelegation htake).compacted
  | updateCommission =>
    exact { hbefore _ rfl with commissionBps := hinstruction.commissionBps }
  | exitValidator _ _ hstate =>
    refine withEffectiveStake ?_ hstate
    exact { hbefore _ rfl with deactivationEpoch := wrapUint64_lt _ }

end

section

variable {context : InstructionContext} {accounts next : AccountMap} {address : PublicKey}
  {account : Account} {state : ValidatorState}

theorem stateAt_eq_some (h : stateAt accounts address = some state) :
    ∃ account, accounts.lookup address = some account ∧
      unmarshalValidatorStateBinary account.data = .ok state := by
  obtain ⟨account, hlookup, hstate⟩ := Option.bind_eq_some_iff.mp h
  exact ⟨account, hlookup, toOption_eq_some.mp hstate⟩

theorem inRange_of_stateAt (h : stateAt accounts address = some state) : state.InRange := by
  obtain ⟨_, -, hstate⟩ := stateAt_eq_some h
  exact (unmarshalValidatorStateBinary_eq_ok hstate).1

theorem unmarshal_nil : (unmarshalValidatorStateBinary []).toOption = none := by
  decide

/-- A missing account holds no state, like an account without data. -/
theorem stateAt_eq (accounts : AccountMap) (address : PublicKey) :
    stateAt accounts address =
      (unmarshalValidatorStateBinary (accountOrZero accounts address).data).toOption := by
  cases hlookup : accounts.lookup address with
  | none => simp [stateAt, accountOrZero, hlookup, Account.emptySystem, unmarshal_nil]
  | some account => simp [stateAt, accountOrZero, hlookup]

/-- Lamports move without touching a state. -/
theorem stateAt_transferLamports {source destination : PublicKey} {lamports : ℕ}
    {rentConfig : RentConfig}
    (h : transferLamports source destination lamports accounts rentConfig = .ok next)
    (other : PublicKey) : stateAt next other = stateAt accounts other := by
  obtain ⟨account, hsource, -, rfl⟩ := transferLamports_eq_ok h
  rw [stateAt_eq, stateAt_eq, accountOrZero_insert, accountOrZero_insert]
  split_ifs with hdestination hother
  · rw [hdestination]
  · rw [hother, accountOrZero_of_lookup hsource]
  · rfl

theorem stateAt_write (hrange : state.InRange)
    (h : writeValidatorState context accounts address account state = .ok next)
    (other : PublicKey) :
    stateAt next other = if other = address then some state else stateAt accounts other := by
  obtain ⟨data, hdata, -, rfl⟩ := writeValidatorState_eq_ok h
  rw [stateAt_eq, stateAt_eq, accountOrZero_insert]
  split_ifs with hother
  · exact toOption_eq_some.mpr (unmarshal_marshalBinary hrange hdata)
  · rfl

theorem Loads.stateAt {loaded : LoadedValidator} (h : Loads context accounts loaded) :
    stateAt accounts loaded.address = some loaded.state := by
  simp [Stake.stateAt, h.account, h.state]

/-- What an instruction does to the validator states. -/
structure ChangesState (context : InstructionContext) (accounts next : AccountMap)
    (instruction : Instruction) (party address : PublicKey) (state : ValidatorState) : Prop where
  partyAt : context.accountAddressAt 0 = .ok party
  validatorAt : context.accountAddressAt 1 = .ok address
  signed : context.isSignerContextAddress party = true
  change : StateChange instruction party context.currentEpoch (stateAt accounts address) state
  states : ∀ other,
    stateAt next other = if other = address then some state else stateAt accounts other

def withdrawn (instruction : Instruction) (party : PublicKey) : Option ValidatorState → ℕ
  | none => 0
  | some state =>
    match instruction.type with
    | .withdrawUnstaked => state.unlockingStake
    | .withdrawDelegation =>
      ((findDelegation state.delegations party).map DelegationState.unlockingStake).getD 0
    | _ => 0

/-- How the lamports of an instruction move: the accounts when the new state is written, and
the account it is written into. A delegation puts the validator account back as it was. -/
inductive Payment (context : InstructionContext) (accounts : AccountMap)
    (instruction : Instruction) (party address : PublicKey) : AccountMap → Account → Prop
  | deposit {funded : AccountMap}
      (htype : instruction.type = .registerValidator ∨ instruction.type = .stake)
      (htransfer : transferLamports party address instruction.amount accounts
        context.rentConfig = .ok funded) :
      Payment context accounts instruction party address funded (accountOrZero funded address)
  | delegation {funded : AccountMap} {account : Account} (htype : instruction.type = .delegate)
      (htransfer : transferLamports party address instruction.amount accounts
        context.rentConfig = .ok funded) (hlookup : accounts.lookup address = some account) :
      Payment context accounts instruction party address funded account
  | unpaid {account : Account}
      (htype : instruction.type = .unstake ∨ instruction.type = .undelegate ∨
        instruction.type = .updateCommission ∨ instruction.type = .exitValidator)
      (hlookup : accounts.lookup address = some account) :
      Payment context accounts instruction party address accounts account
  | withdrawal {paid : AccountMap}
      (htype : instruction.type = .withdrawUnstaked ∨ instruction.type = .withdrawDelegation)
      (htransfer : transferLamports address party
        (withdrawn instruction party (stateAt accounts address)) accounts context.rentConfig =
          .ok paid) :
      Payment context accounts instruction party address paid (accountOrZero paid address)

/-- The change of the state and the payment that goes with it. -/
structure Executes (context : InstructionContext) (accounts next : AccountMap)
    (instruction : Instruction) (party address : PublicKey) (state : ValidatorState) : Prop
    extends ChangesState context accounts next instruction party address state where
  written : ∃ middle account data, Payment context accounts instruction party address middle
      account ∧ state.marshalBinary = .ok data ∧
    (Account.withState account data).validateWithRent context.rentConfig = .ok () ∧
    next = middle.insert address (Account.withState account data)

end

section

variable {context : InstructionContext} {instruction : Instruction}
  {accounts next funded : AccountMap} {party address : PublicKey} {account : Account}
  {state : ValidatorState} {loaded : LoadedValidator}

/-- The last part of every instruction: the state is written after lamports have moved. -/
theorem Executes.of_write (hinstruction : instruction.InRange)
    (hparty : context.accountAddressAt 0 = .ok party)
    (haddress : context.accountAddressAt 1 = .ok address)
    (hsigned : context.isSignerContextAddress party = true)
    (hfunded : ∀ other, stateAt funded other = stateAt accounts other)
    (hpayment : Payment context accounts instruction party address funded account)
    (hchange : StateChange instruction party context.currentEpoch (stateAt accounts address) state)
    (hwrite : writeValidatorState context funded address account state = .ok next) :
    Executes context accounts next instruction party address state := by
  have hrange : state.InRange :=
    hchange.inRange hinstruction (InstructionContext.accountAddressAt_lt hparty)
      fun _ hold => inRange_of_stateAt hold
  obtain ⟨data, hdata, hvalid, hnext⟩ := writeValidatorState_eq_ok hwrite
  refine ⟨⟨hparty, haddress, hsigned, hchange, fun other => ?_⟩, funded, account, data, hpayment,
    hdata, hvalid, hnext⟩
  rw [stateAt_write hrange hwrite, hfunded]

theorem Executes.of_loaded (hinstruction : instruction.InRange)
    (hload : Loads context accounts loaded)
    (hfunded : ∀ other, stateAt funded other = stateAt accounts other)
    (hpayment : Payment context accounts instruction loaded.party loaded.address funded account)
    (hchange : StateChange instruction loaded.party context.currentEpoch (some loaded.state) state)
    (hwrite : writeValidatorState context funded loaded.address account state = .ok next) :
    Executes context accounts next instruction loaded.party loaded.address state :=
  .of_write hinstruction hload.party hload.address hload.signed hfunded hpayment
    (by rwa [hload.stateAt]) hwrite

section

variable {matured : ValidatorState} {amount : ℕ} (hload : Loads context accounts loaded)
include hload

theorem withdrawn_takeUnstaked (htype : instruction.type = .withdrawUnstaked)
    (hmatured : matureStakeForEpoch loaded.state context.currentEpoch = .ok matured)
    (htake : matured.takeUnstaked instruction.unlockEpoch = .ok (state, amount)) :
    withdrawn instruction loaded.party (stateAt accounts loaded.address) = amount := by
  obtain ⟨-, -, rfl, -⟩ := ValidatorState.takeUnstaked_eq_ok htake
  rw [hload.stateAt, withdrawn, htype]
  exact (matureStakeForEpoch_eq_ok hmatured).1.unlockingStake.symm

theorem withdrawn_takeDelegation (htype : instruction.type = .withdrawDelegation)
    (hmatured : matureStakeForEpoch loaded.state context.currentEpoch = .ok matured)
    (htake : matured.takeDelegation loaded.party instruction.unlockEpoch = .ok (state, amount)) :
    withdrawn instruction loaded.party (stateAt accounts loaded.address) = amount := by
  obtain ⟨delegation, hfound, -, -, rfl, -⟩ := ValidatorState.takeDelegation_eq_ok htake
  have hmatures := findDelegation_matures (matureStakeForEpoch_eq_ok hmatured).1.delegations
    loaded.party
  rw [hfound] at hmatures
  rw [hload.stateAt, withdrawn, htype]
  cases hbefore : findDelegation loaded.state.delegations loaded.party with
  | none =>
    rw [hbefore] at hmatures
    cases hmatures
  | some before =>
    rw [hbefore] at hmatures
    cases hmatures with
    | some hsame => exact hsame.unlockingStake.symm

end

section

/-- Some party has changed some validator. -/
def Executed (context : InstructionContext) (accounts next : AccountMap)
    (instruction : Instruction) : Prop :=
  ∃ party address state, Executes context accounts next instruction party address state

variable (hrange : instruction.InRange)
include hrange

theorem executeRegisterValidator_executes (htype : instruction.type = .registerValidator)
    (h : executeRegisterValidator instruction context accounts = .ok next) :
    Executed context accounts next instruction := by
  simp only [executeRegisterValidator, eq_ok, not_not, ne_eq, Bool.not_eq_false] at h
  obtain ⟨-, staker, hstaker, address, haddress, hsigned, funded, hfunded, hempty, state, hstate,
    hwrite⟩ := h
  have hnone : stateAt accounts address = none := by
    rw [← stateAt_transferLamports hfunded, stateAt_eq, hempty, unmarshal_nil]
  exact ⟨staker, address, state, .of_write hrange hstaker haddress hsigned
    (stateAt_transferLamports hfunded) (.deposit (.inl htype) hfunded)
    (hnone ▸ .registerValidator htype hstate) hwrite⟩

theorem executeStake_executes (htype : instruction.type = .stake)
    (h : executeStake instruction context accounts = .ok next) :
    Executed context accounts next instruction := by
  simp only [executeStake, eq_ok, not_lt] at h
  obtain ⟨loaded, hload, -, matured, hmatured, funded, hfunded, hfits, state, hstate, hwrite⟩ := h
  obtain ⟨hload, hstaker⟩ := loadWritableValidator_eq_ok hload
  exact ⟨_, _, state, .of_loaded hrange hload (stateAt_transferLamports hfunded)
    (.deposit (.inr htype) hfunded) (.stake htype hstaker hmatured hfits hstate) hwrite⟩

theorem executeDelegate_executes (htype : instruction.type = .delegate)
    (h : executeDelegate instruction context accounts = .ok next) :
    Executed context accounts next instruction := by
  simp only [executeDelegate, eq_ok, not_lt] at h
  obtain ⟨loaded, hload, -, matured, hmatured, funded, hfunded, hfits, delegated, hdelegated, state,
    hstate, hwrite⟩ := h
  have hload := loadValidator_eq_ok hload
  exact ⟨_, _, state, .of_loaded hrange hload (stateAt_transferLamports hfunded)
    (.delegation htype hfunded hload.account) (.delegate htype hmatured hfits hdelegated hstate)
    hwrite⟩

theorem executeUnstake_executes (htype : instruction.type = .unstake)
    (h : executeUnstake instruction context accounts = .ok next) :
    Executed context accounts next instruction := by
  simp only [executeUnstake, eq_ok] at h
  obtain ⟨loaded, hload, matured, hmatured, unstaked, hunstaked, state, hstate, hwrite⟩ := h
  obtain ⟨hload, hstaker⟩ := loadWritableValidator_eq_ok hload
  exact ⟨_, _, state, .of_loaded hrange hload (fun _ => rfl) (.unpaid (.inl htype) hload.account)
    (.unstake htype hstaker hmatured hunstaked hstate) hwrite⟩

theorem executeUndelegate_executes (htype : instruction.type = .undelegate)
    (h : executeUndelegate instruction context accounts = .ok next) :
    Executed context accounts next instruction := by
  simp only [executeUndelegate, eq_ok] at h
  obtain ⟨loaded, hload, matured, hmatured, undelegated, hundelegated, state, hstate, hwrite⟩ := h
  have hload := loadValidator_eq_ok hload
  exact ⟨_, _, _, .of_loaded hrange hload (fun _ => rfl)
    (.unpaid (.inr (.inl htype)) hload.account)
    (.undelegate htype hmatured hundelegated hstate) hwrite⟩

theorem executeWithdrawUnstaked_executes (htype : instruction.type = .withdrawUnstaked)
    (h : executeWithdrawUnstaked instruction context accounts = .ok next) :
    Executed context accounts next instruction := by
  simp only [executeWithdrawUnstaked, eq_ok] at h
  obtain ⟨loaded, hload, matured, hmatured, ⟨state, amount⟩, htake, paid, hpaid, hwrite⟩ := h
  obtain ⟨hload, hstaker⟩ := loadWritableValidator_eq_ok hload
  have hamount := withdrawn_takeUnstaked hload htype hmatured htake
  exact ⟨_, _, state, .of_loaded hrange hload (stateAt_transferLamports hpaid)
    (.withdrawal (.inl htype) (hamount ▸ hpaid)) (.withdrawUnstaked htype hstaker hmatured htake)
    hwrite⟩

theorem executeWithdrawDelegation_executes
    (htype : instruction.type = .withdrawDelegation)
    (h : executeWithdrawDelegation instruction context accounts = .ok next) :
    Executed context accounts next instruction := by
  simp only [executeWithdrawDelegation, eq_ok] at h
  obtain ⟨loaded, hload, matured, hmatured, ⟨state, amount⟩, htake, paid, hpaid, hwrite⟩ := h
  have hload := loadValidator_eq_ok hload
  have hamount := withdrawn_takeDelegation hload htype hmatured htake
  exact ⟨_, _, _, .of_loaded hrange hload (stateAt_transferLamports hpaid)
    (.withdrawal (.inr htype) (hamount ▸ hpaid)) (.withdrawDelegation htype hmatured htake) hwrite⟩

theorem executeUpdateCommission_executes (htype : instruction.type = .updateCommission)
    (h : executeUpdateCommission instruction context accounts = .ok next) :
    Executed context accounts next instruction := by
  simp only [executeUpdateCommission, eq_ok] at h
  obtain ⟨loaded, hload, -, hwrite⟩ := h
  obtain ⟨hload, hstaker⟩ := loadWritableValidator_eq_ok hload
  exact ⟨_, _, _, .of_loaded hrange hload (fun _ => rfl)
    (.unpaid (.inr (.inr (.inl htype))) hload.account) (.updateCommission htype hstaker) hwrite⟩

theorem executeExitValidator_executes (htype : instruction.type = .exitValidator)
    (h : executeExitValidator context accounts = .ok next) :
    Executed context accounts next instruction := by
  simp only [executeExitValidator, eq_ok] at h
  obtain ⟨loaded, hload, state, hstate, hwrite⟩ := h
  obtain ⟨hload, hstaker⟩ := loadWritableValidator_eq_ok hload
  exact ⟨_, _, state, .of_loaded hrange hload (fun _ => rfl)
    (.unpaid (.inr (.inr (.inr htype))) hload.account) (.exitValidator htype hstaker hstate)
    hwrite⟩

end

/-- Every successful instruction replaces the state of one validator and makes at most one
payment between the validator account and the party. -/
theorem execute_executes (h : execute context accounts = .ok next) :
    ∃ instruction party address state,
      unmarshalInstructionBinary context.instruction.data = .ok instruction ∧
      Executes context accounts next instruction party address state := by
  obtain ⟨instruction, hdecode, h⟩ := bind_eq_ok.mp h
  have hrange := (unmarshalInstructionBinary_eq_ok hdecode).1
  suffices hexecutes : Executed context accounts next instruction by
    obtain ⟨party, address, state, hexecutes⟩ := hexecutes
    exact ⟨instruction, party, address, state, hdecode, hexecutes⟩
  unfold executeInstruction at h
  split at h
  · next htype => exact executeRegisterValidator_executes hrange htype h
  · next htype => exact executeStake_executes hrange htype h
  · next htype => exact executeUnstake_executes hrange htype h
  · next htype => exact executeWithdrawUnstaked_executes hrange htype h
  · next htype => exact executeExitValidator_executes hrange htype h
  · cases h
  · cases h
  · next htype => exact executeDelegate_executes hrange htype h
  · next htype => exact executeUndelegate_executes hrange htype h
  · next htype => exact executeWithdrawDelegation_executes hrange htype h
  · next htype => exact executeUpdateCommission_executes hrange htype h
  · cases h

theorem execute_eq_ok (h : execute context accounts = .ok next) :
    ∃ instruction party address state,
      unmarshalInstructionBinary context.instruction.data = .ok instruction ∧
      ChangesState context accounts next instruction party address state := by
  obtain ⟨instruction, party, address, state, hdecode, hexecutes⟩ := execute_executes h
  exact ⟨instruction, party, address, state, hdecode, hexecutes.toChangesState⟩

end

/-! Concrete runs are about a staker at address 1, a delegator at address 2 and a
validator account at address 3. -/

/-- The first two accounts sign; the last one is the program. -/
def sampleMessage : ResolvedMessage where
  header :=
    { numRequiredSignatures := 2, numReadonlySignedAccounts := 0
      numReadonlyUnsignedAccounts := 1 }
  staticAccountKeys := [1, 2, 3, programID]
  loadedAddresses := { writable := [], readonly := [] }
  accountKeys := [1, 2, 3, programID]
  recentBlockhash := 1
  instructions := []
  key_lt := by decide +kernel

/-- An instruction of the account at `partyIndex` on the validator. -/
def sampleContext (partyIndex epoch instructionType amount unlockEpoch : ℕ) :
    InstructionContext where
  instructionIndex := 0
  instruction :=
    { programIDIndex := 3, accountIndexes := [partyIndex, 2]
      data := littleEndian 4 instructionType ++ bigEndian 32 7 ++ littleEndian 4 1 ++ [112] ++
        littleEndian 2 0 ++ littleEndian 8 amount ++ littleEndian 8 unlockEpoch }
  message := sampleMessage
  currentSlot := 1
  currentEpoch := epoch
  rentConfig := defaultRentConfig
  computeBudget := defaultComputeBudgetLimits
  transactionFee := 5000
  feeSource := .transparentAccount
  signerOverrides := []

def sampleWallet : Account where
  lamports := 100000000
  data := []
  owner := defaultBuiltinProgramIDs.system
  executable := false
  rentEpoch := 0

end Ordexus.Stake
