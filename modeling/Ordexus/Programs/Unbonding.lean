import Ordexus.Library.Transition
import Ordexus.Programs.ValidatorStates

/-!
# Unbonding

Stake that was unstaked or undelegated waits for an unlock epoch before it can be
withdrawn. The log of this module records, next to the accounts, every unbonding that was
started and which unbondings each withdrawal pays out. All unbondings of a validator share
one bucket: the staker withdraws it as a whole, with what delegators have put there, and a
delegator takes its own share of it. The program takes the epochs it compares from the
instructions; what it enforces, and what the instructions have to respect, is stated over
the log.
-/

namespace Ordexus.Stake

open Checked Transition List Stake.ValidatorState

/-- Who unbonds: the staker of a validator or one of its delegators. -/
inductive Party where
  | staker
  | delegator (account : PublicKey)
deriving DecidableEq

/-- An unstake or undelegate instruction that was executed. -/
structure Unbonding where
  validator : PublicKey
  party : Party
  executedEpoch : ℕ
  unlockEpoch : ℕ
deriving DecidableEq

/-- A withdrawal with the unbondings it pays out. -/
structure Withdrawal where
  epoch : ℕ
  matched : List Unbonding
deriving DecidableEq

structure UnbondingLog where
  accounts : AccountMap
  started : List Unbonding
  /-- The unbondings that the validator states still record. -/
  waiting : List Unbonding
  withdrawals : List Withdrawal

/-- The delegations that are being unbonded are all past their unlock epochs. -/
def ValidatorState.DelegationsUnlocked (state : ValidatorState) (epoch : ℕ) : Prop :=
  ∀ delegation ∈ state.delegations, delegation.unlockingStake ≠ 0 → delegation.unlockEpoch ≤ epoch

instance (state : ValidatorState) (epoch : ℕ) : Decidable (state.DelegationsUnlocked epoch) :=
  inferInstanceAs (Decidable (∀ delegation ∈ _, _))

/-- The bucket holds less than the delegators are owed: the staker has withdrawn theirs. -/
def ValidatorState.bucketShort (state : ValidatorState) : Bool :=
  state.unlockingStake < (state.delegations.map DelegationState.unlockingStake).sum

namespace UnbondingLog

def start (accounts : AccountMap) : UnbondingLog where
  accounts := accounts
  started := []
  waiting := []
  withdrawals := []

section

variable (log : UnbondingLog)

def begin (unbonding : Unbonding) : UnbondingLog :=
  { log with started := unbonding :: log.started, waiting := unbonding :: log.waiting }

/-- A withdrawal of the whole bucket pays out everything that waits at the validator, a
withdrawal of a share what waits for its party. Either clears only the record of its
party: a delegator whose share the staker took can still withdraw it. -/
def withdraw (validator : PublicKey) (party : Party) (whole : Bool) (epoch : ℕ) : UnbondingLog :=
  { log with
    waiting := log.waiting.filter fun unbonding =>
      ¬(unbonding.validator = validator ∧ unbonding.party = party)
    withdrawals := ⟨epoch, log.waiting.filter fun unbonding =>
      unbonding.validator = validator ∧ (whole ∨ unbonding.party = party)⟩ :: log.withdrawals }

/-- The executed instruction in the log. `short` says that the bucket did not cover the
delegations; what a delegator then withdraws is the stake of others. -/
def record (instruction : Instruction) (party validator : PublicKey) (short : Bool) (epoch : ℕ) :
    UnbondingLog :=
  match instruction.type with
  | .unstake => log.begin ⟨validator, .staker, epoch, instruction.unlockEpoch⟩
  | .undelegate => log.begin ⟨validator, .delegator party, epoch, instruction.unlockEpoch⟩
  | .withdrawUnstaked => log.withdraw validator .staker true epoch
  | .withdrawDelegation => log.withdraw validator (.delegator party) short epoch
  | _ => log

def bucketShortAt (validator : PublicKey) : Bool :=
  (stateAt log.accounts validator).any bucketShort

/-- Execute an instruction of the stake program; a failed one changes nothing. -/
def step (context : InstructionContext) : Option UnbondingLog := do
  let next ← (execute context log.accounts).toOption
  let instruction ← (unmarshalInstructionBinary context.instruction.data).toOption
  let party ← (context.accountAddressAt 0).toOption
  let validator ← (context.accountAddressAt 1).toOption
  some ({ log with accounts := next }.record instruction party validator
    (log.bucketShortAt validator) context.currentEpoch)

/-- No withdrawal came before the unlock epoch of an unbonding it pays out, and every
unlock epoch lies after the epoch in which it was fixed. -/
def Enforced : Prop :=
  (∀ withdrawal ∈ log.withdrawals, ∀ unbonding ∈ withdrawal.matched,
      unbonding.unlockEpoch ≤ withdrawal.epoch) ∧
    ∀ unbonding ∈ log.started, unbonding.executedEpoch < unbonding.unlockEpoch

/-- The epochs of an instruction agree with the chain and with what the validator state
already records. Whoever withdraws what others have unbonded waits for their epochs. -/
def EpochsAgree (context : InstructionContext) : Prop :=
  ∀ instruction ∈ (unmarshalInstructionBinary context.instruction.data).toOption,
  ∀ party ∈ (context.accountAddressAt 0).toOption,
  ∀ validator ∈ (context.accountAddressAt 1).toOption,
    (instruction.type = .unstake ∨ instruction.type = .undelegate →
      context.currentEpoch < instruction.unlockEpoch) ∧
    (instruction.type = .unstake → ∀ state ∈ stateAt log.accounts validator,
      state.unlockEpoch ≤ instruction.unlockEpoch) ∧
    (instruction.type = .undelegate → ∀ state ∈ stateAt log.accounts validator,
      ∀ delegation ∈ findDelegation state.delegations party,
        delegation.unlockEpoch ≤ instruction.unlockEpoch) ∧
    (instruction.type = .withdrawUnstaked ∨ instruction.type = .withdrawDelegation →
      instruction.unlockEpoch ≤ context.currentEpoch) ∧
    (instruction.type = .withdrawUnstaked → ∀ state ∈ stateAt log.accounts validator,
      state.DelegationsUnlocked context.currentEpoch) ∧
    (instruction.type = .withdrawDelegation → ∀ state ∈ stateAt log.accounts validator,
      state.bucketShort → state.unlockEpoch ≤ context.currentEpoch ∧
        state.DelegationsUnlocked context.currentEpoch)

end

set_option synthInstance.maxSize 512 in
instance (log : UnbondingLog) (context : InstructionContext) :
    Decidable (log.EpochsAgree context) :=
  inferInstanceAs (Decidable (∀ instruction ∈ _, ∀ party ∈ _, ∀ validator ∈ _, _ ∧ _))

end UnbondingLog

/-! ### Locked stake -/

/-- Nothing of what the party unbonds can be withdrawn with an epoch before `epoch`. -/
def ValidatorState.Locks (state : ValidatorState) (epoch : ℕ) : Party → Prop
  | .staker => epoch ≤ state.unlockEpoch
  | .delegator account => ∃ delegation, findDelegation state.delegations account = some delegation ∧
      delegation.unlockingStake ≠ 0 ∧ epoch ≤ delegation.unlockEpoch

namespace ValidatorState.Locks

variable {before after state : ValidatorState} {epoch amount unlockEpoch current : ℕ}
  {party : Party} {delegator : PublicKey}

/-- Only the unlock epoch and the delegations matter. -/
theorem of_eq (h : before.Locks epoch party) (hepoch : after.unlockEpoch = before.unlockEpoch)
    (hdelegations : after.delegations = before.delegations) : after.Locks epoch party := by
  cases party with
  | staker => exact h.trans_eq hepoch.symm
  | delegator account =>
    obtain ⟨delegation, hfound, hlocked⟩ := h
    exact ⟨delegation, hdelegations ▸ hfound, hlocked⟩

/-- Once the recorded epochs are over, nothing is locked any longer. -/
theorem le_of_unlocked (h : state.Locks epoch party) (hstaker : state.unlockEpoch ≤ current)
    (hunlocked : state.DelegationsUnlocked current) : epoch ≤ current := by
  cases party with
  | staker => exact le_trans h hstaker
  | delegator account =>
    obtain ⟨delegation, hfound, hpositive, hepoch⟩ := h
    exact hepoch.trans (hunlocked delegation (findDelegation_eq_some hfound).1 hpositive)

theorem matures (h : before.Locks epoch party) (hmatures : before.Matures after) :
    after.Locks epoch party := by
  cases party with
  | staker => exact h.trans_eq hmatures.unlockEpoch.symm
  | delegator account =>
    obtain ⟨delegation, hfound, hpositive, hepoch⟩ := h
    have hrel := findDelegation_matures hmatures.delegations account
    rw [hfound] at hrel
    generalize hmatured : findDelegation after.delegations account = matured at hrel
    cases hrel with
    | some hkeep =>
      exact ⟨_, hmatured, by rwa [hkeep.unlockingStake], by rwa [hkeep.unlockEpoch]⟩

theorem withEffectiveStake (h : before.Locks epoch party)
    (hafter : before.withEffectiveStake current = .ok after) : after.Locks epoch party := by
  obtain ⟨rfl, -⟩ := withEffectiveStake_eq_ok hafter
  exact h.of_eq rfl rfl

theorem compacted (h : state.Locks epoch party)
    (htotals : ∀ account delegation, party = .delegator account →
      findDelegation state.delegations account = some delegation →
      ∃ total, delegation.totalStake = .ok total) : state.compacted.Locks epoch party := by
  cases party with
  | staker => exact h
  | delegator account =>
    obtain ⟨delegation, hfound, hpositive, hepoch⟩ := h
    obtain ⟨total, htotal⟩ := htotals account delegation rfl hfound
    have hnonzero : total ≠ 0 := by
      simp only [DelegationState.totalStake, eq_ok, checkedAdd_eq_ok] at htotal
      omega
    exact ⟨delegation, findDelegation_compact hfound htotal hnonzero, hpositive, hepoch⟩

section

variable (h : before.Locks epoch party)
include h

/-- The clean-up of a state whose fields were checked. -/
theorem refreshed (hafter : before.withEffectiveStake current = .ok after) :
    after.compacted.Locks epoch party := by
  obtain ⟨rfl, hfields, -⟩ := withEffectiveStake_eq_ok hafter
  have htotals := validateDelegations_totals (validateFields_delegations hfields).1
  exact (h.withEffectiveStake hafter).compacted fun _ delegation _ hfound =>
    htotals delegation (findDelegation_eq_some hfound).1

theorem addDelegation (hafter : before.addDelegation delegator amount current = .ok after) :
    after.Locks epoch party := by
  obtain ⟨delegations, delegation, hensure, hfound, -, rfl⟩ := addDelegation_eq_ok hafter
  cases party with
  | staker => exact h
  | delegator account =>
    obtain ⟨locked, hlocked, hpositive, hepoch⟩ := h
    have hkept : findDelegation delegations account = some locked := by
      obtain ⟨-, rfl | ⟨-, rfl⟩⟩ := ensureDelegation_eq_ok hensure
      · exact hlocked
      · simp only [findDelegation] at hlocked ⊢
        rw [find?_append, hlocked, Option.some_or]
    have hdelegator := (findDelegation_eq_some hfound).2
    have hreplace := @findDelegation_replace delegations account { delegation with
      pendingStake := delegation.pendingStake + amount
      activationEpoch := nextEpoch current } (by simp [hdelegator, hfound])
    by_cases hsame : account = delegator
    · subst hsame
      obtain rfl := Option.mem_unique hfound hkept
      exact ⟨_, hreplace.trans (if_pos hdelegator.symm), hpositive, hepoch⟩
    · have hother : account ≠ delegation.delegatorAccount := hdelegator ▸ hsame
      exact ⟨locked, hreplace.trans ((if_neg hother).trans hkept), hpositive, hepoch⟩

theorem beginUnstake (hlater : before.unlockEpoch ≤ unlockEpoch)
    (hafter : before.beginUnstake amount unlockEpoch current = .ok after) :
    after.Locks epoch party := by
  obtain ⟨-, rfl⟩ := beginUnstake_eq_ok hafter
  cases party with
  | staker => exact le_trans h hlater
  | delegator account => exact h

theorem takeUnstaked (hafter : before.takeUnstaked unlockEpoch = .ok (after, amount)) :
    after.Locks epoch party := by
  obtain ⟨-, -, -, rfl⟩ := takeUnstaked_eq_ok hafter
  exact h.of_eq rfl rfl

theorem replace (next : DelegationState)
    (hfound : (findDelegation before.delegations next.delegatorAccount).isSome)
    (hother : party ≠ .delegator next.delegatorAccount)
    (hepoch : after.unlockEpoch = before.unlockEpoch)
    (hdelegations : after.delegations = replaceDelegation before.delegations next) :
    after.Locks epoch party := by
  cases party with
  | staker => exact h.trans_eq hepoch.symm
  | delegator account =>
    obtain ⟨locked, hlocked, hkept⟩ := h
    have hne : account ≠ next.delegatorAccount := fun hsame => hother (by rw [hsame])
    refine ⟨locked, ?_, hkept⟩
    rw [hdelegations, findDelegation_replace hfound, if_neg hne, hlocked]

theorem takeDelegation (hother : party ≠ .delegator delegator)
    (hafter : before.takeDelegation delegator unlockEpoch = .ok (after, amount)) :
    after.Locks epoch party := by
  obtain ⟨delegation, hfound, -, -, -, -, rfl⟩ := takeDelegation_eq_ok hafter
  have hdelegator := (findDelegation_eq_some hfound).2
  refine h.replace { delegation with unlockingStake := 0 } ?_ ?_ rfl rfl
  · simp [hdelegator, hfound]
  · rwa [hdelegator]

end

/-- The delegation that was just unbonded is locked until its new epoch. -/
theorem of_beginUndelegate (hrange : before.InRange) (hamount : amount ≠ 0)
    (hbonded : ∀ delegation ∈ before.delegations, ∃ total, delegation.totalStake = .ok total)
    (hafter : before.beginUndelegate delegator amount unlockEpoch current = .ok after) :
    after.Locks unlockEpoch (.delegator delegator) := by
  obtain ⟨delegation, hfound, hactive, -, rfl⟩ := beginUndelegate_eq_ok hafter
  obtain ⟨hmem, hdelegator⟩ := findDelegation_eq_some hfound
  obtain ⟨total, htotal⟩ := hbonded delegation hmem
  simp only [DelegationState.totalStake, eq_ok, checkedAdd_eq_ok] at htotal
  refine ⟨_, (findDelegation_replace (by simp [hdelegator, hfound])).trans
    (if_pos hdelegator.symm), ?_, le_rfl⟩
  have hfits := (hrange.delegations delegation hmem).activeStake
  dsimp only [wrapUint64]
  unfold maxUint64 at *
  omega

theorem beginUndelegate (h : before.Locks epoch party) (hrange : before.InRange)
    (hamount : amount ≠ 0)
    (hbonded : ∀ delegation ∈ before.delegations, ∃ total, delegation.totalStake = .ok total)
    (hlater : ∀ delegation, findDelegation before.delegations delegator = some delegation →
      delegation.unlockEpoch ≤ unlockEpoch)
    (hafter : before.beginUndelegate delegator amount unlockEpoch current = .ok after) :
    after.Locks epoch party := by
  by_cases hsame : party = .delegator delegator
  · subst hsame
    obtain ⟨locked, hlocked, -, hepoch⟩ := h
    obtain ⟨delegation, hfound, hpositive, hnew⟩ := of_beginUndelegate hrange hamount hbonded hafter
    exact ⟨delegation, hfound, hpositive, (hepoch.trans (hlater locked hlocked)).trans hnew⟩
  · obtain ⟨delegation, hfound, -, -, rfl⟩ := beginUndelegate_eq_ok hafter
    have hdelegator := (findDelegation_eq_some hfound).2
    refine h.replace _ ?_ ?_ rfl rfl
    · simp [hdelegator, hfound]
    · rwa [hdelegator]

end ValidatorState.Locks

section

variable {instruction : Instruction} {account : PublicKey} {party : Party} {current epoch : ℕ}
  {before state : ValidatorState}

/-- The amount of an undelegate instruction is not zero. -/
theorem amount_ne_zero (hvalid : instruction.validate = .ok ())
    (htype : instruction.type = .undelegate) : instruction.amount ≠ 0 := by
  simp only [Instruction.validate, htype, eq_ok, validateStakeAmount] at hvalid
  obtain ⟨-, -, -, hamount⟩ := hvalid
  unfold minimumStakeLamports at hamount
  omega

theorem takeDelegation_totals {after : ValidatorState} {amount unlockEpoch : ℕ}
    (htotals : ∀ delegation ∈ before.delegations, ∃ total, delegation.totalStake = .ok total)
    (htake : before.takeDelegation account unlockEpoch = .ok (after, amount)) :
    ∀ delegation ∈ after.delegations, ∃ total, delegation.totalStake = .ok total := by
  obtain ⟨delegation, hfound, -, -, -, -, rfl⟩ := takeDelegation_eq_ok htake
  refine forall_mem_replaceDelegation htotals ?_
  obtain ⟨total, htotal⟩ := htotals delegation (findDelegation_eq_some hfound).1
  simp only [DelegationState.totalStake, eq_ok, checkedAdd_eq_ok] at htotal ⊢
  obtain ⟨bonded, hbonded, -⟩ := htotal
  exact ⟨bonded, bonded, hbonded, Nat.zero_le _, rfl⟩

section

variable (h : StateChange instruction account current (some before) state)
include h

/-- What is locked stays locked unless its own party withdraws, as long as new unlock
epochs are not earlier than the recorded ones. -/
theorem StateChange.locks (hvalid : instruction.validate = .ok ()) (hrange : before.InRange)
    (hlocks : before.Locks epoch party)
    (hdelegator : instruction.type = .withdrawDelegation → party ≠ .delegator account)
    (hunstake : instruction.type = .unstake → before.unlockEpoch ≤ instruction.unlockEpoch)
    (hundelegate : instruction.type = .undelegate →
      ∀ delegation ∈ findDelegation before.delegations account,
        delegation.unlockEpoch ≤ instruction.unlockEpoch) : state.Locks epoch party := by
  cases h with
  | stake _ _ hmatured _ hstate =>
    have hmature := hlocks.matures (matureStakeForEpoch_eq_ok hmatured).1
    refine Locks.withEffectiveStake ?_ hstate
    exact hmature.of_eq rfl rfl
  | delegate _ hmatured _ hdelegated hstate =>
    have hmature := hlocks.matures (matureStakeForEpoch_eq_ok hmatured).1
    exact (hmature.addDelegation hdelegated).withEffectiveStake hstate
  | unstake htype _ hmatured hunstaked hstate =>
    have hmatures := (matureStakeForEpoch_eq_ok hmatured).1
    have hlater := hmatures.unlockEpoch.trans_le (hunstake htype)
    exact ((hlocks.matures hmatures).beginUnstake hlater hunstaked).withEffectiveStake hstate
  | undelegate htype hmatured hundelegated hstate =>
    obtain ⟨hmatures, -, htotals⟩ := matureStakeForEpoch_eq_ok hmatured
    have hbegun := (hlocks.matures hmatures).beginUndelegate (hmatures.inRange hrange)
      (amount_ne_zero hvalid htype) htotals (fun delegation hfound => ?_) hundelegated
    · exact hbegun.refreshed hstate
    · have hrel := findDelegation_matures hmatures.delegations account
      rw [hfound] at hrel
      generalize hbefore : findDelegation before.delegations account = found at hrel
      cases hrel with
      | some hkeep => exact hkeep.unlockEpoch.trans_le (hundelegate htype _ hbefore)
  | withdrawUnstaked _ _ hmatured htake =>
    have hmature := hlocks.matures (matureStakeForEpoch_eq_ok hmatured).1
    exact hmature.takeUnstaked htake
  | withdrawDelegation htype hmatured htake =>
    obtain ⟨hmatures, -, htotals⟩ := matureStakeForEpoch_eq_ok hmatured
    have htaken := (hlocks.matures hmatures).takeDelegation (hdelegator htype) htake
    exact htaken.compacted fun _ delegation _ hfound =>
      takeDelegation_totals htotals htake delegation (findDelegation_eq_some hfound).1
  | updateCommission => exact hlocks.of_eq rfl rfl
  | exitValidator _ _ hstate =>
    refine Locks.withEffectiveStake ?_ hstate
    exact hlocks.of_eq rfl rfl

/-- The staker withdraws only with an epoch from the recorded unlock epoch on. -/
theorem StateChange.withdrawUnstaked_epoch (htype : instruction.type = .withdrawUnstaked) :
    before.unlockEpoch ≤ instruction.unlockEpoch := by
  cases h with
  | withdrawUnstaked _ _ hmatured htake =>
    have hlocks : before.Locks before.unlockEpoch .staker := le_rfl
    have hmature := hlocks.matures (matureStakeForEpoch_eq_ok hmatured).1
    exact le_trans hmature (takeUnstaked_eq_ok htake).2.1
  | _ => simp_all

theorem StateChange.withdrawDelegation_epoch (htype : instruction.type = .withdrawDelegation)
    (hlocks : before.Locks epoch (.delegator account)) : epoch ≤ instruction.unlockEpoch := by
  cases h with
  | withdrawDelegation _ hmatured htake =>
    obtain ⟨locked, hlocked, -, hepoch⟩ := hlocks.matures (matureStakeForEpoch_eq_ok hmatured).1
    obtain ⟨delegation, hfound, -, hreached, -⟩ := takeDelegation_eq_ok htake
    obtain rfl := Option.mem_unique hlocked hfound
    exact hepoch.trans hreached
  | _ => simp_all

theorem StateChange.unstake_locks (htype : instruction.type = .unstake) :
    state.Locks instruction.unlockEpoch .staker := by
  cases h with
  | unstake _ _ _ hunstaked hstate =>
    refine Locks.withEffectiveStake ?_ hstate
    obtain ⟨-, rfl⟩ := beginUnstake_eq_ok hunstaked
    exact le_rfl
  | _ => simp_all

theorem StateChange.undelegate_locks (hvalid : instruction.validate = .ok ())
    (hrange : before.InRange) (htype : instruction.type = .undelegate) :
    state.Locks instruction.unlockEpoch (.delegator account) := by
  cases h with
  | undelegate _ hmatured hundelegated hstate =>
    obtain ⟨hmatures, -, htotals⟩ := matureStakeForEpoch_eq_ok hmatured
    have hbegun := Locks.of_beginUndelegate (hmatures.inRange hrange)
      (amount_ne_zero hvalid htype) htotals hundelegated
    exact hbegun.refreshed hstate
  | _ => simp_all

end

/-- An instruction other than a registration finds a state. -/
theorem StateChange.exists_before {found : Option ValidatorState}
    (h : StateChange instruction account current found state)
    (htype : instruction.type ≠ .registerValidator) : ∃ before, found = some before := by
  cases h with
  | registerValidator h => exact absurd h htype
  | _ => exact ⟨_, rfl⟩

end

/-! ### Runs -/

namespace UnbondingLog

variable {log next : UnbondingLog} {context : InstructionContext} {instruction : Instruction}
  {party address : PublicKey} {state : ValidatorState}

/-- The epochs so far are in order, and whatever waits is locked. -/
structure Tracked (log : UnbondingLog) : Prop where
  enforced : log.Enforced
  locked : ∀ unbonding ∈ log.waiting, ∃ state,
    stateAt log.accounts unbonding.validator = some state ∧
      state.Locks unbonding.unlockEpoch unbonding.party

theorem step_eq_some (h : log.step context = some next) :
    ∃ accounts instruction party address state,
      unmarshalInstructionBinary context.instruction.data = .ok instruction ∧
      ChangesState context log.accounts accounts instruction party address state ∧
      next = { log with accounts := accounts }.record instruction party address
        (log.bucketShortAt address) context.currentEpoch := by
  simp only [step, Option.bind_eq_bind, Option.bind_eq_some_iff, toOption_eq_some,
    Option.some.injEq] at h
  obtain ⟨accounts, hexecute, instruction, hdecode, party, hparty, address, haddress, rfl⟩ := h
  obtain ⟨_, _, _, state, hdecode', hchanges⟩ := execute_eq_ok hexecute
  cases hdecode.symm.trans hdecode'
  cases hparty.symm.trans hchanges.partyAt
  cases haddress.symm.trans hchanges.validatorAt
  exact ⟨accounts, instruction, party, address, state, hdecode, hchanges, rfl⟩

theorem Tracked.begin (h : log.Tracked) {unbonding : Unbonding}
    (hlater : unbonding.executedEpoch < unbonding.unlockEpoch)
    (hlocked : ∃ state, stateAt log.accounts unbonding.validator = some state ∧
      state.Locks unbonding.unlockEpoch unbonding.party) : (log.begin unbonding).Tracked where
  enforced := ⟨h.enforced.1, forall_mem_cons.mpr ⟨hlater, h.enforced.2⟩⟩
  locked := forall_mem_cons.mpr ⟨hlocked, h.locked⟩

theorem Enforced.withdraw (h : log.Enforced) {validator : PublicKey} {party : Party}
    {whole : Bool} {epoch : ℕ}
    (hreached : ∀ unbonding ∈ log.waiting, unbonding.validator = validator →
      (whole ∨ unbonding.party = party) → unbonding.unlockEpoch ≤ epoch) :
    (log.withdraw validator party whole epoch).Enforced := by
  refine ⟨forall_mem_cons.mpr ⟨fun unbonding hmatched => ?_, h.1⟩, h.2⟩
  obtain ⟨hwaits, hsame⟩ := mem_filter.mp hmatched
  obtain ⟨hvalidator, hparty⟩ := of_decide_eq_true hsame
  exact hreached unbonding hwaits hvalidator hparty

theorem Tracked.step (h : log.Tracked) (hagree : log.EpochsAgree context)
    (hstep : log.step context = some next) : next.Tracked := by
  obtain ⟨accounts, instruction, party, address, state, hdecode, hchanges, rfl⟩ :=
    step_eq_some hstep
  obtain ⟨hlater, hunstake, hundelegate, hreached, hwhole, hshort⟩ :=
    hagree instruction (toOption_eq_some.mpr hdecode) party
      (toOption_eq_some.mpr hchanges.partyAt) address (toOption_eq_some.mpr hchanges.validatorAt)
  have hvalid := (unmarshalInstructionBinary_eq_ok hdecode).2
  have hnew : stateAt accounts address = some state := (hchanges.states address).trans (if_pos rfl)
  -- the state that the instruction meets where something waits
  have hmeets {unbonding : Unbonding} (hwaits : unbonding ∈ log.waiting)
      (hvalidator : unbonding.validator = address) :
      ∃ old, stateAt log.accounts address = some old ∧
        StateChange instruction party context.currentEpoch (some old) state ∧
        old.Locks unbonding.unlockEpoch unbonding.party := by
    obtain ⟨old, hold, hlocks⟩ := h.locked unbonding hwaits
    rw [hvalidator] at hold
    exact ⟨old, hold, hold ▸ hchanges.change, hlocks⟩
  -- what waits stays locked unless a delegator withdraws it
  have hlocked (unbonding : Unbonding) (hwaits : unbonding ∈ log.waiting)
      (hkept : instruction.type = .withdrawDelegation →
        ¬(unbonding.validator = address ∧ unbonding.party = .delegator party)) :
      ∃ after, stateAt accounts unbonding.validator = some after ∧
        after.Locks unbonding.unlockEpoch unbonding.party := by
    rw [hchanges.states]
    by_cases hsame : unbonding.validator = address
    · obtain ⟨old, hold, hchange, hlocks⟩ := hmeets hwaits hsame
      exact ⟨state, if_pos hsame, hchange.locks hvalid (inRange_of_stateAt hold) hlocks
        (fun htype hparty => hkept htype ⟨hsame, hparty⟩)
        (fun htype => hunstake htype old hold) (fun htype => hundelegate htype old hold)⟩
    · obtain ⟨old, hold, hlocks⟩ := h.locked unbonding hwaits
      exact ⟨old, (if_neg hsame).trans hold, hlocks⟩
  -- all instructions but a delegator's withdrawal leave what waits locked
  have hsame : instruction.type ≠ .withdrawDelegation →
      Tracked { log with accounts := accounts } := fun htype =>
    ⟨h.enforced, fun unbonding hwaits => hlocked unbonding hwaits (absurd · htype)⟩
  unfold record
  split
  · next htype =>
    obtain ⟨old, hold⟩ := hchanges.change.exists_before (by simp [htype])
    have hchange := hold ▸ hchanges.change
    exact (hsame (by simp [htype])).begin (hlater (.inl htype))
      ⟨state, hnew, hchange.unstake_locks htype⟩
  · next htype =>
    obtain ⟨old, hold⟩ := hchanges.change.exists_before (by simp [htype])
    have hchange := hold ▸ hchanges.change
    exact (hsame (by simp [htype])).begin (hlater (.inr htype))
      ⟨state, hnew, hchange.undelegate_locks hvalid (inRange_of_stateAt hold) htype⟩
  · next htype =>
    refine ⟨Enforced.withdraw (hsame (by simp [htype])).enforced ?_, ?_⟩
    · intro unbonding hwaits hvalidator _
      obtain ⟨old, hold, hchange, hlocks⟩ := hmeets hwaits hvalidator
      have hstaker := (hchange.withdrawUnstaked_epoch htype).trans (hreached (.inl htype))
      exact hlocks.le_of_unlocked hstaker (hwhole htype old hold)
    · intro unbonding hkept
      exact (hsame (by simp [htype])).locked unbonding (mem_of_mem_filter hkept)
  · next htype =>
    have henforced : Enforced { log with accounts := accounts } := h.enforced
    refine ⟨henforced.withdraw ?_, ?_⟩
    · intro unbonding hwaits hvalidator hpaid
      obtain ⟨old, hold, hchange, hlocks⟩ := hmeets hwaits hvalidator
      rcases hpaid with hothers | hparty
      · rw [bucketShortAt, hold] at hothers
        obtain ⟨hstaker, hunlocked⟩ := hshort htype old hold hothers
        exact hlocks.le_of_unlocked hstaker hunlocked
      · rw [hparty] at hlocks
        exact (hchange.withdrawDelegation_epoch htype hlocks).trans (hreached (.inr htype))
    · intro unbonding hkept
      obtain ⟨hwaits, hother⟩ := mem_filter.mp hkept
      exact hlocked unbonding hwaits fun _ => of_decide_eq_true hother
  · next hwithdraw => exact hsame hwithdraw

end UnbondingLog

end Ordexus.Stake
