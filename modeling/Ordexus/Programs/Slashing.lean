import Mathlib.Algebra.Order.BigOperators.Group.List
import Ordexus.Programs.StakeTransitions

/-!
# Slashing

A slash takes its amount from the pending, the active and the unlocking stake of a validator, in
this order, and in each bucket from the delegations before the validator's own part. Where no
bucket of the delegations exceeds that of the validator, a slash up to the whole stake succeeds,
the clean-up that follows has nothing to trim, and two slashes take what one of their sum takes.
-/

namespace Ordexus.Stake

open Checked Borsh List Stake.ValidatorState

variable {bucket : StakeSlashBucket} {delegation lower : DelegationState}
  {delegations lowered : List DelegationState} {state next : ValidatorState} {value amount : ℕ}

/-- All stake of a validator, delegations included. -/
def ValidatorState.bonded (state : ValidatorState) : ℕ :=
  state.activeStake + state.pendingStake + state.unlockingStake

/-- What the delegations have in a bucket. -/
def delegated (bucket : StakeSlashBucket) (delegations : List DelegationState) : ℕ :=
  (delegations.map bucket.delegationBucketValue).sum

/-- No bucket of the delegations exceeds that of the validator. -/
def ValidatorState.Covered (state : ValidatorState) : Prop :=
  ∀ bucket : StakeSlashBucket,
    delegated bucket state.delegations ≤ bucket.validatorBucketValue state

/-! ### States with less stake -/

/-- The same delegator with no more in any bucket. -/
structure DelegationState.Lowers (before after : DelegationState) : Prop where
  delegatorAccount : after.delegatorAccount = before.delegatorAccount
  value : ∀ bucket : StakeSlashBucket,
    bucket.delegationBucketValue after ≤ bucket.delegationBucketValue before
  inRange : before.InRange → after.InRange

theorem DelegationState.Lowers.refl (delegation : DelegationState) : delegation.Lowers delegation :=
  ⟨rfl, fun _ => le_rfl, id⟩

theorem DelegationState.Lowers.set (h : value ≤ bucket.delegationBucketValue delegation) :
    delegation.Lowers (bucket.setDelegationBucketValue delegation value) := by
  refine ⟨by cases bucket <;> rfl, fun other => ?_, fun hrange => ?_⟩
  · cases bucket <;> cases other <;> first | exact h | exact le_rfl
  · cases bucket
    · exact { hrange with pendingStake := h.trans_lt hrange.pendingStake }
    · exact { hrange with activeStake := h.trans_lt hrange.activeStake }
    · exact { hrange with unlockingStake := h.trans_lt hrange.unlockingStake }

/-- A validator with no more in any bucket, none of whose delegators has more. -/
structure ValidatorState.Lowers (before after : ValidatorState) : Prop where
  value : ∀ bucket : StakeSlashBucket,
    bucket.validatorBucketValue after ≤ bucket.validatorBucketValue before
  delegations : ∀ next ∈ after.delegations, ∃ delegation ∈ before.delegations,
    delegation.Lowers next
  inRange : before.InRange → after.InRange

namespace ValidatorState.Lowers

theorem trans {first second third : ValidatorState} (hfirst : first.Lowers second)
    (hsecond : second.Lowers third) : first.Lowers third := by
  refine ⟨fun bucket => (hsecond.value bucket).trans (hfirst.value bucket), fun next hnext => ?_,
    fun hrange => hsecond.inRange (hfirst.inRange hrange)⟩
  obtain ⟨middle, hmiddle, hlast⟩ := hsecond.delegations next hnext
  obtain ⟨delegation, hdelegation, hlower⟩ := hfirst.delegations middle hmiddle
  exact ⟨delegation, hdelegation, hlast.delegatorAccount.trans hlower.delegatorAccount,
    fun bucket => (hlast.value bucket).trans (hlower.value bucket),
    fun hrange => hlast.inRange (hlower.inRange hrange)⟩

theorem withDelegations
    (h : ∀ next ∈ lowered, ∃ delegation ∈ state.delegations, delegation.Lowers next) :
    state.Lowers { state with delegations := lowered } := by
  refine ⟨fun bucket => by cases bucket <;> exact le_rfl, h, fun hrange => { hrange with
    delegations := fun next hnext => ?_ }⟩
  obtain ⟨delegation, hdelegation, hlower⟩ := h next hnext
  exact hlower.inRange (hrange.delegations delegation hdelegation)

theorem compact (state : ValidatorState) :
    state.Lowers { state with delegations := compactDelegations state.delegations } :=
  withDelegations fun next hnext => ⟨next, mem_of_mem_filter hnext, .refl next⟩

theorem capped {last : ℕ} (h : last ≤ state.lastEffectiveStake) :
    state.Lowers { state with lastEffectiveStake := last } :=
  ⟨fun bucket => by cases bucket <;> exact le_rfl, fun next hnext => ⟨next, hnext, .refl next⟩,
    fun hrange => { hrange with
      lastEffectiveStake := h.trans_lt hrange.lastEffectiveStake }⟩

theorem set (h : value ≤ bucket.validatorBucketValue state) :
    state.Lowers (bucket.setValidatorBucketValue state value) := by
  refine ⟨fun other => ?_, fun next hnext => ⟨next, ?_, .refl next⟩, fun hrange => ?_⟩
  · cases bucket <;> cases other <;> first | exact h | exact le_rfl
  · cases bucket <;> exact hnext
  · cases bucket
    · exact { hrange with pendingStake := h.trans_lt hrange.pendingStake }
    · exact { hrange with activeStake := h.trans_lt hrange.activeStake }
    · exact { hrange with unlockingStake := h.trans_lt hrange.unlockingStake }

end ValidatorState.Lowers

/-! ### The passes -/

/-- The delegations pay what they have in the bucket, in their order, until nothing is left to
pay. -/
theorem slashDelegations_spec {paid : List DelegationState} {available remaining left unpaid : ℕ}
    (h : slashDelegations bucket delegations available remaining = (paid, left, unpaid)) :
    Forall₂ DelegationState.Lowers delegations paid ∧ left ≤ available ∧
      left + remaining = available + unpaid ∧
      (delegated bucket delegations ≤ available →
        delegated bucket paid + remaining = delegated bucket delegations + unpaid ∧
          (unpaid = 0 ∨ delegated bucket paid = 0)) := by
  induction delegations generalizing available remaining paid left unpaid with
  | nil =>
    cases h
    exact ⟨.nil, le_rfl, rfl, fun _ => ⟨rfl, .inr rfl⟩⟩
  | cons delegation delegations ih =>
    simp only [slashDelegations] at h
    generalize hslashed : min remaining (min (bucket.delegationBucketValue delegation) available) =
      slashed at h
    cases hrest : slashDelegations bucket delegations (available - slashed)
      (remaining - slashed) with
    | mk rest result =>
      rw [hrest] at h
      cases h
      obtain ⟨hlowers, hleft, htotal, hpaid⟩ := ih hrest
      have hvalue : bucket.delegationBucketValue (bucket.setDelegationBucketValue delegation
          (bucket.delegationBucketValue delegation - slashed)) =
            bucket.delegationBucketValue delegation - slashed := by
        cases bucket <;> rfl
      dsimp only
      refine ⟨.cons (.set (Nat.sub_le _ _)) hlowers, by omega, by omega, fun hcovered => ?_⟩
      simp only [delegated, map_cons, sum_cons, hvalue] at hcovered hpaid ⊢
      have hrestPaid := hpaid (by omega)
      omega

/-- A pass over the bucket takes what is asked for as far as the validator has it. -/
theorem slashStakeBucket_spec (bucket : StakeSlashBucket) (state : ValidatorState)
    (remaining : ℕ) :
    (slashStakeBucket bucket state remaining).2 =
        remaining - bucket.validatorBucketValue state ∧
      ∃ paid, Forall₂ DelegationState.Lowers state.delegations paid ∧
        (slashStakeBucket bucket state remaining).1 =
          bucket.setValidatorBucketValue { state with delegations := paid }
            (bucket.validatorBucketValue state - remaining) ∧
        (delegated bucket state.delegations ≤ bucket.validatorBucketValue state →
          delegated bucket paid ≤ bucket.validatorBucketValue state - remaining) := by
  unfold slashStakeBucket
  cases hslashed : slashDelegations bucket state.delegations (bucket.validatorBucketValue state)
    remaining with
  | mk paid result =>
    obtain ⟨hlowers, hleft, htotal, hpaid⟩ := slashDelegations_spec hslashed
    dsimp only
    refine ⟨by omega, paid, hlowers, ?_, fun hcovered => ?_⟩
    · congr 1
      omega
    · omega

theorem ValidatorState.Lowers.slashStakeBucket (bucket : StakeSlashBucket)
    (state : ValidatorState) (remaining : ℕ) :
    state.Lowers (slashStakeBucket bucket state remaining).1 := by
  obtain ⟨-, paid, hlowers, heq, -⟩ := slashStakeBucket_spec bucket state remaining
  rw [heq]
  refine (withDelegations fun next hnext => exists_of_mem_forall₂ hlowers hnext).trans (.set ?_)
  cases bucket <;> exact Nat.sub_le _ _

theorem trimDelegations_lowers (excess : ℕ) : Forall₂ DelegationState.Lowers delegations
    (trimDelegations bucket delegations excess) := by
  induction delegations generalizing excess with
  | nil => exact .nil
  | cons delegation delegations ih => exact .cons (.set (Nat.sub_le _ _)) (ih _)

theorem ValidatorState.Lowers.trimExcess (bucket : StakeSlashBucket) (state : ValidatorState) :
    state.Lowers (trimExcessDelegationBucket bucket state).1 := by
  unfold trimExcessDelegationBucket
  dsimp only
  split
  · exact capped le_rfl
  · exact withDelegations fun next hnext =>
      exists_of_mem_forall₂ (trimDelegations_lowers _) hnext

/-- The end of `normalizeDelegationBuckets`: the recorded stake is not more than there is. -/
theorem lowers_of_capped {compacted : ValidatorState} {total : ℕ} {changed reported : Bool}
    (hcompacted : state.Lowers compacted)
    (h : (if total < compacted.lastEffectiveStake then
        pure ({ compacted with lastEffectiveStake := total }, true)
      else pure (compacted, changed) : Except String _) = .ok (next, reported)) :
    state.Lowers next := by
  split at h
  · next hlower =>
    cases h
    exact hcompacted.trans (.capped hlower.le)
  · cases h
    exact hcompacted

theorem ValidatorState.Lowers.normalize {changed : Bool}
    (h : normalizeDelegationBuckets state = .ok (next, changed)) : state.Lowers next := by
  simp only [normalizeDelegationBuckets, eq_ok] at h
  obtain ⟨-, total, -, h⟩ := h
  have htrimmed := ((trimExcess .pending state).trans (trimExcess .active _)).trans
    (trimExcess .unlocking _)
  refine lowers_of_capped ?_ h
  split
  · exact htrimmed.trans (compact _)
  · exact htrimmed

theorem applySlash_lowers (h : applySlash state amount = .ok next) : state.Lowers next := by
  simp only [applySlash, eq_ok] at h
  obtain ⟨-, -, -, -, ⟨normalized, _⟩, hnormalized, remaining, -, rfl⟩ := h
  exact ((((Lowers.slashStakeBucket .pending state amount).trans
    (.slashStakeBucket .active _ _)).trans (.slashStakeBucket .unlocking _ _)).trans
    (.compact _)).trans ((Lowers.normalize hnormalized).trans
      (.capped (min_le_left _ _)))

/-! ### The delegations stay valid -/

theorem DelegationState.Lowers.exists_totalStake {total : ℕ} (h : delegation.Lowers lower)
    (htotal : delegation.totalStake = .ok total) : ∃ total, lower.totalStake = .ok total := by
  have hpending : lower.pendingStake ≤ delegation.pendingStake := h.value .pending
  have hactive : lower.activeStake ≤ delegation.activeStake := h.value .active
  have hunlocking : lower.unlockingStake ≤ delegation.unlockingStake := h.value .unlocking
  simp only [totalStake, eq_ok, checkedAdd_eq_ok] at htotal ⊢
  exact ⟨_, _, ⟨by omega, rfl⟩, by omega, rfl⟩

theorem validateDelegations_lowers (h : Forall₂ DelegationState.Lowers delegations lowered)
    (hvalid : validateDelegations delegations = .ok ()) :
    validateDelegations lowered = .ok () := by
  simp only [validateDelegations, eq_ok] at hvalid ⊢
  rw [← h.length_eq]
  refine ⟨hvalid.1, ?_⟩
  obtain ⟨-, hvalid⟩ := hvalid
  generalize [] = seen at hvalid ⊢
  induction h generalizing seen with
  | nil => exact hvalid
  | cons hhead _ ih =>
    simp only [validateDelegationsFrom, eq_ok, hhead.delegatorAccount] at hvalid ⊢
    obtain ⟨hzero, hnew, total, htotal, hrest⟩ := hvalid
    obtain ⟨lower, hlower⟩ := hhead.exists_totalStake htotal
    exact ⟨hzero, hnew, lower, hlower, ih _ hrest⟩

theorem validateDelegationsFrom_filter {seen fewer : List PublicKey} {keep : DelegationState → Bool}
    (hvalid : validateDelegationsFrom seen delegations = .ok ()) (hfewer : fewer ⊆ seen) :
    validateDelegationsFrom fewer (delegations.filter keep) = .ok () := by
  induction delegations generalizing seen fewer with
  | nil => rfl
  | cons delegation delegations ih =>
    simp only [validateDelegationsFrom, eq_ok] at hvalid
    obtain ⟨hzero, hnew, total, htotal, hrest⟩ := hvalid
    rw [filter_cons]
    split
    · simp only [validateDelegationsFrom, eq_ok]
      exact ⟨hzero, fun hmem => hnew (hfewer hmem), total, htotal,
        ih hrest (cons_subset_cons _ hfewer)⟩
    · exact ih hrest fun key hkey => mem_cons_of_mem _ (hfewer hkey)

theorem delegated_le (h : Forall₂ DelegationState.Lowers delegations lowered)
    (bucket : StakeSlashBucket) : delegated bucket lowered ≤ delegated bucket delegations := by
  induction h with
  | nil => exact le_rfl
  | cons hhead _ ih => exact Nat.add_le_add (hhead.value bucket) ih

/-! ### States that can be slashed -/

/-- What the field checks say of the stake, and the delegations are covered. -/
structure Slashable (state : ValidatorState) : Prop where
  fits : state.pendingStake ≤ maxUint64 - state.activeStake ∧
    state.unlockingStake ≤ maxUint64 - (state.activeStake + state.pendingStake)
  valid : validateDelegations state.delegations = .ok ()
  covered : state.Covered

namespace Slashable

variable (h : Slashable state)
include h

theorem lowers (hlowers : state.Lowers next)
    (hvalid : validateDelegations next.delegations = .ok ()) (hcovered : next.Covered) :
    Slashable next := by
  have hpending : next.pendingStake ≤ state.pendingStake := hlowers.value .pending
  have hactive : next.activeStake ≤ state.activeStake := hlowers.value .active
  have hunlocking : next.unlockingStake ≤ state.unlockingStake := hlowers.value .unlocking
  have hfits := h.fits
  exact ⟨⟨by omega, by omega⟩, hvalid, hcovered⟩

theorem pass (bucket : StakeSlashBucket) (remaining : ℕ) :
    ∃ next, slashStakeBucket bucket state remaining =
        (next, remaining - bucket.validatorBucketValue state) ∧ Slashable next ∧
      ∀ other : StakeSlashBucket, other.validatorBucketValue next =
        if other = bucket then other.validatorBucketValue state - remaining
        else other.validatorBucketValue state := by
  obtain ⟨hrest, paid, hpaid, heq, hcovered⟩ := slashStakeBucket_spec bucket state remaining
  have hlowers := Lowers.slashStakeBucket bucket state remaining
  rw [heq] at hlowers
  refine ⟨_, Prod.ext heq hrest, h.lowers hlowers ?_ fun other => ?_, fun other => ?_⟩
  · cases bucket <;> exact validateDelegations_lowers hpaid h.valid
  · have hown := hcovered (h.covered bucket)
    have hother := (delegated_le hpaid other).trans (h.covered other)
    cases bucket <;> cases other <;> first | exact hown | exact hother
  · cases bucket <;> cases other <;> rfl

theorem compact : Slashable { state with delegations := compactDelegations state.delegations } := by
  refine h.lowers (.compact state) ?_ fun bucket => ?_
  · have hvalid := h.valid
    simp only [validateDelegations, eq_ok, not_lt] at hvalid ⊢
    exact ⟨(length_filter_le _ _).trans hvalid.1,
      validateDelegationsFrom_filter hvalid.2 (Subset.refl _)⟩
  · have hsublist : (compactDelegations state.delegations).Sublist state.delegations :=
      filter_sublist
    have hcovered := h.covered bucket
    cases bucket <;> exact ((hsublist.map _).sum_le_sum fun _ _ => Nat.zero_le _).trans hcovered

theorem exists_total (message : String) : validatorTotalStake message state =
    .ok (state.activeStake + state.pendingStake + state.unlockingStake) := by
  simp only [validatorTotalStake, eq_ok, checkedAdd_eq_ok]
  exact ⟨_, ⟨h.fits.1, rfl⟩, h.fits.2, rfl⟩

end Slashable

theorem lt_of_checkedSum {message error : String} {start : ℕ} {values : List ℕ}
    (h : checkedSum message start values = .error error) : maxUint64 < start + values.sum := by
  induction values generalizing start with
  | nil => cases h
  | cons value values ih =>
    rw [sum_cons]
    by_cases hbad : maxUint64 - start < value
    · omega
    · simp only [checkedSum, failIf, if_neg hbad, Bind.bind, Except.bind] at h
      have hrest := ih h
      omega

/-- There is nothing to trim. -/
theorem Slashable.trimExcess (h : Slashable state) (bucket : StakeSlashBucket) :
    trimExcessDelegationBucket bucket state = (state, false) := by
  refine if_pos (le_trans ?_ (h.covered bucket))
  unfold delegatedBucketValue
  split
  · next hsum => exact (checkedSum_eq hsum).trans_le (Nat.zero_add _).le
  · next hsum => exact (lt_of_checkedSum hsum).le.trans (Nat.zero_add _).le

theorem Slashable.normalize (h : Slashable state) :
    ∃ last changed, normalizeDelegationBuckets state =
      .ok ({ state with lastEffectiveStake := last }, changed) := by
  simp only [normalizeDelegationBuckets, h.trimExcess, Bool.or_self, Bool.false_eq_true, if_false,
    eq_ok]
  by_cases hlower : state.activeStake + state.pendingStake + state.unlockingStake <
    state.lastEffectiveStake
  · exact ⟨_, _, h.valid, _, h.exists_total _, if_pos hlower⟩
  · exact ⟨_, _, h.valid, _, h.exists_total _, if_neg hlower⟩

/-! ### A slash -/

/-- The stake in the three buckets after a slash. -/
structure Takes (amount : ℕ) (before after : ValidatorState) : Prop where
  pendingStake : after.pendingStake = before.pendingStake - amount
  activeStake : after.activeStake = before.activeStake - (amount - before.pendingStake)
  unlockingStake : after.unlockingStake =
    before.unlockingStake - (amount - before.pendingStake - before.activeStake)

theorem Takes.bonded (h : Takes amount state next) (hamount : amount ≤ state.bonded) :
    next.bonded + amount = state.bonded := by
  unfold ValidatorState.bonded at *
  rw [h.pendingStake, h.activeStake, h.unlockingStake]
  omega

/-- Two slashes take together what one of their sum takes. -/
theorem Takes.add {more : ℕ} {middle : ValidatorState} (h : Takes amount state middle)
    (hmore : Takes more middle next) : Takes (amount + more) state next := by
  obtain ⟨hpending, hactive, hunlocking⟩ := hmore
  rw [h.pendingStake] at hpending hactive hunlocking
  rw [h.activeStake] at hactive hunlocking
  rw [h.unlockingStake] at hunlocking
  exact ⟨by omega, by omega, by omega⟩

theorem Slashable.slash (h : Slashable state) (hamount : amount ≤ state.bonded) :
    ∃ next, applySlash state amount = .ok next ∧ Slashable next ∧ Takes amount state next := by
  obtain ⟨first, hfirst, hslashable, hvalue⟩ := h.pass .pending amount
  obtain ⟨second, hsecond, hslashable', hvalue'⟩ := hslashable.pass .active
    (amount - state.pendingStake)
  obtain ⟨third, hthird, hslashable'', hvalue''⟩ := hslashable'.pass .unlocking
    (amount - state.pendingStake - first.activeStake)
  obtain ⟨last, changed, hnormalized⟩ := hslashable''.compact.normalize
  have hactive : first.activeStake = state.activeStake := hvalue .active
  have hunlocking : second.unlockingStake = state.unlockingStake :=
    (hvalue' .unlocking).trans (hvalue .unlocking)
  have hpaid : ¬amount - state.pendingStake - first.activeStake - second.unlockingStake ≠ 0 := by
    unfold bonded at hamount
    omega
  have htakes : Takes amount state third :=
    ⟨(hvalue'' .pending).trans ((hvalue' .pending).trans (hvalue .pending)),
      (hvalue'' .active).trans ((hvalue' .active).trans (hactive ▸ rfl)),
      (hvalue'' .unlocking).trans (hactive ▸ hunlocking ▸ rfl)⟩
  have hcompact := hslashable''.compact
  refine ⟨{ third with
      delegations := compactDelegations third.delegations
      lastEffectiveStake := min last (third.activeStake + third.pendingStake +
        third.unlockingStake) }, ?_, { hcompact with covered := fun bucket => ?_ },
    { htakes with }⟩
  · simp only [applySlash, eq_ok, hfirst, hsecond, hthird, hnormalized,
      StakeSlashBucket.validatorBucketValue]
    exact ⟨_, h.exists_total _, not_lt.mpr hamount, hpaid, _, rfl, _,
      hcompact.exists_total _, rfl⟩
  · cases bucket <;> exact hcompact.covered _

/-- A slash up to the whole stake of a validator takes exactly its amount, the pending stake first
and the unlocking stake last. It raises nothing, the delegations stay covered, and it may as well
be made in two parts. -/
theorem slash_takes_exactly (state : ValidatorState) (amount : ℕ) (hvalid : state.validate = .ok ())
    (hcovered : state.Covered) (hamount : amount ≤ state.bonded) :
    ∃ next, applySlash state amount = .ok next ∧ next.bonded + amount = state.bonded ∧
      Takes amount state next ∧ state.Lowers next ∧ next.Covered ∧
      ∀ first second, first + second = amount → ∃ middle final,
        applySlash state first = .ok middle ∧ applySlash middle second = .ok final ∧
          ∀ bucket : StakeSlashBucket,
            bucket.validatorBucketValue final = bucket.validatorBucketValue next := by
  have hslashable : Slashable state := by
    simp only [validate, validateFields, eq_ok, not_lt] at hvalid
    obtain ⟨-, -, -, -, -, hpending, hunlocking, -, _, -, -, hdelegations, -⟩ := hvalid
    exact ⟨⟨hpending, by omega⟩, hdelegations, hcovered⟩
  obtain ⟨next, hnext, hkept, htakes⟩ := hslashable.slash hamount
  refine ⟨next, hnext, htakes.bonded hamount, htakes, applySlash_lowers hnext, hkept.covered, ?_⟩
  rintro first second rfl
  have hfirst : first ≤ state.bonded := (Nat.le_add_right _ _).trans hamount
  obtain ⟨middle, hmiddle, hagain, hless⟩ := hslashable.slash hfirst
  have hleft := hless.bonded hfirst
  obtain ⟨final, hfinal, -, hmore⟩ := hagain.slash (show second ≤ middle.bonded by omega)
  have htogether := hless.add hmore
  refine ⟨middle, final, hmiddle, hfinal, fun bucket => ?_⟩
  cases bucket
  · exact htogether.pendingStake.trans htakes.pendingStake.symm
  · exact htogether.activeStake.trans htakes.activeStake.symm
  · exact htogether.unlockingStake.trans htakes.unlockingStake.symm

/-- A validator with active stake of its own, of a delegator and unlocking stake. -/
def delegatedValidator : ValidatorState :=
  { zero with
    consensusPublicKey := 1
    stakerAccount := 2
    p2pPeerID := [112]
    status := .active
    activeStake := 20000000
    unlockingStake := 1000000
    delegations := [{ DelegationState.empty 3 with activeStake := 5000000 }] }

theorem delegated_validator_slashed :
    ∃ next, applySlash delegatedValidator 7000000 = .ok next ∧ next.bonded = 14000000 := by
  obtain ⟨next, hnext, hbonded, -⟩ := slash_takes_exactly delegatedValidator 7000000 rfl
    (fun bucket => by cases bucket <;> decide) (by decide)
  exact ⟨next, hnext, Nat.add_right_cancel hbonded⟩

end Ordexus.Stake
