import Ordexus.Programs.StakeTransitions

/-!
# Maturing stake

Pending stake that is due becomes active, and a validator whose jail has ended is set free. The
state that is left is a valid one again, and maturing it once more changes nothing, unless the
validator was set free on the strength of stake that is unlocking: such stake counts in the
current epoch, but the minimum for an active validator leaves it out.
-/

namespace Ordexus.Stake

open Checked Borsh List Stake.ValidatorState

variable {epochID later : ℕ} {state activated matured : ValidatorState}

/-! ### Delegations -/

/-- Maturation keeps what the field checks read of a delegation, and is done at once. -/
theorem DelegationState.mature_checks {delegation next : DelegationState}
    (h : delegation.mature epochID = .ok next) :
    next.delegatorAccount = delegation.delegatorAccount ∧
      next.totalStake = delegation.totalStake ∧
      next.rewardLamports = delegation.rewardLamports ∧ next.mature epochID = .ok next := by
  obtain rfl | ⟨-, hfits, rfl⟩ := DelegationState.mature_eq_ok h
  · exact ⟨rfl, rfl, rfl, h⟩
  · refine ⟨rfl, ?_, rfl, if_pos (.inl rfl)⟩
    have hfirst {message : String} := (@checkedAdd_eq_ok message _ _ _).mpr ⟨hfits, rfl⟩
    have hsecond {message : String} (sum : ℕ) : checkedAdd message sum 0 = .ok sum :=
      checkedAdd_eq_ok.mpr ⟨Nat.zero_le _, rfl⟩
    simp only [totalStake, hfirst, hsecond]

/-- One step of `totalDelegatedStake`. -/
private def addTotalStake (total : ℕ) (delegation : DelegationState) : Except String ℕ := do
  let delegationTotal ← delegation.totalStake
  checkedAdd "stake: delegated stake overflow" total delegationTotal

/-- So do the checks of a list. -/
theorem mature_delegations {before after : List DelegationState}
    (h : Forall₂ (fun delegation next => delegation.mature epochID = .ok next) before after) :
    (∀ seen, validateDelegationsFrom seen after = validateDelegationsFrom seen before) ∧
      (∀ total, after.foldlM addTotalStake total = before.foldlM addTotalStake total) ∧
      after.map DelegationState.rewardLamports = before.map DelegationState.rewardLamports ∧
      (after.mapM fun delegation => delegation.mature epochID) = .ok after := by
  induction h with
  | nil => exact ⟨fun _ => rfl, fun _ => rfl, rfl, rfl⟩
  | cons hhead _ ih =>
    obtain ⟨haccount, htotal, hreward, hagain⟩ := DelegationState.mature_checks hhead
    obtain ⟨hchecks, htotals, hrewards, hmatured⟩ := ih
    refine ⟨fun seen => ?_, fun total => ?_, ?_, ?_⟩
    · simp only [validateDelegationsFrom, haccount, htotal, hchecks]
    · simp only [foldlM_cons, addTotalStake, htotal, htotals]
    · rw [map_cons, map_cons, hreward, hrewards]
    · rw [mapM_cons, hagain, hmatured]
      rfl

/-! ### States -/

/-- A validator whose jail has ended is set free if it has the minimum stake. -/
def ValidatorState.Released (state : ValidatorState) (epochID : ℕ) : Prop :=
  state.status = .jailed ∧ state.jailUntilEpoch ≤ epochID ∧
    minimumStakeLamports ≤ state.effectiveLamports epochID

instance : Decidable (state.Released epochID) :=
  inferInstanceAs (Decidable (_ ∧ _))

/-- All stake that is due in the epoch has become active, and a validator may have been set
free. -/
structure ValidatorState.MaturesAt (epochID : ℕ) (before after : ValidatorState) : Prop where
  rest : after = { before with
    activeStake := after.activeStake
    pendingStake := after.pendingStake
    activationEpoch := after.activationEpoch
    delegations := after.delegations
    status := after.status
    lastEffectiveStake := after.lastEffectiveStake }
  bonded : after.activeStake + after.pendingStake = before.activeStake + before.pendingStake
  fits : before.pendingStake ≤ maxUint64 - before.activeStake →
    after.pendingStake ≤ maxUint64 - after.activeStake
  waits : ¬(0 < after.pendingStake ∧ after.activationEpoch ≤ epochID)
  counted : ∀ later, epochID ≤ later → after.countedStake later = before.countedStake later
  delegations : List.Forall₂ (fun delegation next => delegation.mature epochID = .ok next)
    before.delegations after.delegations
  status : after.status = if before.Released epochID then .active else before.status
  lastEffectiveStake : after.lastEffectiveStake = before.effectiveLamports epochID

namespace ValidatorState.MaturesAt

section

variable (h : state.MaturesAt epochID matured)
include h

/-- What counts from the epoch on does not change. -/
theorem effectiveLamports (hlater : epochID ≤ later) :
    matured.effectiveLamports later = state.effectiveLamports later := by
  have hdeactivation : matured.deactivationEpoch = state.deactivationEpoch :=
    congrArg (·.deactivationEpoch) h.rest
  have hjail : matured.jailUntilEpoch = state.jailUntilEpoch := congrArg (·.jailUntilEpoch) h.rest
  rw [ValidatorState.effectiveLamports, ValidatorState.effectiveLamports, h.counted later hlater,
    hdeactivation, hjail, h.status]
  by_cases hreleased : state.Released epochID
  · have hended : ¬later < state.jailUntilEpoch := not_lt.mpr (hreleased.2.1.trans hlater)
    simp [hreleased, hreleased.1, hended]
  · rw [if_neg hreleased]

/-- The field checks see sums, and the minimum if the validator is active. -/
theorem validateFields_iff {check : Bool} (hvalid : state.validateFields false = .ok ()) :
    matured.validateFields check = .ok () ↔
      ¬(state.Released epochID ∧
        state.activeStake + state.pendingStake < minimumStakeLamports) := by
  have hbonded := h.bonded
  constructor
  · rintro hmatured ⟨hreleased, hbelow⟩
    simp only [validateFields, eq_ok] at hmatured
    obtain ⟨-, -, -, -, -, -, -, hleast, -⟩ := hmatured
    exact hleast ⟨hbonded.trans_lt hbelow, h.status.trans (if_pos hreleased)⟩
  intro hleast
  have hlast : matured.lastEffectiveStake ≤
      state.activeStake + state.pendingStake + state.unlockingStake :=
    h.lastEffectiveStake.trans_le (state.effectiveLamports_le epochID)
  obtain ⟨hchecks, htotals, hrewards, -⟩ := mature_delegations h.delegations
  simp only [validateFields, validateDelegations, totalDelegatedStake,
    rewardBreakdownLamports, totalDelegationRewards, eq_ok] at hvalid
  obtain ⟨hconsensus, hbls, hstaker, hpeer, hcommission, hpending, hunlocking, hminimum, total,
    htotal, -, ⟨hcount, hlist⟩, delegated, hdelegated, hcovered, rewards, hbreakdown, hpaid,
    hknown⟩ := hvalid
  have hfits := h.fits (not_lt.mp hpending)
  obtain ⟨-, rfl⟩ := checkedAdd_eq_ok.mp htotal
  rw [h.rest]
  simp only [validateFields, validateDelegations, totalDelegatedStake,
    rewardBreakdownLamports, totalDelegationRewards, eq_ok, hbonded, hchecks, hrewards]
  refine ⟨hconsensus, hbls, hstaker, hpeer, hcommission, not_lt.mpr hfits, by omega, ?_, _, htotal,
    fun hlow => absurd hlow.2 (not_lt.mpr hlast), ⟨?_, hlist⟩, delegated,
    (htotals 0).trans hdelegated, hcovered, rewards, hbreakdown, hpaid, ?_⟩
  · rintro ⟨hbelow, hactive⟩
    rw [h.status] at hactive
    split at hactive
    · next hreleased => exact hleast ⟨hreleased, hbelow⟩
    · exact hminimum ⟨hbelow, hactive⟩
  · rwa [← h.delegations.length_eq]
  · rw [h.status]
    split
    · simp
    · exact hknown

theorem again (hvalid : matured.validateFields false = .ok ()) :
    matureStakeForEpoch matured epochID = .ok matured := by
  obtain ⟨-, -, -, hdelegations⟩ := mature_delegations h.delegations
  have hactivated : matured.activateDue epochID = .ok matured := by
    unfold activateDue
    rw [if_neg h.waits]
    exact bind_eq_ok.mpr ⟨_, rfl, bind_eq_ok.mpr ⟨_, hdelegations, rfl⟩⟩
  have hrefreshed : matured.withEffectiveStake epochID = .ok matured := by
    refine bind_eq_ok.mpr ⟨_, effectiveStakeAtEpoch_of_valid hvalid, ?_⟩
    rw [h.effectiveLamports le_rfl, ← h.lastEffectiveStake]
    rfl
  have hkept : ¬(matured.status = .jailed ∧ matured.jailUntilEpoch ≤ epochID ∧
      minimumStakeLamports ≤ matured.lastEffectiveStake) := by
    rintro ⟨hjailed, huntil, hleast⟩
    have hjail : matured.jailUntilEpoch = state.jailUntilEpoch := congrArg (·.jailUntilEpoch) h.rest
    rw [hjail] at huntil
    rw [h.lastEffectiveStake] at hleast
    rw [h.status] at hjailed
    split at hjailed
    · cases hjailed
    · next hheld => exact hheld ⟨hjailed, huntil, hleast⟩
  refine bind_eq_ok.mpr ⟨_, hactivated, bind_eq_ok.mpr ⟨_, hrefreshed, ?_⟩⟩
  rw [if_neg hkept]
  rfl

end

/-- The last step of maturation, as a change of one field. -/
theorem release_eq {condition : Prop} [Decidable condition] :
    (if condition then { state with status := .active } else state) =
      { state with status := if condition then .active else state.status } := by
  split
  all_goals rfl

theorem of_matureStakeForEpoch (h : matureStakeForEpoch state epochID = .ok matured) :
    state.MaturesAt epochID matured := by
  simp only [matureStakeForEpoch, eq_ok] at h
  obtain ⟨activated, hactivated, refreshed, hrefreshed, rfl⟩ := h
  obtain ⟨rfl, -⟩ := withEffectiveStake_eq_ok hrefreshed
  have heffective : activated.effectiveLamports epochID = state.effectiveLamports epochID := by
    obtain ⟨_, -, ⟨⟨-, hdue⟩, -, rfl⟩ | ⟨-, rfl⟩⟩ := activateDue_eq_ok hactivated
    · simp only [ValidatorState.effectiveLamports, countedStake, hdue, if_true, ite_self,
        Nat.add_zero, Nat.add_right_comm]
    · rfl
  rw [release_eq, heffective]
  obtain ⟨delegations, hdelegations, ⟨⟨-, hdue⟩, hfits, rfl⟩ | ⟨hwaits, rfl⟩⟩ :=
    activateDue_eq_ok hactivated
  · refine ⟨rfl, rfl, fun _ => Nat.zero_le _, by simp, fun later hlater => ?_, hdelegations, rfl,
      rfl⟩
    simp only [countedStake, hdue.trans hlater, if_true, ite_self, Nat.add_zero, Nat.add_right_comm]
  · exact ⟨rfl, rfl, id, hwaits, fun _ _ => rfl, hdelegations, rfl, rfl⟩

end ValidatorState.MaturesAt

/-! ### What a maturation leaves valid -/

theorem ValidatorState.validateFields_of_validate (h : state.validate = .ok ()) :
    state.validateFields false = .ok () := by
  simp only [validate, validateFields, eq_ok] at h ⊢
  obtain ⟨hconsensus, hbls, hstaker, hpeer, hcommission, hpending, hunlocking, hminimum, total,
    htotal, -, hrest⟩ := h
  exact ⟨hconsensus, hbls, hstaker, hpeer, hcommission, hpending, hunlocking, hminimum, total,
    htotal, by simp, hrest⟩

/-- A valid state can be encoded if its peer id is a text. -/
theorem ValidatorState.exists_marshalBinary_iff (h : state.validate = .ok ()) :
    (∃ data, state.marshalBinary = .ok data) ↔ validUTF8 state.p2pPeerID = true := by
  have hvalid := h
  simp only [validate, validateFields, eq_ok] at h
  obtain ⟨-, hbls, -, hpeer, -⟩ := h
  unfold maxBLSPublicKeyBytes at hbls
  unfold maxPeerIDLength at hpeer
  constructor
  · rintro ⟨data, hdata⟩
    simp only [marshalBinary, writeString, eq_ok] at hdata
    obtain ⟨-, _, ⟨htext, -⟩, -⟩ := hdata
    simpa using htext
  · intro htext
    simp only [marshalBinary, writeString, writeBytes, eq_ok]
    exact ⟨_, hvalid, _, ⟨by simp [htext], by unfold maxStakeStateBytes; omega, rfl⟩, _,
      ⟨by unfold maxStakeStateBytes; omega, rfl⟩, rfl⟩

/-- A valid state matures to a valid state with the same stake. -/
structure KeepsStateValid (epochID : ℕ) (state matured : ValidatorState) : Prop where
  valid : matured.validate = .ok ()
  encodes : ∃ data, matured.marshalBinary = .ok data
  bonded : matured.activeStake + matured.pendingStake = state.activeStake + state.pendingStake
  delegations : List.Forall₂ (fun before after : DelegationState =>
    after.delegatorAccount = before.delegatorAccount ∧
      after.activeStake + after.pendingStake = before.activeStake + before.pendingStake)
    state.delegations matured.delegations
  again : matureStakeForEpoch matured epochID = .ok matured
  effective : ∀ later, epochID ≤ later →
    effectiveStakeAtEpoch matured later = effectiveStakeAtEpoch state later

/-- A maturation keeps a state valid if and only if the peer id is a text and no validator is set
free whose active and pending stake is below the minimum. -/
theorem maturation_keeps_state_valid_iff (state matured : ValidatorState) (epochID : ℕ)
    (hvalid : state.validate = .ok ()) (h : matureStakeForEpoch state epochID = .ok matured) :
    KeepsStateValid epochID state matured ↔
      validUTF8 state.p2pPeerID = true ∧
        ¬(state.Released epochID ∧
          state.activeStake + state.pendingStake < minimumStakeLamports) := by
  have hmatures := MaturesAt.of_matureStakeForEpoch h
  have hfields := validateFields_of_validate hvalid
  have hpeer : matured.p2pPeerID = state.p2pPeerID := congrArg (·.p2pPeerID) hmatures.rest
  rw [← hpeer]
  constructor
  · intro hkeeps
    exact ⟨(exists_marshalBinary_iff hkeeps.valid).mp hkeeps.encodes,
      (hmatures.validateFields_iff hfields).mp hkeeps.valid⟩
  · rintro ⟨htext, hleast⟩
    have hchecked {check : Bool} : matured.validateFields check = .ok () :=
      (hmatures.validateFields_iff hfields).mpr hleast
    refine ⟨hchecked, (exists_marshalBinary_iff hchecked).mpr htext,
      hmatures.bonded, hmatures.delegations.imp fun _ _ hdelegation => ?_,
      hmatures.again hchecked, fun later hlater => ?_⟩
    · have hkept := DelegationState.Matures.of_mature hdelegation
      exact ⟨hkept.delegatorAccount, hkept.bonded⟩
    · rw [effectiveStakeAtEpoch_of_valid hchecked, effectiveStakeAtEpoch_of_valid hfields,
        hmatures.effectiveLamports hlater]

/-- A validator with half of its stake unlocking, jailed until epoch 3. -/
def unlockingValidator : ValidatorState :=
  { zero with
    consensusPublicKey := 1
    stakerAccount := 2
    p2pPeerID := [112]
    activeStake := 5000000
    unlockingStake := 5000000
    status := .jailed
    jailUntilEpoch := 3
    deactivationEpoch := 6 }

theorem maturation_keeps_staked_validator_valid :
    ∃ matured, matureStakeForEpoch { unlockingValidator with activeStake := 10000000 } 5 =
        .ok matured ∧
      KeepsStateValid 5 { unlockingValidator with activeStake := 10000000 } matured :=
  ⟨_, rfl, (maturation_keeps_state_valid_iff _ _ 5 rfl rfl).mpr ⟨by decide, by decide⟩⟩

/-- In epoch 5 the validator is set free, and its state is refused from then on. -/
theorem matured_validator_refused :
    unlockingValidator.validate = .ok () ∧
      matureStakeForEpoch unlockingValidator 5 =
        .ok { unlockingValidator with status := .active, lastEffectiveStake := 10000000 } ∧
      { unlockingValidator with status := .active, lastEffectiveStake := 10000000 }.validate =
        .error "stake: active validator stake below minimum" :=
  ⟨rfl, rfl, rfl⟩

end Ordexus.Stake
