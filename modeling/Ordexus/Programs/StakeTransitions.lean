import Ordexus.Programs.Stake

/-!
# Transitions of a validator state

What each change of a validator state does to its buckets and to the delegations, and
that a changed state still fits the account format, so that it is read back as written.
-/

namespace Ordexus.Stake

open Checked Borsh List ValidatorState

theorem wrapUint64_lt (value : ℕ) : wrapUint64 value < 256 ^ 8 :=
  Nat.mod_lt value (Nat.two_pow_pos 64)

/-! ### What a valid state satisfies -/

section

variable {state : ValidatorState} {check : Bool} {u : Unit}

theorem validateDelegationsFrom_totals {seen : List PublicKey}
    {delegations : List DelegationState} (h : validateDelegationsFrom seen delegations = .ok u) :
    ∀ delegation ∈ delegations, ∃ total, delegation.totalStake = .ok total := by
  induction delegations generalizing seen with
  | nil => simp
  | cons delegation delegations ih =>
    simp only [validateDelegationsFrom, eq_ok] at h
    obtain ⟨-, -, total, htotal, hrest⟩ := h
    exact forall_mem_cons.mpr ⟨⟨total, htotal⟩, ih hrest⟩

theorem validateDelegations_totals {delegations : List DelegationState}
    (h : validateDelegations delegations = .ok u) :
    ∀ delegation ∈ delegations, ∃ total, delegation.totalStake = .ok total := by
  simp only [validateDelegations, eq_ok] at h
  exact validateDelegationsFrom_totals h.2

/-- The three buckets together fit 64 bits. -/
theorem validateFields_bonded (hrange : state.activeStake < 256 ^ 8)
    (h : state.validateFields check = .ok u) :
    state.activeStake + state.pendingStake + state.unlockingStake ≤ maxUint64 := by
  simp only [validateFields, eq_ok, not_lt] at h
  unfold maxUint64 at *
  omega

end

/-! ### Maturation -/

variable {epochID : ℕ} {state : ValidatorState}

/-- Pending stake that is due has become active, or nothing was due. -/
theorem DelegationState.mature_eq_ok {delegation matured : DelegationState}
    (h : delegation.mature epochID = .ok matured) :
    matured = delegation ∨
      delegation.activationEpoch ≤ epochID ∧
        delegation.pendingStake ≤ maxUint64 - delegation.activeStake ∧
        matured = { delegation with
          activeStake := delegation.activeStake + delegation.pendingStake
          pendingStake := 0
          activationEpoch := 0 } := by
  unfold mature at h
  split at h
  · exact .inl (pure_eq_ok.mp h).symm
  · next hdue =>
    simp only [eq_ok, checkedAdd_eq_ok] at h
    obtain ⟨_, ⟨hfits, rfl⟩, rfl⟩ := h
    exact .inr ⟨by omega, hfits, rfl⟩

structure DelegationState.Matures (before after : DelegationState) : Prop where
  delegatorAccount : after.delegatorAccount = before.delegatorAccount
  unlockingStake : after.unlockingStake = before.unlockingStake
  unlockEpoch : after.unlockEpoch = before.unlockEpoch
  bonded : after.activeStake + after.pendingStake = before.activeStake + before.pendingStake
  inRange : before.InRange → after.InRange

theorem DelegationState.Matures.of_mature {delegation matured : DelegationState}
    (h : delegation.mature epochID = .ok matured) : delegation.Matures matured := by
  obtain rfl | ⟨-, hfits, rfl⟩ := DelegationState.mature_eq_ok h
  · exact ⟨rfl, rfl, rfl, rfl, id⟩
  · refine ⟨rfl, rfl, rfl, rfl, fun hrange => ?_⟩
    have hactive := hrange.activeStake
    unfold maxUint64 at hfits
    exact { hrange with
      activeStake := by dsimp only; omega
      pendingStake := Nat.two_pow_pos 64
      activationEpoch := Nat.two_pow_pos 64 }

structure ValidatorState.Matures (before after : ValidatorState) : Prop where
  stakerAccount : after.stakerAccount = before.stakerAccount
  unlockingStake : after.unlockingStake = before.unlockingStake
  unlockEpoch : after.unlockEpoch = before.unlockEpoch
  bonded : after.activeStake + after.pendingStake = before.activeStake + before.pendingStake
  delegations : List.Forall₂ DelegationState.Matures before.delegations after.delegations
  inRange : before.InRange → after.InRange

theorem forall_mem_of_forall₂ {α : Type} {relation : α → α → Prop} {property : α → Prop}
    {before after : List α} (h : Forall₂ relation before after)
    (hkeep : ∀ x y, relation x y → property x → property y) (hbefore : ∀ x ∈ before, property x) :
    ∀ y ∈ after, property y := by
  intro y hy
  obtain ⟨x, hx, hrelated⟩ := exists_of_mem_forall₂ h hy
  exact hkeep x y hrelated (hbefore x hx)

/-- The pending stake of the validator has become active, or it was not due. -/
theorem ValidatorState.activateDue_eq_ok {activated : ValidatorState}
    (h : state.activateDue epochID = .ok activated) :
    ∃ delegations, Forall₂ (fun delegation matured => delegation.mature epochID = .ok matured)
        state.delegations delegations ∧
      ((0 < state.pendingStake ∧ state.activationEpoch ≤ epochID) ∧
          state.pendingStake ≤ maxUint64 - state.activeStake ∧
          activated = { state with
            activeStake := state.activeStake + state.pendingStake
            pendingStake := 0
            activationEpoch := 0
            delegations := delegations } ∨
        ¬(0 < state.pendingStake ∧ state.activationEpoch ≤ epochID) ∧
          activated = { state with delegations := delegations }) := by
  unfold activateDue at h
  split at h
  · next hdue =>
    simp only [eq_ok, checkedAdd_eq_ok] at h
    obtain ⟨_, ⟨hfits, rfl⟩, _, rfl, delegations, hdelegations, rfl⟩ := h
    exact ⟨delegations, mapM_eq_ok hdelegations, .inl ⟨hdue, hfits, rfl⟩⟩
  · next hwaits =>
    simp only [eq_ok] at h
    obtain ⟨_, rfl, delegations, hdelegations, rfl⟩ := h
    exact ⟨delegations, mapM_eq_ok hdelegations, .inr ⟨hwaits, rfl⟩⟩

theorem activateDue_matures {activated : ValidatorState}
    (h : state.activateDue epochID = .ok activated) : state.Matures activated := by
  obtain ⟨delegations, hdelegations, hactivated⟩ := activateDue_eq_ok h
  have hmatures := hdelegations.imp fun _ _ => DelegationState.Matures.of_mature
  have hkept (hrange : state.InRange) : ∀ delegation ∈ delegations, delegation.InRange :=
    forall_mem_of_forall₂ hmatures (fun _ _ h => h.inRange) hrange.delegations
  obtain ⟨-, hfits, rfl⟩ | ⟨-, rfl⟩ := hactivated
  · refine ⟨rfl, rfl, rfl, rfl, hmatures, fun hrange => ?_⟩
    have hactive := hrange.activeStake
    unfold maxUint64 at hfits
    exact { hrange with
      activeStake := by dsimp only; omega
      pendingStake := Nat.two_pow_pos 64
      activationEpoch := Nat.two_pow_pos 64
      delegations := hkept hrange }
  · exact ⟨rfl, rfl, rfl, rfl, hmatures, fun hrange => { hrange with delegations := hkept hrange }⟩

/-- The stake that is bonded in an epoch. -/
def ValidatorState.countedStake (state : ValidatorState) (epochID : ℕ) : ℕ :=
  state.activeStake + (if epochID < state.deactivationEpoch then state.unlockingStake else 0) +
    if state.activationEpoch ≤ epochID then state.pendingStake else 0

/-- What counts in an epoch, without the field checks. -/
def ValidatorState.effectiveLamports (state : ValidatorState) (epochID : ℕ) : ℕ :=
  if state.status = .jailed ∧ epochID < state.jailUntilEpoch then 0
  else if state.status = .exiting ∧ state.deactivationEpoch ≤ epochID then 0
  else if state.countedStake epochID < minimumStakeLamports then 0
  else state.countedStake epochID

/-- Nothing to be added is not added at all. -/
theorem addIf_bind {condition : Prop} [Decidable condition] {message : String}
    {left right : ℕ} {next : ℕ → Except String ℕ} (hfits : right ≤ maxUint64 - left) :
    (if 0 < right ∧ condition then checkedAdd message left right >>= next
      else pure left >>= next) = next (left + if condition then right else 0) := by
  by_cases hcondition : condition
  · rcases Nat.eq_zero_or_pos right with rfl | hpositive
    · simp
    · rw [if_pos ⟨hpositive, hcondition⟩, if_pos hcondition, checkedAdd_eq_ok.mpr ⟨hfits, rfl⟩]
      rfl
  · rw [if_neg fun h => hcondition h.2, if_neg hcondition]
    rfl

theorem effectiveStakeAtEpoch_of_valid (h : state.validateFields false = .ok ()) :
    effectiveStakeAtEpoch state epochID = .ok (state.effectiveLamports epochID) := by
  have hvalid := h
  simp only [validateFields, eq_ok, not_lt] at h
  refine bind_eq_ok.mpr ⟨(), hvalid, ?_⟩
  unfold effectiveLamports
  split
  · rfl
  split
  · rfl
  refine (addIf_bind (by omega)).trans ((addIf_bind ?_).trans rfl)
  split
  all_goals omega

theorem effectiveStakeAtEpoch_eq_ok {effective : ℕ}
    (h : effectiveStakeAtEpoch state epochID = .ok effective) :
    state.validateFields false = .ok () ∧ effective = state.effectiveLamports epochID := by
  obtain ⟨_, hvalid, -⟩ := bind_eq_ok.mp h
  exact ⟨hvalid, Except.ok.inj (h.symm.trans (effectiveStakeAtEpoch_of_valid hvalid))⟩

theorem ValidatorState.effectiveLamports_le (state : ValidatorState) (epochID : ℕ) :
    state.effectiveLamports epochID ≤
      state.activeStake + state.pendingStake + state.unlockingStake := by
  unfold effectiveLamports countedStake
  split_ifs
  all_goals omega

theorem withEffectiveStake_eq_ok {next : ValidatorState}
    (h : state.withEffectiveStake epochID = .ok next) :
    next = { state with lastEffectiveStake := state.effectiveLamports epochID } ∧
      state.validateFields false = .ok () ∧ (state.InRange → next.InRange) := by
  simp only [withEffectiveStake, eq_ok] at h
  obtain ⟨_, heffective, rfl⟩ := h
  obtain ⟨hvalid, rfl⟩ := effectiveStakeAtEpoch_eq_ok heffective
  refine ⟨rfl, hvalid, fun hrange => { hrange with lastEffectiveStake := ?_ }⟩
  have hbonded := validateFields_bonded hrange.activeStake hvalid
  have hle := state.effectiveLamports_le epochID
  unfold maxUint64 at hbonded
  dsimp only
  omega

theorem matureStakeForEpoch_eq_ok {matured : ValidatorState}
    (h : matureStakeForEpoch state epochID = .ok matured) :
    state.Matures matured ∧
      (state.InRange → matured.activeStake + matured.pendingStake + matured.unlockingStake ≤
        maxUint64) ∧
      ∀ delegation ∈ matured.delegations, ∃ total, delegation.totalStake = .ok total := by
  simp only [matureStakeForEpoch, eq_ok] at h
  obtain ⟨activated, hactivated, refreshed, hrefreshed, rfl⟩ := h
  have hmatures := activateDue_matures hactivated
  obtain ⟨rfl, hvalid, hrange⟩ := withEffectiveStake_eq_ok hrefreshed
  have hbonded : state.InRange → activated.activeStake + activated.pendingStake +
      activated.unlockingStake ≤ maxUint64 := fun h =>
    validateFields_bonded (hmatures.inRange h).activeStake hvalid
  have htotals := validateDelegations_totals (validateFields_delegations hvalid).1
  split
  · exact ⟨{ hmatures with inRange := fun h => { hrange (hmatures.inRange h) with } }, hbonded,
      htotals⟩
  · exact ⟨{ hmatures with inRange := fun h => hrange (hmatures.inRange h) }, hbonded, htotals⟩

/-! ### Instructions -/

/-- Every number of an instruction fits its field. -/
structure Instruction.InRange (instruction : Instruction) : Prop where
  consensusPublicKey : instruction.consensusPublicKey < 256 ^ 32
  p2pPeerID : validUTF8 instruction.p2pPeerID = true
  commissionBps : instruction.commissionBps < 256 ^ 2
  amount : instruction.amount < 256 ^ 8
  unlockEpoch : instruction.unlockEpoch < 256 ^ 8

theorem readInstruction_yields : Yields readInstruction Instruction.InRange :=
  (Yields.field 4 _).bind fun _ _ => (Yields.key _ _).bind fun _ hkey =>
    ((Yields.string _).withContext _).bind fun _ hpeer =>
    (Yields.field 2 _).bind fun _ hcommission =>
    (Yields.field 8 _).bind fun _ hamount => (Yields.field 8 _).bind fun _ hepoch =>
    (Yields.any _).bind fun _ _ =>
      Yields.pure ⟨hkey, hpeer, hcommission, hamount, hepoch⟩

theorem unmarshalInstructionBinary_eq_ok {instruction : Instruction} {data : Bytes}
    (h : unmarshalInstructionBinary data = .ok instruction) :
    instruction.InRange ∧ instruction.validate = .ok () := by
  simp only [unmarshalInstructionBinary, eq_ok] at h
  obtain ⟨_, hread, hvalid, rfl⟩ := h
  exact ⟨readInstruction_yields.all hread, hvalid⟩

/-! ### Delegation lists -/

section

variable {delegations : List DelegationState} {delegator : PublicKey}
  {delegation next : DelegationState}

theorem findDelegation_eq_some (h : findDelegation delegations delegator = some delegation) :
    delegation ∈ delegations ∧ delegation.delegatorAccount = delegator :=
  ⟨mem_of_find?_eq_some h, by simpa using find?_some h⟩

theorem forall_mem_replaceDelegation {property : DelegationState → Prop}
    (h : ∀ delegation ∈ delegations, property delegation) (hnext : property next) :
    ∀ delegation ∈ replaceDelegation delegations next, property delegation := by
  induction delegations with
  | nil => simp [replaceDelegation]
  | cons first delegations ih =>
    obtain ⟨hfirst, hrest⟩ := forall_mem_cons.mp h
    unfold replaceDelegation
    split
    · exact forall_mem_cons.mpr ⟨hnext, hrest⟩
    · exact forall_mem_cons.mpr ⟨hfirst, ih hrest⟩

theorem findDelegation_replace
    (hfound : (findDelegation delegations next.delegatorAccount).isSome) :
    findDelegation (replaceDelegation delegations next) delegator =
      if delegator = next.delegatorAccount then some next
      else findDelegation delegations delegator := by
  induction delegations with
  | nil => simp [findDelegation] at hfound
  | cons first delegations ih =>
    unfold replaceDelegation
    by_cases hfirst : first.delegatorAccount = next.delegatorAccount
    · rw [if_pos hfirst]
      by_cases hsame : delegator = next.delegatorAccount
      · simp [findDelegation, hsame]
      · have hother : next.delegatorAccount ≠ delegator := fun h => hsame h.symm
        simp [findDelegation, hsame, hother, hfirst]
    · have hrest : (findDelegation delegations next.delegatorAccount).isSome := by
        simpa [findDelegation, hfirst] using hfound
      rw [if_neg hfirst]
      by_cases hhead : first.delegatorAccount = delegator
      · have hother : delegator ≠ next.delegatorAccount := hhead ▸ hfirst
        simp [findDelegation, hhead, hother]
      · have hskip : findDelegation (first :: replaceDelegation delegations next) delegator =
            findDelegation (replaceDelegation delegations next) delegator := by
          simp [findDelegation, hhead]
        rw [hskip, ih hrest]
        simp [findDelegation, hhead]

theorem findDelegation_matures {before after : List DelegationState}
    (h : Forall₂ DelegationState.Matures before after) (delegator : PublicKey) :
    Option.Rel DelegationState.Matures (findDelegation before delegator)
      (findDelegation after delegator) := by
  induction h with
  | nil => exact .none
  | @cons first second before after hhead _ ih =>
    by_cases hfirst : first.delegatorAccount = delegator
    · have hsecond : second.delegatorAccount = delegator := hhead.delegatorAccount.trans hfirst
      simpa [findDelegation, hfirst, hsecond] using Option.Rel.some hhead
    · have hsecond : second.delegatorAccount ≠ delegator := by rwa [hhead.delegatorAccount]
      simpa [findDelegation, hfirst, hsecond] using ih

theorem findDelegation_compact (hfound : findDelegation delegations delegator = some delegation)
    {total : ℕ} (htotal : delegation.totalStake = .ok total) (hpositive : total ≠ 0) :
    findDelegation (compactDelegations delegations) delegator = some delegation := by
  induction delegations with
  | nil => simp [findDelegation] at hfound
  | cons first delegations ih =>
    unfold compactDelegations
    by_cases hfirst : first.delegatorAccount = delegator
    · obtain rfl : first = delegation := by simpa [findDelegation, hfirst] using hfound
      simp [findDelegation, htotal, hpositive, hfirst]
    · have hrest := ih (by simpa [findDelegation, hfirst] using hfound)
      rw [filter_cons]
      split_ifs
      · exact (find?_cons_of_neg (by simpa using hfirst)).trans hrest
      · exact hrest

theorem ensureDelegation_eq_ok {ensured : List DelegationState}
    (h : ensureDelegation delegations delegator = .ok ensured) :
    (findDelegation ensured delegator).isSome ∧
      (ensured = delegations ∨ findDelegation delegations delegator = none ∧
        ensured = delegations ++ [.empty delegator]) := by
  unfold ensureDelegation at h
  split at h
  · next hfound =>
    cases h
    exact ⟨hfound, .inl rfl⟩
  · next hmissing =>
    simp only [eq_ok] at h
    obtain ⟨-, rfl⟩ := h
    refine ⟨?_, .inr ⟨by simpa using hmissing, rfl⟩⟩
    simp [findDelegation, DelegationState.empty]

end

/-! ### The changes one by one -/

section

variable {state next : ValidatorState} {delegator : PublicKey} {amount unlockEpoch epoch : ℕ}

theorem ValidatorState.addDelegation_eq_ok
    (h : state.addDelegation delegator amount epoch = .ok next) :
    ∃ delegations delegation, ensureDelegation state.delegations delegator = .ok delegations ∧
      findDelegation delegations delegator = some delegation ∧
      amount ≤ maxUint64 - delegation.pendingStake ∧
      next = { state with
        delegations := replaceDelegation delegations { delegation with
          pendingStake := delegation.pendingStake + amount
          activationEpoch := nextEpoch epoch }
        pendingStake := state.pendingStake + amount
        activationEpoch := nextEpoch epoch } := by
  simp only [addDelegation, eq_ok, not_lt] at h
  obtain ⟨delegations, hensure, hfits, rfl⟩ := h
  obtain ⟨delegation, hfound⟩ := Option.isSome_iff_exists.mp (ensureDelegation_eq_ok hensure).1
  rw [hfound] at hfits ⊢
  exact ⟨delegations, delegation, hensure, hfound, hfits, rfl⟩

theorem ValidatorState.beginUnstake_eq_ok
    (h : state.beginUnstake amount unlockEpoch epoch = .ok next) :
    (∃ selfActive, selfActiveStake state = .ok selfActive ∧ amount ≤ selfActive) ∧
      next = { state with
        activeStake := state.activeStake - amount
        unlockingStake := wrapUint64 (state.unlockingStake + amount)
        unlockEpoch := unlockEpoch
        deactivationEpoch := nextEpoch epoch } := by
  simp only [beginUnstake, eq_ok, not_lt] at h
  obtain ⟨selfActive, hself, henough, rfl⟩ := h
  exact ⟨⟨selfActive, hself, henough⟩, rfl⟩

theorem ValidatorState.beginUndelegate_eq_ok
    (h : state.beginUndelegate delegator amount unlockEpoch epoch = .ok next) :
    ∃ delegation, findDelegation state.delegations delegator = some delegation ∧
      amount ≤ delegation.activeStake ∧ amount ≤ state.activeStake ∧
      next = { state with
        delegations := replaceDelegation state.delegations { delegation with
          activeStake := delegation.activeStake - amount
          unlockingStake := wrapUint64 (delegation.unlockingStake + amount)
          unlockEpoch := unlockEpoch
          deactivationEpoch := nextEpoch epoch }
        activeStake := state.activeStake - amount
        unlockingStake := wrapUint64 (state.unlockingStake + amount)
        deactivationEpoch := nextEpoch epoch } := by
  simp only [beginUndelegate, eq_ok, not_lt] at h
  obtain ⟨delegation, hfound, hdelegated, hactive, rfl⟩ := h
  exact ⟨delegation, hfound, hdelegated, hactive, rfl⟩

theorem ValidatorState.takeUnstaked_eq_ok
    (h : state.takeUnstaked unlockEpoch = .ok (next, amount)) :
    state.unlockingStake ≠ 0 ∧ state.unlockEpoch ≤ unlockEpoch ∧ amount = state.unlockingStake ∧
      next = { state with unlockingStake := 0 } := by
  simp only [takeUnstaked, eq_ok, not_or, not_lt, Prod.mk.injEq] at h
  obtain ⟨⟨hpositive, hepoch⟩, rfl, rfl⟩ := h
  exact ⟨hpositive, hepoch, rfl, rfl⟩

theorem ValidatorState.takeDelegation_eq_ok
    (h : state.takeDelegation delegator unlockEpoch = .ok (next, amount)) :
    ∃ delegation, findDelegation state.delegations delegator = some delegation ∧
      delegation.unlockingStake ≠ 0 ∧ delegation.unlockEpoch ≤ unlockEpoch ∧
      amount = delegation.unlockingStake ∧ amount ≤ state.unlockingStake ∧
      next = { state with
        delegations := replaceDelegation state.delegations
          { delegation with unlockingStake := 0 }
        unlockingStake := state.unlockingStake - amount } := by
  simp only [takeDelegation, eq_ok, not_or, not_lt, Prod.mk.injEq] at h
  obtain ⟨delegation, hfound, ⟨hpositive, hepoch⟩, hcovered, rfl, rfl⟩ := h
  exact ⟨delegation, hfound, hpositive, hepoch, rfl, hcovered, rfl⟩

end

/-! ### Changed states fit the account format -/

namespace ValidatorState.InRange

variable {state next : ValidatorState} {delegator : PublicKey} {amount unlockEpoch epoch : ℕ}

theorem registered {instruction : Instruction} (h : instruction.InRange)
    (hdelegator : delegator < 256 ^ 32) :
    (registeredState instruction delegator epoch).InRange :=
  { zero_inRange with
    consensusPublicKey := h.consensusPublicKey
    stakerAccount := hdelegator
    p2pPeerID := h.p2pPeerID
    commissionBps := h.commissionBps
    pendingStake := h.amount
    activationEpoch := wrapUint64_lt _ }

theorem add_lt {left right : ℕ} (hleft : left < 256 ^ 8) (h : right ≤ maxUint64 - left) :
    left + right < 256 ^ 8 := by
  unfold maxUint64 at h
  omega

section

variable (h : state.InRange)
include h

theorem addPending (hfits : amount ≤ maxUint64 - state.pendingStake) :
    (state.addPending amount epoch).InRange :=
  { h with
    pendingStake := add_lt h.pendingStake hfits
    activationEpoch := wrapUint64_lt _ }

theorem ensured {delegations : List DelegationState} (hdelegator : delegator < 256 ^ 32)
    (hensure : ensureDelegation state.delegations delegator = .ok delegations) :
    ∀ delegation ∈ delegations, delegation.InRange := by
  obtain ⟨-, rfl | ⟨-, rfl⟩⟩ := ensureDelegation_eq_ok hensure
  · exact h.delegations
  · refine forall_mem_append.mpr ⟨h.delegations, forall_mem_singleton.mpr ?_⟩
    exact {
      delegatorAccount := hdelegator
      activeStake := Nat.two_pow_pos 64
      pendingStake := Nat.two_pow_pos 64
      unlockingStake := Nat.two_pow_pos 64
      unlockEpoch := Nat.two_pow_pos 64
      activationEpoch := Nat.two_pow_pos 64
      deactivationEpoch := Nat.two_pow_pos 64
      rewardLamports := Nat.two_pow_pos 64 }

theorem addDelegation (hdelegator : delegator < 256 ^ 32)
    (hfits : amount ≤ maxUint64 - state.pendingStake)
    (hnext : state.addDelegation delegator amount epoch = .ok next) : next.InRange := by
  obtain ⟨delegations, delegation, hensure, hfound, hpending, rfl⟩ := addDelegation_eq_ok hnext
  have hall := ensured h hdelegator hensure
  have hdelegation := hall delegation (findDelegation_eq_some hfound).1
  exact { h with
    pendingStake := add_lt h.pendingStake hfits
    activationEpoch := wrapUint64_lt _
    delegations := forall_mem_replaceDelegation hall { hdelegation with
      pendingStake := add_lt hdelegation.pendingStake hpending
      activationEpoch := wrapUint64_lt _ } }

theorem beginUnstake (hepoch : unlockEpoch < 256 ^ 8)
    (hnext : state.beginUnstake amount unlockEpoch epoch = .ok next) : next.InRange := by
  obtain ⟨-, rfl⟩ := beginUnstake_eq_ok hnext
  exact { h with
    activeStake := (Nat.sub_le _ _).trans_lt h.activeStake
    unlockingStake := wrapUint64_lt _
    unlockEpoch := hepoch
    deactivationEpoch := wrapUint64_lt _ }

theorem beginUndelegate (hepoch : unlockEpoch < 256 ^ 8)
    (hnext : state.beginUndelegate delegator amount unlockEpoch epoch = .ok next) :
    next.InRange := by
  obtain ⟨delegation, hfound, -, -, rfl⟩ := beginUndelegate_eq_ok hnext
  have hdelegation := h.delegations delegation (findDelegation_eq_some hfound).1
  exact { h with
    activeStake := (Nat.sub_le _ _).trans_lt h.activeStake
    unlockingStake := wrapUint64_lt _
    deactivationEpoch := wrapUint64_lt _
    delegations := forall_mem_replaceDelegation h.delegations { hdelegation with
      activeStake := (Nat.sub_le _ _).trans_lt hdelegation.activeStake
      unlockingStake := wrapUint64_lt _
      unlockEpoch := hepoch
      deactivationEpoch := wrapUint64_lt _ } }

theorem takeUnstaked (hnext : state.takeUnstaked unlockEpoch = .ok (next, amount)) :
    next.InRange := by
  obtain ⟨-, -, -, rfl⟩ := takeUnstaked_eq_ok hnext
  exact { h with unlockingStake := Nat.two_pow_pos 64 }

theorem takeDelegation (hnext : state.takeDelegation delegator unlockEpoch = .ok (next, amount)) :
    next.InRange := by
  obtain ⟨delegation, hfound, -, -, -, -, rfl⟩ := takeDelegation_eq_ok hnext
  have hdelegation := h.delegations delegation (findDelegation_eq_some hfound).1
  exact { h with
    unlockingStake := (Nat.sub_le _ _).trans_lt h.unlockingStake
    delegations := forall_mem_replaceDelegation h.delegations
      { hdelegation with unlockingStake := Nat.two_pow_pos 64 } }

theorem compacted : state.compacted.InRange :=
  { h with delegations := fun _ hmem => h.delegations _ (mem_of_mem_filter hmem) }

end

end ValidatorState.InRange

end Ordexus.Stake
