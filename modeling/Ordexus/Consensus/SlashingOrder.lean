import Ordexus.Consensus.SlashingSoundness
import Ordexus.Consensus.StakeRecords
import Ordexus.Library.Commuting
import Ordexus.Programs.Slashing

/-!
# The order of slashing evidence

Evidence may arrive in any order, in one block or over several. `applySingleSlashingEvidence`
remembers of each validator the last slot it was slashed for and skips evidence about this slot
and earlier ones. Every offence is slashed exactly if the offences of each validator are applied
in the order of their slots, in distinct slots; and then the outcome depends only on the set of
the evidence.
-/

namespace Ordexus

open Checked Commuting List ChainState

/-! ### One piece of evidence -/

/-- The account and the slot an item of evidence is about. -/
def offenceKey (item : ValidatorState × ℕ) : PublicKey × ℕ :=
  (item.1.accountAddress, item.2)

/-- The slashes of a list of rewards: each is recorded by one jailing. -/
def jailEvents (rewards : List BlockReward) : List (PublicKey × ℕ) :=
  (rewards.filter fun reward => reward.type = .jail).map fun reward =>
    (reward.accountAddress, reward.slot)

def Stake.ValidatorState.punish (slashed : Stake.ValidatorState) (input : BlockRewardInput)
    (slot : ℕ) : Stake.ValidatorState :=
  let jailUntilEpoch := max slashed.jailUntilEpoch
    (wrapUint64 (input.epochID + input.config.maliciousJailEpochs))
  { slashed with
    status := .jailed
    jailUntilEpoch := jailUntilEpoch
    unlockEpoch := jailUntilEpoch
    lastSlashedSlot := slot
    voteCredits := 0
    missedVoteCount := 0
    missedProposalCount := 0 }

/-- What evidence about a slot does to the account of its validator. -/
def slashedAccount (input : BlockRewardInput) (slot : ℕ) (account : Account) : Option Account :=
  Except.toOption do
    let stakeState ← Stake.unmarshalValidatorStateBinary account.data
    if slot ≤ stakeState.lastSlashedSlot then pure account
    else
      let slashLamports ← calculateSlashLamports stakeState input.config.maliciousSlashBasisPoints
      let (_, burned, slashed) ← burnSlashFromValidator input account stakeState slashLamports
      let nextStakeState ← (slashed.punish input slot).withEffectiveStake input.epochID
      let data ← nextStakeState.marshalBinary
      burned.setData data input.rentConfig

def ChainState.lastSlashedSlotAt (state : ChainState) (address : PublicKey) : Option ℕ :=
  (state.loadStakeStateByAddress address).toOption.map fun loaded => loaded.1.lastSlashedSlot

section

variable {crypto : Crypto} {input : BlockRewardInput} {progress next : RewardProgress}
  {item : ValidatorState × ℕ}

/-- Evidence changes the account of its validator only. -/
theorem applySingleSlashingEvidence_state (crypto : Crypto) (input : BlockRewardInput)
    (progress : RewardProgress) (item : ValidatorState × ℕ) :
    (applySingleSlashingEvidence crypto input progress item).toOption.map RewardProgress.state =
      progress.state.updateAccount (slashedAccount input item.2) item.1.accountAddress := by
  simp only [applySingleSlashingEvidence, updateAccount, toOption_bind, loadStakeStateByAddress]
  cases hentry : lastEntry item.1.accountAddress progress.state.accounts with
  | none => rfl
  | some found =>
    simp only [orFail, slashedAccount, toOption_bind, toOption_ok, Option.bind_some]
    cases (Stake.unmarshalValidatorStateBinary found.2.data).toOption with
    | none => rfl
    | some stakeState =>
      simp only [Option.bind_some, toOption_pure]
      split
      · simp [setAccount_self hentry]
      · simp only [toOption_bind, toOption_withContext, writeStakeState, toOption_pure,
          Option.bind_assoc, Option.map_eq_bind, Function.comp_def, Option.bind_some]
        rfl

/-- Slashing the account at an address is a step of the state. -/
def slashStep (input : BlockRewardInput) (state : ChainState) (item : ValidatorState × ℕ) :
    Option ChainState :=
  state.updateAccount (slashedAccount input item.2) item.1.accountAddress

theorem foldlM_state (items : List (ValidatorState × ℕ)) (progress : RewardProgress) :
    (items.foldlM (applySingleSlashingEvidence crypto input) progress).toOption.map
        RewardProgress.state =
      items.foldlM (slashStep input) progress.state := by
  induction items generalizing progress with
  | nil => rfl
  | cons item items ih =>
    have hstep := applySingleSlashingEvidence_state crypto input progress item
    simp only [foldlM_cons, toOption_bind]
    rw [slashStep, ← hstep]
    cases (applySingleSlashingEvidence crypto input progress item).toOption with
    | none => rfl
    | some next => exact ih next

/-- A record that is written by a slash is read back. -/
theorem punish_inRange {slashed : Stake.ValidatorState} {slot : ℕ} (h : slashed.InRange)
    (hslot : slot < 256 ^ 8) : (slashed.punish input slot).InRange := by
  have hjail : max slashed.jailUntilEpoch
      (wrapUint64 (input.epochID + input.config.maliciousJailEpochs)) < 256 ^ 8 :=
    max_lt h.jailUntilEpoch (Nat.mod_lt _ (by norm_num))
  exact { h with
    unlockEpoch := hjail, jailUntilEpoch := hjail, lastSlashedSlot := hslot
    voteCredits := by norm_num [Stake.ValidatorState.punish]
    missedVoteCount := by norm_num [Stake.ValidatorState.punish]
    missedProposalCount := by norm_num [Stake.ValidatorState.punish] }

theorem burnSlashFromValidator_inRange {account burned : Account}
    {stakeState slashed : Stake.ValidatorState} {requested reported : ℕ}
    (h : burnSlashFromValidator input account stakeState requested =
      .ok (reported, burned, slashed)) (hrange : stakeState.InRange) : slashed.InRange := by
  unfold burnSlashFromValidator at h
  split at h
  · obtain ⟨-, -, rfl⟩ : 0 = reported ∧ account = burned ∧ stakeState = slashed := by
      simpa using h
    exact hrange
  · simp only [eq_ok] at h
    obtain ⟨_, -, -, _, -, h⟩ := h
    split at h
    all_goals
      simp only [eq_ok, Prod.mk.injEq] at h
      obtain ⟨_, -, _, hslash, -, -, rfl⟩ := h
      exact (Stake.applySlash_lowers hslash).inRange hrange

/-- Evidence is skipped or slashes its validator and marks the slot. -/
theorem applySingleSlashingEvidence_cases
    (h : applySingleSlashingEvidence crypto input progress item = .ok next)
    (hslot : item.2 < 256 ^ 8) :
    ∃ last, progress.state.lastSlashedSlotAt item.1.accountAddress = some last ∧
      (item.2 ≤ last ∧ next = progress ∨
        last < item.2 ∧ jailEvents next.rewards = jailEvents progress.rewards ++ [offenceKey item] ∧
          ∀ other, next.state.lastSlashedSlotAt other =
            if other = item.1.accountAddress then some item.2
            else progress.state.lastSlashedSlotAt other) := by
  simp only [applySingleSlashingEvidence, eq_ok] at h
  obtain ⟨⟨stakeState, account, index⟩, hload, h⟩ := h
  refine ⟨stakeState.lastSlashedSlot, by simp [lastSlashedSlotAt, hload], ?_⟩
  split at h
  · next hslashed => exact .inl ⟨hslashed, (pure_eq_ok.mp h).symm⟩
  · next hfresh =>
    refine .inr ⟨not_le.mp hfresh, ?_⟩
    simp only [eq_ok] at h
    obtain ⟨requested, -, ⟨reported, burned, slashed⟩, hburn, nextStakeState, heffective, state,
      hwrite, rfl⟩ := h
    refine ⟨?_, fun other => ?_⟩
    · by_cases hreported : 0 < reported
      all_goals simp [jailEvents, offenceKey, hreported]
    · obtain ⟨data, hdata, rfl⟩ := writeStakeState_eq_ok hwrite
      simp only [loadStakeStateByAddress, eq_ok, Prod.mk.injEq] at hload
      obtain ⟨⟨_, _⟩, hentry, _, hstate, rfl, rfl, rfl⟩ := hload
      have hrange := burnSlashFromValidator_inRange hburn
        (Stake.unmarshalValidatorStateBinary_eq_ok hstate).1
      obtain ⟨rfl, -, hkeep⟩ := Stake.withEffectiveStake_eq_ok heffective
      have hread := Stake.unmarshal_marshalBinary (hkeep (punish_inRange hrange hslot)) hdata
      rw [lastSlashedSlotAt, loadStakeStateByAddress, lastEntry_setAccount hentry]
      split
      · simp [orFail, bind, Except.bind, hread, pure, Except.pure, Except.toOption]
      · rfl

end

/-! ### A list of evidence -/

/-- The items of each validator stand in the order of their slots, all behind the slot it was
last slashed for. -/
structure InOrder (state : ChainState) (items : List (ValidatorState × ℕ)) : Prop where
  increasing : items.Pairwise fun first second =>
    first.1.accountAddress = second.1.accountAddress → first.2 < second.2
  fresh : ∀ item ∈ items, ∀ last ∈ state.lastSlashedSlotAt item.1.accountAddress, last < item.2

section

variable {crypto : Crypto} {input : BlockRewardInput} {progress next final : RewardProgress}
  {item : ValidatorState × ℕ} {items first second : List (ValidatorState × ℕ)}

/-- Each item is slashed at most once. -/
theorem exists_sublist_jailEvents
    (h : items.foldlM (applySingleSlashingEvidence crypto input) progress = .ok final)
    (hslots : ∀ item ∈ items, item.2 < 256 ^ 8) :
    ∃ slashed, jailEvents final.rewards = jailEvents progress.rewards ++ slashed ∧
      slashed.Sublist (items.map offenceKey) := by
  induction items generalizing progress with
  | nil =>
    obtain rfl := pure_eq_ok.mp h
    exact ⟨[], by simp, by simp⟩
  | cons item items ih =>
    obtain ⟨hslot, hslots⟩ := forall_mem_cons.mp hslots
    obtain ⟨middle, hfirst, hrest⟩ := bind_eq_ok.mp h
    obtain ⟨slashed, hslashed, hsublist⟩ := ih hrest hslots
    obtain ⟨last, -, ⟨-, rfl⟩ | ⟨-, hjailed, -⟩⟩ := applySingleSlashingEvidence_cases hfirst hslot
    · exact ⟨slashed, hslashed, hsublist.cons _⟩
    · refine ⟨offenceKey item :: slashed, ?_, hsublist.cons_cons _⟩
      rw [hslashed, hjailed, append_assoc, singleton_append]

/-- After a slash the rest is in order if the whole was, and conversely. -/
theorem inOrder_cons_iff {state after : ChainState} {last : ℕ}
    (hlast : state.lastSlashedSlotAt item.1.accountAddress = some last) (hfresh : last < item.2)
    (hafter : ∀ other, after.lastSlashedSlotAt other =
      if other = item.1.accountAddress then some item.2 else state.lastSlashedSlotAt other) :
    InOrder state (item :: items) ↔ InOrder after items := by
  constructor
  · rintro ⟨hincreasing, hbehind⟩
    obtain ⟨hitem, hincreasing⟩ := pairwise_cons.mp hincreasing
    refine ⟨hincreasing, fun later hlater slot hslot => ?_⟩
    rw [hafter] at hslot
    split at hslot
    · next hsame =>
      cases hslot
      exact hitem later hlater hsame.symm
    · exact hbehind later (mem_cons_of_mem _ hlater) slot hslot
  · rintro ⟨hincreasing, hbehind⟩
    have hitem : ∀ later ∈ items, item.1.accountAddress = later.1.accountAddress →
        item.2 < later.2 := by
      intro later hlater hsame
      refine hbehind later hlater item.2 ?_
      rw [hafter, if_pos hsame.symm]
      rfl
    refine ⟨pairwise_cons.mpr ⟨hitem, hincreasing⟩, forall_mem_cons.mpr ⟨?_, ?_⟩⟩
    · intro slot hslot
      rw [hlast] at hslot
      cases hslot
      exact hfresh
    · intro later hlater slot hslot
      by_cases hsame : later.1.accountAddress = item.1.accountAddress
      · rw [hsame, hlast] at hslot
        cases hslot
        exact hfresh.trans (hitem later hlater hsame.symm)
      · refine hbehind later hlater slot ?_
        rwa [hafter, if_neg hsame]

/-- Every item is slashed exactly if the list is in order. -/
theorem jailEvents_eq_iff
    (h : items.foldlM (applySingleSlashingEvidence crypto input) progress = .ok final)
    (hslots : ∀ item ∈ items, item.2 < 256 ^ 8) :
    jailEvents final.rewards = jailEvents progress.rewards ++ items.map offenceKey ↔
      InOrder progress.state items := by
  induction items generalizing progress with
  | nil =>
    obtain rfl := pure_eq_ok.mp h
    exact ⟨fun _ => ⟨.nil, by simp⟩, fun _ => by simp⟩
  | cons item items ih =>
    obtain ⟨hslot, hslots⟩ := forall_mem_cons.mp hslots
    obtain ⟨middle, hfirst, hrest⟩ := bind_eq_ok.mp h
    obtain ⟨last, hlast, ⟨hskipped, rfl⟩ | ⟨hfresh, hjailed, hafter⟩⟩ :=
      applySingleSlashingEvidence_cases hfirst hslot
    · -- a skipped item leaves one event too few
      obtain ⟨slashed, hslashed, hsublist⟩ := exists_sublist_jailEvents hrest hslots
      constructor
      · intro hall
        rw [hslashed, append_cancel_left_eq] at hall
        have hlength := hsublist.length_le
        rw [hall] at hlength
        simp at hlength
      · intro horder
        exact absurd (horder.fresh item mem_cons_self last hlast) (not_lt.mpr hskipped)
    · rw [inOrder_cons_iff hlast hfresh hafter, ← ih hrest hslots, hjailed, map_cons,
        append_assoc, singleton_append]

/-- Lists of the same items that are both in order have the same outcome. -/
theorem foldlM_slashStep_eq {state : ChainState} (hperm : first.Perm second)
    (hfirst : InOrder state first) (hsecond : InOrder state second) :
    first.foldlM (slashStep input) state = second.foldlM (slashStep input) state := by
  refine foldlM_eq_of_perm (fun a b hab hba => ?_) hperm hfirst.increasing hsecond.increasing state
  have hne : a.1.accountAddress ≠ b.1.accountAddress := fun hsame =>
    lt_asymm (hab hsame) (hba hsame.symm)
  exact fun current => updateAccount_comm hne _ _ current

end

/-! ### Blocks of evidence -/

/-- Two blocks agree in what slashing reads of them besides their evidence. -/
structure BlockRewardInput.SameSettings (settings block : BlockRewardInput) : Prop where
  epochID : block.epochID = settings.epochID
  epochSnapshot : block.epochSnapshot = settings.epochSnapshot
  proofSnapshots : block.proofSnapshots = settings.proofSnapshots
  config : block.config = settings.config
  rentConfig : block.rentConfig = settings.rentConfig

section

variable (crypto : Crypto) (settings : BlockRewardInput)

/-- The validator and the slot that evidence is about, if it is valid. -/
def offenceOf (evidence : SlashingEvidence) : Option (ValidatorState × ℕ) :=
  Except.toOption do
    let slot ← evidence.slot
    let snapshot ← proofSnapshotForSlot slot settings.epochSnapshot settings.proofSnapshots
    evidence.validate crypto snapshot

def sortItems (items : List (ValidatorState × ℕ)) : List (ValidatorState × ℕ) :=
  items.insertionSort fun left right =>
    left.2 < right.2 ∨ (left.2 = right.2 ∧ left.1.validatorID ≤ right.1.validatorID)

/-- The items in the order in which they are applied. -/
def slashingOrder (blocks : List BlockRewardInput) : List (ValidatorState × ℕ) :=
  blocks.flatMap fun block => sortItems (block.evidence.filterMap (offenceOf crypto settings))

/-- All offences of the evidence in a list of blocks. -/
def offences (blocks : List BlockRewardInput) : List (PublicKey × ℕ) :=
  ((blocks.flatMap BlockRewardInput.evidence).filterMap (offenceOf crypto settings)).map offenceKey

end

/-- The evidence of one block after the other. -/
def slashBlocks (crypto : Crypto) (blocks : List BlockRewardInput) (progress : RewardProgress) :
    Except String RewardProgress :=
  blocks.foldlM (fun progress block => applySlashingEvidence crypto block progress) progress

section

variable {crypto : Crypto} {settings block : BlockRewardInput}
  {blocks first second : List BlockRewardInput} {progress final : RewardProgress}
  {state : ChainState}

theorem offenceOf_slot_lt {evidence : SlashingEvidence} {item : ValidatorState × ℕ}
    (h : offenceOf crypto settings evidence = some item) (hrange : evidence.InRange) :
    item.2 < 256 ^ 8 := by
  simp only [offenceOf, toOption_eq_some, eq_ok] at h
  obtain ⟨slot, -, snapshot, -, hvalid⟩ := h
  cases htype : evidence.type with
  | doubleProposal =>
    obtain ⟨proposals, _, _, hproposals, -, -, hslot, -⟩ := validate_doubleProposal hvalid htype
    exact hslot ▸ (hrange.proposals proposals hproposals).1.slot
  | doubleVote =>
    obtain ⟨votes, _, _, -, hconflict, -⟩ := validate_doubleVote hvalid hrange htype
    exact hconflict.firstSlot ▸ hconflict.firstRange.slot
  | unknown code => simp [SlashingEvidence.validate, SlashingEvidence.slot, htype] at hvalid

theorem normalizeSlashingEvidence_eq_ok_iff (h : settings.SameSettings block)
    {items : List (ValidatorState × ℕ)} :
    normalizeSlashingEvidence crypto block = .ok items ↔
      (∀ evidence ∈ block.evidence, (offenceOf crypto settings evidence).isSome = true) ∧
        items = sortItems (block.evidence.filterMap (offenceOf crypto settings)) := by
  rw [← toOption_eq_some]
  simp only [normalizeSlashingEvidence, toOption_bind, toOption_pure, Option.bind_eq_some_iff,
    Option.some.injEq]
  rw [@toOption_mapM_zipIdx _ _ _ _ (offenceOf crypto settings)]
  · simp only [mapM_eq_some_iff]
    constructor
    · rintro ⟨_, ⟨hvalid, rfl⟩, rfl⟩
      exact ⟨hvalid, rfl⟩
    · rintro ⟨hvalid, rfl⟩
      exact ⟨_, ⟨hvalid, rfl⟩, rfl⟩
  · intro evidence index
    simp only [offenceOf, toOption_bind, toOption_withContext, h.epochSnapshot, h.proofSnapshots]

theorem applySingleSlashingEvidence_settings (h : settings.SameSettings block) :
    applySingleSlashingEvidence crypto block = applySingleSlashingEvidence crypto settings := by
  funext progress item
  simp only [applySingleSlashingEvidence, burnSlashFromValidator, h.epochID, h.config, h.rentConfig]

theorem slashBlocks_cons (crypto : Crypto) (block : BlockRewardInput)
    (blocks : List BlockRewardInput) (progress : RewardProgress) :
    slashBlocks crypto (block :: blocks) progress =
      applySlashingEvidence crypto block progress >>= slashBlocks crypto blocks :=
  rfl

theorem slashingOrder_cons (crypto : Crypto) (settings block : BlockRewardInput)
    (blocks : List BlockRewardInput) :
    slashingOrder crypto settings (block :: blocks) =
      sortItems (block.evidence.filterMap (offenceOf crypto settings)) ++
        slashingOrder crypto settings blocks :=
  rfl

/-- The blocks succeed if all evidence is valid and the items can be applied one by one. -/
theorem slashBlocks_eq_ok_iff (hblocks : ∀ block ∈ blocks, settings.SameSettings block) :
    slashBlocks crypto blocks progress = .ok final ↔
      (∀ evidence ∈ blocks.flatMap BlockRewardInput.evidence,
        (offenceOf crypto settings evidence).isSome = true) ∧
      (slashingOrder crypto settings blocks).foldlM (applySingleSlashingEvidence crypto settings)
        progress = .ok final := by
  induction blocks generalizing progress with
  | nil => simp [slashBlocks, slashingOrder]
  | cons block blocks ih =>
    obtain ⟨hblock, hblocks⟩ := forall_mem_cons.mp hblocks
    simp only [slashBlocks_cons, eq_ok, ih hblocks, applySlashingEvidence,
      normalizeSlashingEvidence_eq_ok_iff hblock, applySingleSlashingEvidence_settings hblock,
      slashingOrder_cons, flatMap_cons, forall_mem_append, foldlM_append]
    constructor
    · rintro ⟨middle, ⟨_, ⟨hvalid, rfl⟩, hfirst⟩, hrest, hlast⟩
      exact ⟨⟨hvalid, hrest⟩, middle, hfirst, hlast⟩
    · rintro ⟨⟨hvalid, hrest⟩, middle, hfirst, hlast⟩
      exact ⟨middle, ⟨_, ⟨hvalid, rfl⟩, hfirst⟩, hrest, hlast⟩

theorem slashingOrder_perm (crypto : Crypto) (settings : BlockRewardInput)
    (blocks : List BlockRewardInput) :
    (slashingOrder crypto settings blocks).Perm
      ((blocks.flatMap BlockRewardInput.evidence).filterMap (offenceOf crypto settings)) := by
  induction blocks with
  | nil => rfl
  | cons block blocks ih =>
    rw [flatMap_cons, filterMap_append]
    exact (perm_insertionSort _ _).append ih

/-- The events of a run are those of all offences exactly if the run is in order. -/
theorem slashes_each_iff (hblocks : ∀ block ∈ blocks, settings.SameSettings block)
    (hrange : ∀ evidence ∈ blocks.flatMap BlockRewardInput.evidence, evidence.InRange)
    (h : slashBlocks crypto blocks ⟨state, []⟩ = .ok final) :
    (jailEvents final.rewards).Perm (offences crypto settings blocks) ↔
      InOrder state (slashingOrder crypto settings blocks) := by
  have hperm := slashingOrder_perm crypto settings blocks
  have hslots : ∀ item ∈ slashingOrder crypto settings blocks, item.2 < 256 ^ 8 := by
    intro item hitem
    obtain ⟨evidence, hevidence, hoffence⟩ := mem_filterMap.mp (hperm.subset hitem)
    exact offenceOf_slot_lt hoffence (hrange evidence hevidence)
  have hrun := ((slashBlocks_eq_ok_iff hblocks).mp h).2
  obtain ⟨slashed, hslashed, hsublist⟩ := exists_sublist_jailEvents hrun hslots
  rw [← jailEvents_eq_iff hrun hslots, hslashed]
  have hoffences : (offences crypto settings blocks).Perm
      ((slashingOrder crypto settings blocks).map offenceKey) := (hperm.map offenceKey).symm
  constructor
  · intro hevents
    have hlength := (hevents.trans hoffences).length_eq
    exact congrArg (jailEvents [] ++ ·) (hsublist.eq_of_length hlength)
  · intro hevents
    rw [hevents]
    exact hoffences.symm

/-- Two ways to spread the same evidence over blocks slash every offence exactly once and leave
the same state exactly if in both the offences of each validator come in the order of their slots,
in distinct slots, and behind the slot the validator was last slashed for. -/
theorem slashing_order_independent_iff (hfirst : ∀ block ∈ first, settings.SameSettings block)
    (hsecond : ∀ block ∈ second, settings.SameSettings block)
    (hperm : (first.flatMap BlockRewardInput.evidence).Perm
      (second.flatMap BlockRewardInput.evidence))
    (hrange : ∀ evidence ∈ first.flatMap BlockRewardInput.evidence, evidence.InRange)
    (hrun : slashBlocks crypto first ⟨state, []⟩ = .ok final) :
    (∃ other, slashBlocks crypto second ⟨state, []⟩ = .ok other ∧
        (jailEvents final.rewards).Perm (offences crypto settings first) ∧
        (jailEvents other.rewards).Perm (offences crypto settings second) ∧
        other.state = final.state) ↔
      InOrder state (slashingOrder crypto settings first) ∧
        InOrder state (slashingOrder crypto settings second) := by
  have hrangeSecond : ∀ evidence ∈ second.flatMap BlockRewardInput.evidence, evidence.InRange :=
    fun evidence hmem => hrange evidence (hperm.symm.subset hmem)
  constructor
  · rintro ⟨other, hother, hfinal, hslashed, -⟩
    exact ⟨(slashes_each_iff hfirst hrange hrun).mp hfinal,
      (slashes_each_iff hsecond hrangeSecond hother).mp hslashed⟩
  · rintro ⟨horder, horderSecond⟩
    obtain ⟨hvalid, hitems⟩ := (slashBlocks_eq_ok_iff hfirst).mp hrun
    have hitemsPerm := ((slashingOrder_perm crypto settings first).trans
      (hperm.filterMap _)).trans (slashingOrder_perm crypto settings second).symm
    have hstates := @foldlM_state crypto settings (slashingOrder crypto settings second) ⟨state, []⟩
    have hfinal := @foldlM_state crypto settings (slashingOrder crypto settings first) ⟨state, []⟩
    rw [← foldlM_slashStep_eq hitemsPerm horder horderSecond, ← hfinal, hitems,
      toOption_ok] at hstates
    obtain ⟨other, hother, hsame⟩ := Option.map_eq_some_iff.mp hstates
    have hrunSecond : slashBlocks crypto second ⟨state, []⟩ = .ok other :=
      (slashBlocks_eq_ok_iff hsecond).mpr
        ⟨fun evidence hmem => hvalid evidence (hperm.symm.subset hmem), toOption_eq_some.mp hother⟩
    exact ⟨other, hrunSecond, (slashes_each_iff hfirst hrange hrun).mpr horder,
      (slashes_each_iff hsecond hrangeSecond hrunSecond).mpr horderSecond, hsame⟩

end

/-! ### Evidence about two slots -/

/-- The votes of `offenderVote` in a given slot. -/
def offenceAt (slot : ℕ) : SlashingEvidence where
  type := .doubleVote
  doubleProposal := none
  doubleVote := some
    { firstVote := { offenderVote 1 with vote := { (offenderVote 1).vote with slot } }
      secondVote := { offenderVote 2 with vote := { (offenderVote 2).vote with slot } } }

def evidenceBlock (slots : List ℕ) : BlockRewardInput :=
  { offenceInput.normalize with evidence := slots.map offenceAt }

/-- A stake that two slashes do not use up. -/
def repeatOffender : ChainState where
  accounts := [
    { address := 3
      account :=
        { lamports := 100000000
          data := ({ offenderStake with
            activeStake := 80000000 }.marshalBinary).toOption.getD []
          owner := defaultBuiltinProgramIDs.stake
          executable := false
          rentEpoch := 0 } }]

theorem evidenceBlock_settings (blocks : List (List ℕ)) :
    ∀ block ∈ blocks.map evidenceBlock, offenceInput.normalize.SameSettings block := by
  intro block hblock
  obtain ⟨slots, -, rfl⟩ := mem_map.mp hblock
  exact ⟨rfl, rfl, rfl, rfl, rfl⟩

theorem offenceAt_inRange {slot : ℕ} (h : slot < 256 ^ 8) : (offenceAt slot).InRange := by
  constructor
  · intro proposals hmem
    cases hmem
  · rintro votes ⟨⟩
    refine ⟨⟨h, ?_, ?_, ?_⟩, ⟨h, ?_, ?_, ?_⟩⟩ <;> simp only [offenderVote] <;> decide

/-- Two offences in two blocks and, listed the other way around, in one block. -/
theorem two_offences_slashed :
    ∃ final other,
      slashBlocks sampleCrypto ([[5], [7]].map evidenceBlock) ⟨repeatOffender, []⟩ = .ok final ∧
      slashBlocks sampleCrypto ([[7, 5]].map evidenceBlock) ⟨repeatOffender, []⟩ = .ok other ∧
      (jailEvents final.rewards).Perm [(3, 5), (3, 7)] ∧ other.state = final.state := by
  have hsucceeds : succeeds (slashBlocks sampleCrypto ([[5], [7]].map evidenceBlock)
      ⟨repeatOffender, []⟩) = true := by
    decide +kernel
  obtain ⟨final, hfinal⟩ := succeeds_iff.mp hsucceeds
  have hperm : (([[5], [7]].map evidenceBlock).flatMap BlockRewardInput.evidence).Perm
      (([[7, 5]].map evidenceBlock).flatMap BlockRewardInput.evidence) :=
    Perm.swap (offenceAt 7) (offenceAt 5) []
  have hrange : ∀ evidence ∈ ([[5], [7]].map evidenceBlock).flatMap BlockRewardInput.evidence,
      evidence.InRange := by
    intro evidence hmem
    obtain rfl | rfl : evidence = offenceAt 5 ∨ evidence = offenceAt 7 := by
      simpa [evidenceBlock] using hmem
    · exact offenceAt_inRange (by decide)
    · exact offenceAt_inRange (by decide)
  have horder : ∀ blocks ∈ [[[5], [7]], [[7, 5]]], InOrder repeatOffender
      (slashingOrder sampleCrypto offenceInput.normalize (blocks.map evidenceBlock)) := by
    have hcheck : ∀ blocks ∈ [[[5], [7]], [[7, 5]]],
        (slashingOrder sampleCrypto offenceInput.normalize (blocks.map evidenceBlock)).Pairwise
          (fun first second => first.1.accountAddress = second.1.accountAddress →
            first.2 < second.2) ∧
        ∀ item ∈ slashingOrder sampleCrypto offenceInput.normalize (blocks.map evidenceBlock),
          ∀ last ∈ repeatOffender.lastSlashedSlotAt item.1.accountAddress, last < item.2 := by
      decide +kernel
    exact fun blocks hblocks => ⟨(hcheck blocks hblocks).1, (hcheck blocks hblocks).2⟩
  obtain ⟨other, hother, hslashed, -, hsame⟩ :=
    (slashing_order_independent_iff (evidenceBlock_settings [[5], [7]])
      (evidenceBlock_settings [[7, 5]]) hperm hrange hfinal).mpr
      ⟨horder _ (by decide), horder _ (by decide)⟩
  have hoffences : offences sampleCrypto offenceInput.normalize ([[5], [7]].map evidenceBlock) =
      [(3, 5), (3, 7)] := by
    decide +kernel
  exact ⟨final, other, hfinal, hother, hoffences ▸ hslashed, hsame⟩

/-- Evidence about slot 5 that comes in a block after evidence about slot 7 is not applied. -/
theorem late_evidence_skipped :
    ∃ final other,
      slashBlocks sampleCrypto ([[5], [7]].map evidenceBlock) ⟨repeatOffender, []⟩ = .ok final ∧
      slashBlocks sampleCrypto ([[7], [5]].map evidenceBlock) ⟨repeatOffender, []⟩ = .ok other ∧
      jailEvents final.rewards = [(3, 5), (3, 7)] ∧ jailEvents other.rewards = [(3, 7)] ∧
      final.state.lamports ≠ other.state.lamports := by
  have hcheck : (slashBlocks sampleCrypto ([[5], [7]].map evidenceBlock)
      ⟨repeatOffender, []⟩).toOption.any (fun final => (slashBlocks sampleCrypto
        ([[7], [5]].map evidenceBlock) ⟨repeatOffender, []⟩).toOption.any fun other =>
          decide (jailEvents final.rewards = [(3, 5), (3, 7)] ∧
            jailEvents other.rewards = [(3, 7)] ∧
            final.state.lamports ≠ other.state.lamports)) = true := by
    decide +kernel
  obtain ⟨final, hfinal, hrest⟩ := exists_of_any hcheck
  obtain ⟨other, hother, hdiffers⟩ := exists_of_any hrest
  exact ⟨final, other, hfinal, hother, of_decide_eq_true hdiffers⟩

end Ordexus
