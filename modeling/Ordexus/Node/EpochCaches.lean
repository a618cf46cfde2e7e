import Ordexus.Consensus.SnapshotRoot
import Ordexus.Library.Transition

/-!
# Caches of epochs

A node keeps the snapshot, the leader schedule and the vote collector of each epoch it has met in
three maps, and those of its current epoch once more beside them (`internal/posnode/epoch.go`,
`main.go`, `epoch_transition.go`). A snapshot can be replaced by a certified one: the schedule is
then dropped, but a collector that exists is used again. So votes are counted with the right stakes
as long as a snapshot that takes the place of another one has the same stakes. Votes do not change
the stake table of a collector and are left out.
-/

namespace Ordexus

open Checked

/-- The fields of `posNode` for epochs. A schedule comes with the id of its epoch; it and the
collector are missing before the first epoch. -/
structure EpochCaches where
  epochSnapshot : EpochSnapshot
  leaderSchedule : Option (ℕ × LeaderSchedule)
  voteCollector : Option VoteCollector
  epochSnapshots : Table ℕ EpochSnapshot
  leaderSchedules : Table ℕ LeaderSchedule
  voteCollectors : Table ℕ VoteCollector

/-- `epochContext`. -/
structure EpochContext where
  epochID : ℕ
  startSlot : ℕ
  snapshot : EpochSnapshot
  schedule : LeaderSchedule
  voteCollector : VoteCollector

/-- The collector and the schedule are those of the snapshot. -/
def EpochContext.Correct (crypto : Crypto) (context : EpochContext) : Prop :=
  context.voteCollector.validatorStake = context.snapshot.stakeMap ∧
    newLeaderSchedule crypto context.snapshot = .ok context.schedule

/-- The id of the epoch of a slot and its first slot. -/
def epochForSlot (epochSlots slot : ℕ) : ℕ × ℕ :=
  if slot = 0 then (0, 1)
  else ((slot - 1) / epochSlots, (slot - 1) / epochSlots * epochSlots + 1)

def entriesUpTo {α : Type} (table : Table ℕ α) (epochID : ℕ) : Table ℕ α :=
  table.keys.foldl (fun kept key => if epochID < key then kept.erase key else kept) table

theorem lookup_entriesUpTo {α : Type} {table : Table ℕ α} {epochID key : ℕ} {value : α}
    (h : (entriesUpTo table epochID).lookup key = some value) : table.lookup key = some value := by
  suffices ∀ (keys : List ℕ) (kept : Table ℕ α), (keys.foldl (fun kept key =>
      if epochID < key then kept.erase key else kept) kept).lookup key = some value →
        kept.lookup key = some value from this table.keys table h
  intro keys
  induction keys with
  | nil => exact fun _ hkept => hkept
  | cons first keys ih =>
    intro kept hlookup
    have hnext := ih _ hlookup
    dsimp only at hnext
    split at hnext
    · by_cases hkey : key = first
      · rw [hkey, AList.lookup_erase] at hnext
        cases hnext
      · rwa [AList.lookup_erase_ne hkey] at hnext
    · exact hnext

namespace EpochCaches

def start : EpochCaches where
  epochSnapshot := ⟨0, 0, 0, 0, 0, [], 0⟩
  leaderSchedule := none
  voteCollector := none
  epochSnapshots := ∅
  leaderSchedules := ∅
  voteCollectors := ∅

section

variable (crypto : Crypto) (caches : EpochCaches)

/-- A collector of the epoch is used again, whatever snapshot it was made from. -/
def voteCollectorForEpochLocked (epochID : ℕ) (snapshot : EpochSnapshot) :
    Except String (VoteCollector × EpochCaches) :=
  match caches.voteCollectors.lookup epochID with
  | some collector => pure (collector, caches)
  | none => do
    let collector ← newVoteCollectorWithQuorums snapshot.stakeMap strictTwoThirds strictTwoThirds
    pure (collector, { caches with
      voteCollectors := caches.voteCollectors.insert epochID collector })

section

variable (snapshot : EpochSnapshot)

def installEpochSnapshotLocked : Except String EpochCaches := do
  let schedule ← newLeaderSchedule crypto snapshot
  let (collector, next) ← caches.voteCollectorForEpochLocked snapshot.epochID snapshot
  pure
    { next with
      epochSnapshot := snapshot
      leaderSchedule := some (snapshot.epochID, schedule)
      voteCollector := some collector
      epochSnapshots := next.epochSnapshots.insert snapshot.epochID snapshot
      leaderSchedules := next.leaderSchedules.insert snapshot.epochID schedule }

/-- A snapshot for an epoch, whose schedule is computed again when it is needed. -/
def storeSnapshot (epochID : ℕ) (snapshot : EpochSnapshot) : EpochCaches :=
  { caches with
    epochSnapshots := caches.epochSnapshots.insert epochID snapshot
    leaderSchedules := caches.leaderSchedules.erase epochID }

/-- `installCertifiedEpochProof`; the epoch of the current slot is given. -/
def installCertifiedEpochProof (currentEpochID : ℕ) : EpochCaches :=
  let stored := caches.storeSnapshot snapshot.epochID snapshot
  if currentEpochID ≠ snapshot.epochID ∨
      (caches.epochSnapshot.epochID = snapshot.epochID ∧
        caches.epochSnapshot.snapshotStateRoot = snapshot.snapshotStateRoot) then stored
  else ((stored.installEpochSnapshotLocked crypto snapshot).toOption).getD stored

/-- The three maps made anew. -/
def dropped : EpochCaches :=
  { caches with epochSnapshots := ∅, leaderSchedules := ∅, voteCollectors := ∅ }

/-- What `activateMultiValidatorMode` does to the caches. -/
def activateMultiValidatorMode : EpochCaches :=
  ((caches.dropped.installEpochSnapshotLocked crypto snapshot).toOption).getD caches.dropped

/-- What `activateEmergencyRecovery` does to the caches: a failure restores them. -/
def activateEmergencyRecovery : EpochCaches :=
  ((caches.dropped.installEpochSnapshotLocked crypto snapshot).toOption).getD caches

end

def pruneFutureEpochContextCachesLocked (committedEpochID : ℕ) : EpochCaches :=
  { caches with
    epochSnapshots := entriesUpTo caches.epochSnapshots committedEpochID
    leaderSchedules := entriesUpTo caches.leaderSchedules committedEpochID
    voteCollectors := entriesUpTo caches.voteCollectors committedEpochID }

def currentSchedule : Except String LeaderSchedule :=
  match caches.leaderSchedule with
  | some (epochID, schedule) =>
    if epochID = caches.epochSnapshot.epochID then pure schedule
    else newLeaderSchedule crypto caches.epochSnapshot
  | none => newLeaderSchedule crypto caches.epochSnapshot

def currentCollector : Except String (VoteCollector × EpochCaches) :=
  match caches.voteCollector with
  | some collector => pure (collector, caches)
  | none => caches.voteCollectorForEpochLocked caches.epochSnapshot.epochID caches.epochSnapshot

def currentContext (startSlot : ℕ) : EpochCaches × Except String EpochContext :=
  match caches.currentSchedule crypto with
  | .error message => (caches, .error message)
  | .ok schedule =>
    let scheduled :=
      { caches with leaderSchedule := some (caches.epochSnapshot.epochID, schedule) }
    match scheduled.currentCollector with
    | .error message => (scheduled, .error message)
    | .ok (collector, next) =>
      ({ next with
          voteCollector := some collector
          epochSnapshots := next.epochSnapshots.insert caches.epochSnapshot.epochID
            caches.epochSnapshot
          leaderSchedules := next.leaderSchedules.insert caches.epochSnapshot.epochID schedule },
        .ok ⟨caches.epochSnapshot.epochID, startSlot, caches.epochSnapshot, schedule, collector⟩)

/-- What `epochContextForSlotLocked` reads besides the caches: the snapshot on disk, and the one
that is computed from the finalized state unless the epoch is still to come. -/
structure SnapshotSource where
  persisted : Except String (Option EpochSnapshot)
  derived : Except String EpochSnapshot

/-- The snapshot of another epoch than the current one. -/
def cachedSnapshot (source : SnapshotSource) (epochID startSlot slot : ℕ) :
    Except String (EpochSnapshot × EpochCaches) :=
  let fits (snapshot : EpochSnapshot) : Bool :=
    snapshot.startSlot = startSlot && slot ≤ snapshot.endSlot
  match (caches.epochSnapshots.lookup epochID).filter fits with
  | some snapshot => pure (snapshot, caches)
  | none => do
    let persisted ← source.persisted
    let snapshot ← persisted.elim source.derived pure
    pure (snapshot, caches.storeSnapshot epochID snapshot)

/-- The schedule that is cached for the epoch, or else that of the snapshot. -/
def cachedSchedule (epochID : ℕ) (snapshot : EpochSnapshot) :
    Except String (LeaderSchedule × EpochCaches) :=
  match caches.leaderSchedules.lookup epochID with
  | some schedule => pure (schedule, caches)
  | none => do
    let schedule ← newLeaderSchedule crypto snapshot
    pure (schedule, { caches with
      leaderSchedules := caches.leaderSchedules.insert epochID schedule })

/-- The context of a slot of another epoch. What was cached before a failure stays. -/
def cachedContext (source : SnapshotSource) (epochID startSlot slot : ℕ) :
    EpochCaches × Except String EpochContext :=
  match caches.cachedSnapshot source epochID startSlot slot with
  | .error message => (caches, .error message)
  | .ok (snapshot, stored) =>
    match stored.cachedSchedule crypto epochID snapshot with
    | .error message => (stored, .error message)
    | .ok (schedule, scheduled) =>
      match scheduled.voteCollectorForEpochLocked epochID snapshot with
      | .error message => (scheduled, .error message)
      | .ok (collector, next) =>
        (next, .ok ⟨epochID, startSlot, snapshot, schedule, collector⟩)

def epochContextForSlotLocked (epochSlots slot : ℕ) (source : SnapshotSource) :
    EpochCaches × Except String EpochContext :=
  let (epochID, startSlot) := epochForSlot epochSlots slot
  if caches.epochSnapshot.epochID = epochID ∧ caches.epochSnapshot.startSlot = startSlot ∧
      slot ≤ caches.epochSnapshot.endSlot ∧ caches.epochSnapshot.validators ≠ [] then
    caches.currentContext crypto startSlot
  else caches.cachedContext crypto source epochID startSlot slot

end

/-! ### Coherence -/

/-- A collector of the epoch has these stakes. -/
def CountsWith (caches : EpochCaches) (epochID : ℕ) (stakes : Table ValidatorID ℕ) : Prop :=
  ∀ collector ∈ caches.voteCollectors.lookup epochID, collector.validatorStake = stakes

/-- A snapshot that is stored for an epoch has the stakes of the collector of the epoch and, if it
is the current one, of the current snapshot. -/
def Agrees (caches : EpochCaches) (epochID : ℕ) (snapshot : EpochSnapshot) : Prop :=
  caches.CountsWith epochID snapshot.stakeMap ∧
    (caches.epochSnapshot.validators ≠ [] → caches.epochSnapshot.epochID = epochID →
      caches.epochSnapshot.stakeMap = snapshot.stakeMap)

/-- Collectors and schedules belong to the snapshots beside them. -/
structure Coherent (crypto : Crypto) (caches : EpochCaches) : Prop where
  collectors : ∀ epochID, ∀ snapshot ∈ caches.epochSnapshots.lookup epochID,
    caches.CountsWith epochID snapshot.stakeMap
  schedules : ∀ epochID, ∀ snapshot ∈ caches.epochSnapshots.lookup epochID,
    ∀ schedule ∈ caches.leaderSchedules.lookup epochID,
      newLeaderSchedule crypto snapshot = .ok schedule
  collector : ∀ collector ∈ caches.voteCollector,
    collector.validatorStake = caches.epochSnapshot.stakeMap
  schedule : ∀ schedule, caches.leaderSchedule = some (caches.epochSnapshot.epochID, schedule) →
    newLeaderSchedule crypto caches.epochSnapshot = .ok schedule
  current : caches.epochSnapshot.validators ≠ [] →
    caches.CountsWith caches.epochSnapshot.epochID caches.epochSnapshot.stakeMap ∧
      ∀ snapshot ∈ caches.epochSnapshots.lookup caches.epochSnapshot.epochID,
        snapshot.stakeMap = caches.epochSnapshot.stakeMap

variable {crypto : Crypto} {caches next : EpochCaches} {epochID : ℕ} {snapshot : EpochSnapshot}
  {collector : VoteCollector}

theorem Coherent.start : Coherent crypto start :=
  ⟨nofun, nofun, nofun, nofun, fun h => absurd rfl h⟩

/-- The collector has the given stakes, and afterwards the map has no other ones for the epoch. -/
def Provides (caches : EpochCaches) (epochID : ℕ) (stakes : Table ValidatorID ℕ)
    (collector : VoteCollector) (next : EpochCaches) : Prop :=
  collector.validatorStake = stakes ∧ next.CountsWith epochID stakes ∧
    next = { caches with voteCollectors := next.voteCollectors } ∧
      ∀ found ≠ epochID, next.voteCollectors.lookup found = caches.voteCollectors.lookup found

theorem provides_of_voteCollectorForEpochLocked
    (h : caches.voteCollectorForEpochLocked epochID snapshot = .ok (collector, next))
    (hcounts : caches.CountsWith epochID snapshot.stakeMap) :
    caches.Provides epochID snapshot.stakeMap collector next := by
  unfold voteCollectorForEpochLocked at h
  cases hlookup : caches.voteCollectors.lookup epochID with
  | some known =>
    rw [hlookup] at h
    cases h
    exact ⟨hcounts _ hlookup, hcounts, rfl, fun _ _ => rfl⟩
  | none =>
    simp only [hlookup, eq_ok, newVoteCollectorWithQuorums] at h
    obtain ⟨created, ⟨_, -, _, -, _, -, -, rfl⟩, hnext⟩ := h
    cases hnext
    refine ⟨rfl, fun other hother => ?_, rfl, fun found hfound => ?_⟩
    · rw [Table.lookup_insert, if_pos rfl] at hother
      rw [← Option.some.inj hother]
    · rw [Table.lookup_insert, if_neg hfound]

section

variable (h : Coherent crypto caches)
include h

theorem Coherent.storeSnapshot (hagrees : caches.Agrees epochID snapshot) :
    Coherent crypto (caches.storeSnapshot epochID snapshot) := by
  refine ⟨fun found stored hstored => ?_, fun found stored hstored schedule hschedule => ?_,
    h.collector, h.schedule, fun hlisted => ⟨(h.current hlisted).1, fun stored hstored => ?_⟩⟩
  all_goals
    rw [EpochCaches.storeSnapshot, Table.lookup_insert] at hstored
    split at hstored
  · next hfound =>
    cases hstored
    rw [hfound]
    exact hagrees.1
  · exact h.collectors found stored hstored
  · next hfound =>
    rw [EpochCaches.storeSnapshot, hfound, AList.lookup_erase] at hschedule
    cases hschedule
  · next hfound =>
    rw [EpochCaches.storeSnapshot, AList.lookup_erase_ne hfound] at hschedule
    exact h.schedules found stored hstored schedule hschedule
  · next hfound =>
    cases hstored
    exact (hagrees.2 hlisted hfound).symm
  · exact (h.current hlisted).2 stored hstored

/-- A snapshot becomes the current one, with its own schedule and a collector of its stakes. -/
theorem Coherent.settle {schedule : LeaderSchedule}
    (hschedule : newLeaderSchedule crypto snapshot = .ok schedule)
    (hprovides : caches.Provides snapshot.epochID snapshot.stakeMap collector next) :
    Coherent crypto
      { next with
        epochSnapshot := snapshot
        leaderSchedule := some (snapshot.epochID, schedule)
        voteCollector := some collector
        epochSnapshots := next.epochSnapshots.insert snapshot.epochID snapshot
        leaderSchedules := next.leaderSchedules.insert snapshot.epochID schedule } := by
  obtain ⟨hstake, hcounts, hnext, hothers⟩ := hprovides
  refine ⟨fun found stored hstored other hother => ?_,
    fun found stored hstored listed hlisted => ?_, ?_, ?_, fun _ => ⟨hcounts, ?_⟩⟩
  · simp only [Option.mem_def, Table.lookup_insert] at hstored hother
    split at hstored
    · next hfound =>
      cases hstored
      exact hcounts other (hfound ▸ hother)
    · next hfound =>
      rw [hothers found hfound] at hother
      rw [hnext] at hstored
      exact h.collectors found stored hstored other hother
  · simp only [Option.mem_def, Table.lookup_insert] at hstored hlisted
    split at hstored
    · next hfound =>
      rw [if_pos hfound] at hlisted
      rw [← Option.some.inj hstored, ← Option.some.inj hlisted, hschedule]
    · next hfound =>
      rw [if_neg hfound] at hlisted
      rw [hnext] at hstored hlisted
      exact h.schedules found stored hstored listed hlisted
  · exact fun found hfound => Option.some.inj hfound ▸ hstake
  · exact fun listed hlisted => (Prod.mk.inj (Option.some.inj hlisted)).2 ▸ hschedule
  · intro stored hstored
    rw [Table.lookup_insert, if_pos rfl] at hstored
    rw [← Option.some.inj hstored]

theorem Coherent.install (hcounts : caches.CountsWith snapshot.epochID snapshot.stakeMap)
    (hinstalled : caches.installEpochSnapshotLocked crypto snapshot = .ok next) :
    Coherent crypto next := by
  simp only [installEpochSnapshotLocked, eq_ok] at hinstalled
  obtain ⟨schedule, hschedule, ⟨collector, cached⟩, hcollector, rfl⟩ := hinstalled
  exact h.settle hschedule (provides_of_voteCollectorForEpochLocked hcollector hcounts)

/-- An installation that may fail, with the caches of that case. -/
theorem Coherent.tryInstall (hcounts : caches.CountsWith snapshot.epochID snapshot.stakeMap)
    {otherwise : EpochCaches} (hotherwise : Coherent crypto otherwise) :
    Coherent crypto
      (((caches.installEpochSnapshotLocked crypto snapshot).toOption).getD otherwise) := by
  cases hinstalled : caches.installEpochSnapshotLocked crypto snapshot with
  | error message => exact hotherwise
  | ok next => exact h.install hcounts hinstalled

theorem Coherent.dropped : Coherent crypto caches.dropped :=
  ⟨nofun, nofun, h.collector, h.schedule, fun _ => ⟨nofun, nofun⟩⟩

theorem Coherent.prune (committedEpochID : ℕ) :
    Coherent crypto (caches.pruneFutureEpochContextCachesLocked committedEpochID) where
  collectors found stored hstored other hother :=
    h.collectors found stored (lookup_entriesUpTo hstored) other (lookup_entriesUpTo hother)
  schedules found stored hstored schedule hschedule :=
    h.schedules found stored (lookup_entriesUpTo hstored) schedule (lookup_entriesUpTo hschedule)
  collector := h.collector
  schedule := h.schedule
  current hlisted :=
    ⟨fun other hother => (h.current hlisted).1 other (lookup_entriesUpTo hother),
      fun stored hstored => (h.current hlisted).2 stored (lookup_entriesUpTo hstored)⟩

/-! ### Contexts -/

theorem Coherent.currentContext (hlisted : caches.epochSnapshot.validators ≠ []) (startSlot : ℕ) :
    Coherent crypto (caches.currentContext crypto startSlot).1 ∧
      ∀ context ∈ (caches.currentContext crypto startSlot).2.toOption, context.Correct crypto := by
  unfold EpochCaches.currentContext
  cases hschedule : caches.currentSchedule crypto with
  | error message => exact ⟨h, nofun⟩
  | ok schedule =>
    have hright : newLeaderSchedule crypto caches.epochSnapshot = .ok schedule := by
      unfold currentSchedule at hschedule
      split at hschedule
      · split at hschedule
        · next hsome hid =>
          rw [hid, pure_eq_ok.mp hschedule] at hsome
          exact h.schedule schedule hsome
        · exact hschedule
      · exact hschedule
    have hscheduled : Coherent crypto
        { caches with leaderSchedule := some (caches.epochSnapshot.epochID, schedule) } :=
      { h with schedule := fun other hother => (Prod.mk.inj (Option.some.inj hother)).2 ▸ hright }
    dsimp only
    cases hcollector : currentCollector
        { caches with leaderSchedule := some (caches.epochSnapshot.epochID, schedule) } with
    | error message => exact ⟨hscheduled, nofun⟩
    | ok result =>
      obtain ⟨collector, next⟩ := result
      have hprovides : Provides
          { caches with leaderSchedule := some (caches.epochSnapshot.epochID, schedule) }
          caches.epochSnapshot.epochID caches.epochSnapshot.stakeMap collector next := by
        unfold currentCollector at hcollector
        split at hcollector
        · next hsome =>
          cases hcollector
          exact ⟨h.collector _ hsome, (h.current hlisted).1, rfl, fun _ _ => rfl⟩
        · exact provides_of_voteCollectorForEpochLocked hcollector (h.current hlisted).1
      have hsettled := hscheduled.settle hright hprovides
      rw [hprovides.2.2.1] at hsettled ⊢
      exact ⟨hsettled, fun context hcontext => Option.some.inj hcontext ▸ ⟨hprovides.1, hright⟩⟩

end

/-- The snapshot that was loaded or computed. -/
def SnapshotSource.Offers (source : SnapshotSource) (snapshot : EpochSnapshot) : Prop :=
  source.persisted = .ok (some snapshot) ∨ source.derived = .ok snapshot

section

variable (h : Coherent crypto caches)
include h

theorem Coherent.cachedSnapshot {source : SnapshotSource}
    (hoffers : ∀ offered, source.Offers offered → caches.Agrees epochID offered)
    {startSlot slot : ℕ}
    (hsnapshot : caches.cachedSnapshot source epochID startSlot slot = .ok (snapshot, next)) :
    Coherent crypto next ∧ next.epochSnapshots.lookup epochID = some snapshot ∧
      next.Agrees epochID snapshot := by
  unfold EpochCaches.cachedSnapshot at hsnapshot
  dsimp only at hsnapshot
  split at hsnapshot
  · next hknown =>
    cases hsnapshot
    have hlookup := (Option.filter_eq_some_iff.mp hknown).1
    refine ⟨h, hlookup, h.collectors epochID snapshot hlookup, ?_⟩
    rintro hlisted rfl
    exact ((h.current hlisted).2 snapshot hlookup).symm
  · simp only [eq_ok] at hsnapshot
    obtain ⟨persisted, hpersisted, _, hloaded, hnext⟩ := hsnapshot
    cases hnext
    have hagrees : caches.Agrees epochID snapshot := by
      cases persisted with
      | none => exact hoffers snapshot (.inr hloaded)
      | some stored => exact hoffers snapshot (.inl (pure_eq_ok.mp hloaded ▸ hpersisted))
    exact ⟨h.storeSnapshot hagrees, by rw [EpochCaches.storeSnapshot, AList.lookup_insert], hagrees⟩

theorem Coherent.cachedSchedule (hlookup : caches.epochSnapshots.lookup epochID = some snapshot)
    {schedule : LeaderSchedule}
    (hschedule : caches.cachedSchedule crypto epochID snapshot = .ok (schedule, next)) :
    newLeaderSchedule crypto snapshot = .ok schedule ∧ Coherent crypto next ∧
      next = { caches with leaderSchedules := next.leaderSchedules } := by
  unfold EpochCaches.cachedSchedule at hschedule
  split at hschedule
  · next hknown =>
    cases hschedule
    exact ⟨h.schedules epochID snapshot hlookup _ hknown, h, rfl⟩
  · simp only [eq_ok] at hschedule
    obtain ⟨computed, hcomputed, hnext⟩ := hschedule
    cases hnext
    refine ⟨hcomputed, ⟨h.collectors, fun found stored hstored listed hlisted => ?_, h.collector,
      h.schedule, h.current⟩, rfl⟩
    rw [Table.lookup_insert] at hlisted
    split at hlisted
    · next hfound =>
      rw [hfound, hlookup] at hstored
      rw [← Option.some.inj hstored, ← Option.some.inj hlisted, hcomputed]
    · exact h.schedules found stored hstored listed hlisted

/-- A collector is taken for the snapshot that is stored for its epoch. -/
theorem Coherent.collect (hlookup : caches.epochSnapshots.lookup epochID = some snapshot)
    (hagrees : caches.Agrees epochID snapshot)
    (hprovides : caches.Provides epochID snapshot.stakeMap collector next) :
    Coherent crypto next := by
  obtain ⟨-, hcounts, hnext, hothers⟩ := hprovides
  have hkept : ∀ found stakes, caches.CountsWith found stakes →
      (found = epochID → snapshot.stakeMap = stakes) → next.CountsWith found stakes := by
    intro found stakes hbefore hsame other hother
    by_cases hfound : found = epochID
    · rw [hcounts other (hfound ▸ hother), hsame hfound]
    · rw [hothers found hfound] at hother
      exact hbefore other hother
  rw [hnext] at hkept ⊢
  refine ⟨fun found stored hstored => hkept found _ (h.collectors found stored hstored) ?_,
    h.schedules, h.collector, h.schedule, fun hlisted => ⟨hkept _ _ (h.current hlisted).1
      fun hfound => (hagrees.2 hlisted hfound).symm, (h.current hlisted).2⟩⟩
  rintro rfl
  rw [hlookup] at hstored
  rw [Option.some.inj hstored]

theorem Coherent.cachedContext {source : SnapshotSource}
    (hoffers : ∀ offered, source.Offers offered → caches.Agrees epochID offered)
    (startSlot slot : ℕ) :
    Coherent crypto (caches.cachedContext crypto source epochID startSlot slot).1 ∧
      ∀ context ∈ (caches.cachedContext crypto source epochID startSlot slot).2.toOption,
        context.Correct crypto := by
  unfold EpochCaches.cachedContext
  cases hsnapshot : caches.cachedSnapshot source epochID startSlot slot with
  | error message => exact ⟨h, nofun⟩
  | ok result =>
    obtain ⟨snapshot, stored⟩ := result
    obtain ⟨hstored, hlookup, hagrees⟩ := h.cachedSnapshot hoffers hsnapshot
    dsimp only
    cases hschedule : stored.cachedSchedule crypto epochID snapshot with
    | error message => exact ⟨hstored, nofun⟩
    | ok result =>
      obtain ⟨schedule, scheduled⟩ := result
      obtain ⟨hright, hscheduled, hsame⟩ := hstored.cachedSchedule hlookup hschedule
      have hlookup' : scheduled.epochSnapshots.lookup epochID = some snapshot := by
        rw [hsame]
        exact hlookup
      have hagrees' : scheduled.Agrees epochID snapshot := by
        rw [hsame]
        exact hagrees
      dsimp only
      cases hcollector : scheduled.voteCollectorForEpochLocked epochID snapshot with
      | error message => exact ⟨hscheduled, nofun⟩
      | ok result =>
        have hprovides := provides_of_voteCollectorForEpochLocked hcollector hagrees'.1
        exact ⟨hscheduled.collect hlookup' hagrees' hprovides,
          fun context hcontext => Option.some.inj hcontext ▸ ⟨hprovides.1, hright⟩⟩

/-- A slot's context is right and leaves the caches coherent. -/
theorem Coherent.context {source : SnapshotSource} (epochSlots slot : ℕ)
    (hoffers : ∀ offered, source.Offers offered →
      caches.Agrees (epochForSlot epochSlots slot).1 offered) :
    Coherent crypto (caches.epochContextForSlotLocked crypto epochSlots slot source).1 ∧
      ∀ context ∈ (caches.epochContextForSlotLocked crypto epochSlots slot source).2.toOption,
        context.Correct crypto := by
  unfold epochContextForSlotLocked
  dsimp only
  split
  · next hcurrent => exact h.currentContext hcurrent.2.2.2 _
  · exact h.cachedContext hoffers _ _

end

end EpochCaches

/-! ### Runs -/

/-- What happens to the caches of a node. -/
inductive EpochEvent
  | install (snapshot : EpochSnapshot)
  | certify (snapshot : EpochSnapshot) (currentEpochID : ℕ)
  | sync (snapshots : List EpochSnapshot)
  | activate (snapshot : EpochSnapshot)
  | recover (snapshot : EpochSnapshot)
  | prune (committedEpochID : ℕ)
  | context (slot : ℕ) (source : EpochCaches.SnapshotSource)

namespace EpochCaches

/-- The caches after an event; a failed installation leaves them as they are. -/
def handle (crypto : Crypto) (epochSlots : ℕ) (caches : EpochCaches) : EpochEvent → EpochCaches
  | .install snapshot => ((caches.installEpochSnapshotLocked crypto snapshot).toOption).getD caches
  | .certify snapshot currentEpochID =>
    caches.installCertifiedEpochProof crypto snapshot currentEpochID
  | .sync snapshots =>
    snapshots.foldl (fun caches snapshot => caches.storeSnapshot snapshot.epochID snapshot) caches
  | .activate snapshot => caches.activateMultiValidatorMode crypto snapshot
  | .recover snapshot => caches.activateEmergencyRecovery crypto snapshot
  | .prune committedEpochID => caches.pruneFutureEpochContextCachesLocked committedEpochID
  | .context slot source => (caches.epochContextForSlotLocked crypto epochSlots slot source).1

/-- A snapshot of an epoch that the node counts votes of already has the same stakes. -/
def KeepsStakes (epochSlots : ℕ) (caches : EpochCaches) : EpochEvent → Prop
  | .install snapshot => caches.CountsWith snapshot.epochID snapshot.stakeMap
  | .certify snapshot _ => caches.Agrees snapshot.epochID snapshot
  | .sync snapshots => ∀ snapshot ∈ snapshots, caches.Agrees snapshot.epochID snapshot
  | .context slot source => ∀ snapshot, source.Offers snapshot →
    caches.Agrees (epochForSlot epochSlots slot).1 snapshot
  | .activate _ | .recover _ | .prune _ => True

variable {crypto : Crypto} {epochSlots : ℕ} {caches : EpochCaches}

theorem Coherent.handle (h : Coherent crypto caches) {event : EpochEvent}
    (hkeeps : caches.KeepsStakes epochSlots event) :
    Coherent crypto (caches.handle crypto epochSlots event) := by
  cases event with
  | install snapshot => exact h.tryInstall hkeeps h
  | certify snapshot currentEpochID =>
    have hstored := h.storeSnapshot hkeeps
    change Coherent crypto (caches.installCertifiedEpochProof crypto snapshot currentEpochID)
    unfold installCertifiedEpochProof
    split
    · exact hstored
    · exact hstored.tryInstall hkeeps.1 hstored
  | sync snapshots =>
    -- storing changes neither the collectors nor the current snapshot
    induction snapshots generalizing caches with
    | nil => exact h
    | cons snapshot snapshots ih =>
      obtain ⟨hfirst, hrest⟩ := List.forall_mem_cons.mp hkeeps
      exact ih (h.storeSnapshot hfirst) hrest
  | activate snapshot => exact h.dropped.tryInstall nofun h.dropped
  | recover snapshot => exact h.dropped.tryInstall nofun h
  | prune committedEpochID => exact h.prune committedEpochID
  | context slot source => exact (h.context epochSlots slot hkeeps).1

/-- In a run in which no snapshot changes the stakes an epoch is counted with, the collector and
the schedule of every context are those of its snapshot. -/
theorem context_counts_snapshot_stakes
    (hrun : Transition.Reaches (fun caches event => some (caches.handle crypto epochSlots event))
      (KeepsStakes epochSlots) start caches) {slot : ℕ} {source : SnapshotSource}
    (hkeeps : caches.KeepsStakes epochSlots (.context slot source)) :
    ∀ context, (caches.epochContextForSlotLocked crypto epochSlots slot source).2 = .ok context →
      context.voteCollector.validatorStake = context.snapshot.stakeMap ∧
        newLeaderSchedule crypto context.snapshot = .ok context.schedule := by
  have hcoherent : Coherent crypto caches := by
    refine hrun.invariant Coherent.start ?_
    rintro before event _ hbefore hevent ⟨⟩
    exact hbefore.handle hevent
  intro context hcontext
  refine (hcoherent.context epochSlots slot hkeeps).2 context ?_
  rw [hcontext]
  rfl

/-- A node that has no snapshot but those in its caches. -/
def nothingStored : SnapshotSource := ⟨.ok none, .error "epoch snapshot is not authenticated"⟩

/-- The snapshot of two validators with the given stakes. -/
def stakedSnapshot (first second : ℕ) : EpochSnapshot :=
  { twoValidatorSnapshot [stakedValidator 1 first, stakedValidator 2 second] with
    totalActiveStake := first + second
    snapshotStateRoot := first }

/-- The caches after the snapshot of two stakes of one lamport was installed. -/
def installed : EpochCaches := start.handle openCrypto 4 (.install (stakedSnapshot 1 1))

theorem installed_snapshot_counted :
    ∃ context, (installed.epochContextForSlotLocked openCrypto 4 5 nothingStored).2 = .ok context ∧
      context.voteCollector.validatorStake = context.snapshot.stakeMap ∧
        newLeaderSchedule openCrypto context.snapshot = .ok context.schedule := by
  have hkept : start.KeepsStakes 4 (.install (stakedSnapshot 1 1)) := nofun
  have hgiven : (installed.epochContextForSlotLocked openCrypto 4 5
      nothingStored).2.toOption.isSome = true := by decide +kernel
  cases hcontext : (installed.epochContextForSlotLocked openCrypto 4 5 nothingStored).2 with
  | error message =>
    rw [hcontext] at hgiven
    cases hgiven
  | ok context =>
    refine ⟨context, rfl, context_counts_snapshot_stakes (.next .start hkept rfl) ?_ _ hcontext⟩
    rintro offered (hoffered | hoffered) <;> cases hoffered

/-- A certified snapshot takes the place of an installed one: its votes are still counted with the
stakes of the first. -/
theorem certified_snapshot_miscounted : ((installed.handle openCrypto 4
    (.certify (stakedSnapshot 2 3) 1)).epochContextForSlotLocked openCrypto 4 5
      nothingStored).2.toOption.any (fun context => context.snapshot = stakedSnapshot 2 3 ∧
        context.voteCollector.validatorStake.entries ≠ context.snapshot.stakeMap.entries) =
          true := by
  decide +kernel

end EpochCaches

end Ordexus
