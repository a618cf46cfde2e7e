import Ordexus.Library.Table
import Ordexus.Library.Weight

/-!
# Tables of weights

A table gives each voter a weight, and a list of voters without repetitions holds the sum
of their weights. The lemmas say what the voters of a list hold in terms of the set they
are, so that the counting facts about weighted sets apply.
-/

namespace WeightTable

open Weight List

variable {κ : Type}

/-- What the keys of a set weigh together. -/
def held (table : Table κ ℕ) (members : κ → Bool) : ℕ :=
  Weight.of (fun entry => entry.2) table.entries fun entry => members entry.1

def total (table : Table κ ℕ) : ℕ :=
  (table.entries.map fun entry => entry.2).sum

/-- The weight of a key; a key without an entry has none. -/
def weight [DecidableEq κ] (table : Table κ ℕ) (key : κ) : ℕ :=
  (table.lookup key).getD 0

variable {table : Table κ ℕ} {members others : κ → Bool} {keys : List κ} {key : κ} {value : ℕ}

theorem weight_of_lookup [DecidableEq κ] (h : table.lookup key = some value) :
    weight table key = value := by
  simp [weight, h]

theorem held_all (h : ∀ entry ∈ table.entries, members entry.1 = true) :
    held table members = total table := by
  rw [total, ← of_true]
  exact of_congr h

theorem held_le_total (table : Table κ ℕ) (members : κ → Bool) :
    held table members ≤ total table := by
  rw [← @held_all _ table (fun _ => true) fun _ _ => rfl]
  exact of_mono fun _ _ _ => rfl

theorem held_congr (h : ∀ key, members key = others key) : held table members = held table others :=
  of_congr fun entry _ => h entry.1

/-- Two sets overlap in at least the weight by which they exceed the whole table. -/
theorem held_add_le (table : Table κ ℕ) (members others : κ → Bool) :
    held table members + held table others ≤
      total table + held table fun key => members key && others key :=
  of_add_le _ _ _ _

/-- Disjoint sets hold at most the whole table. -/
theorem held_add_le_total (h : ∀ key, members key = true → others key = false) :
    held table members + held table others ≤ total table := by
  have hoverlap := held_add_le table members others
  have hnone : held table (fun key => members key && others key) = 0 := by
    unfold held of
    rw [filter_eq_nil_iff.mpr]
    · rfl
    · intro entry _ hboth
      rw [Bool.and_eq_true] at hboth
      rw [h _ hboth.1] at hboth
      exact absurd hboth.2 (by decide)
  omega

variable [DecidableEq κ]

theorem of_key (entries : List (Sigma fun _ : κ => ℕ)) (hnodup : entries.NodupKeys) :
    of (fun entry => entry.2) entries (fun entry => decide (entry.1 = key)) =
      (entries.dlookup key).getD 0 := by
  induction entries with
  | nil => rfl
  | cons entry entries ih =>
    obtain ⟨hfresh, hrest⟩ := nodupKeys_cons.mp hnodup
    rw [of_cons, ih hrest]
    by_cases hkey : entry.1 = key
    · obtain ⟨first, value⟩ := entry
      subst hkey
      have hnone : entries.dlookup first = none := dlookup_eq_none.mpr hfresh
      simp [dlookup_cons_eq, hnone]
    · simp [hkey, dlookup_cons_ne entries entry (Ne.symm hkey)]

theorem held_insert (table : Table κ ℕ) {members : κ → Bool} {key : κ} (h : members key = false) :
    held table (fun other => decide (other = key) || members other) =
      held table members + weight table key := by
  have hsplit := of_or_add_of_and (fun entry : Sigma fun _ : κ => ℕ => entry.2)
    table.entries (fun entry => decide (entry.1 = key)) fun entry => members entry.1
  have hnone : of (fun entry : Sigma fun _ : κ => ℕ => entry.2) table.entries
      (fun entry => decide (entry.1 = key) && members entry.1) = 0 := by
    unfold of
    rw [filter_eq_nil_iff.mpr]
    · rfl
    · intro entry _ hboth
      simp only [Bool.and_eq_true, decide_eq_true_eq] at hboth
      rw [hboth.1, h] at hboth
      exact absurd hboth.2 (by decide)
  rw [of_key table.entries table.nodupKeys] at hsplit
  simp only [held, weight, AList.lookup]
  omega

/-- What the keys of a list weigh together, each counted once. -/
def heldBy (table : Table κ ℕ) (keys : List κ) : ℕ :=
  held table fun key => decide (key ∈ keys)

theorem heldBy_nil (table : Table κ ℕ) : heldBy table [] = 0 := by
  simp [heldBy, held, of]

theorem heldBy_cons (table : Table κ ℕ) (h : key ∉ keys) :
    heldBy table (key :: keys) = heldBy table keys + weight table key := by
  unfold heldBy
  rw [← @held_insert _ _ table (fun other => decide (other ∈ keys)) key (by simpa using h)]
  exact held_congr fun other => by simp

theorem heldBy_congr {others : List κ} (h : ∀ key, key ∈ keys ↔ key ∈ others) :
    heldBy table keys = heldBy table others :=
  held_congr fun key => by simp [h key]

theorem heldBy_mono {others : List κ} (h : ∀ key ∈ keys, key ∈ others) :
    heldBy table keys ≤ heldBy table others :=
  of_mono fun entry _ hmem => by simpa using h entry.1 (by simpa using hmem)

theorem heldBy_le_total (table : Table κ ℕ) (keys : List κ) : heldBy table keys ≤ total table :=
  held_le_total _ _

/-- Lists without a common key hold at most the whole table. -/
theorem heldBy_add_le_total {others : List κ} (h : ∀ key ∈ keys, key ∉ others) :
    heldBy table keys + heldBy table others ≤ total table :=
  held_add_le_total fun key hmem => by simpa using h key (by simpa using hmem)

/-- The common keys of two lists hold at least the weight by which the lists exceed the
whole table. -/
theorem heldBy_add_le (table : Table κ ℕ) {others common : List κ}
    (h : ∀ key ∈ keys, key ∈ others → key ∈ common) :
    heldBy table keys + heldBy table others ≤ total table + heldBy table common := by
  have hoverlap := held_add_le table (fun key => decide (key ∈ keys)) fun key =>
    decide (key ∈ others)
  have hcommon : held table (fun key => decide (key ∈ keys) && decide (key ∈ others)) ≤
      heldBy table common := by
    refine of_mono fun entry _ hboth => ?_
    simp only [Bool.and_eq_true, decide_eq_true_eq] at hboth ⊢
    exact h _ hboth.1 hboth.2
  exact hoverlap.trans (Nat.add_le_add_left hcommon _)

/-- What a list of distinct keys holds is the sum of their weights. -/
theorem sum_weight (hnodup : keys.Nodup) : (keys.map (weight table)).sum = heldBy table keys := by
  induction keys with
  | nil => exact (heldBy_nil table).symm
  | cons key keys ih =>
    obtain ⟨hfresh, hrest⟩ := nodup_cons.mp hnodup
    rw [map_cons, sum_cons, ih hrest, heldBy_cons table hfresh, Nat.add_comm]

/-- Keys that hold everything are all keys. -/
theorem mem_of_heldBy_eq_total (hpositive : ∀ entry ∈ table.entries, 0 < entry.2)
    (h : heldBy table keys = total table) (hkey : table.lookup key = some value) : key ∈ keys := by
  by_contra hout
  have hmem : (⟨key, value⟩ : Sigma fun _ : κ => ℕ) ∈ table.entries := AList.mem_lookup_iff.mp hkey
  have hcons := heldBy_cons table hout
  have hle := heldBy_le_total table (key :: keys)
  rw [weight_of_lookup hkey] at hcons
  have hvalue := hpositive _ hmem
  dsimp only at hvalue
  omega

/-- The keys of a table that belong to a set hold what the set holds. -/
theorem heldBy_filter (table : Table κ ℕ) (members : κ → Bool) :
    heldBy table (table.keys.filter members) = held table members := by
  refine of_congr fun entry hmem => ?_
  have hkey : entry.1 ∈ table.keys := mem_map_of_mem hmem
  simp [hkey]

end WeightTable
