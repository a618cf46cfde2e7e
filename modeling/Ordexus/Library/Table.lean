import Mathlib.Algebra.BigOperators.Group.List.Basic
import Mathlib.Algebra.GroupWithZero.Nat
import Mathlib.Data.List.AList

/-!
# Finite tables

A table keeps one value per key. Conservation arguments are about sums over its
entries: `total_insert` says how such a sum moves when one entry is written, and
everything else follows from it by arithmetic.
-/

/-- A finite map with computable look-up. -/
abbrev Table (κ α : Type) := AList fun _ : κ => α

namespace Table

open List

variable {κ α : Type}

def total (weight : κ → α → ℕ) (table : Table κ α) : ℕ :=
  (table.entries.map fun entry => weight entry.1 entry.2).sum

variable [DecidableEq κ] {weight : κ → α → ℕ} {table : Table κ α} {key : κ} {value : α}

/-- The weight of what a table holds at a key; nothing weighs nothing. -/
def weightAt (weight : κ → α → ℕ) (table : Table κ α) (key : κ) : ℕ :=
  (table.lookup key).elim 0 (weight key)

def All (property : κ → α → Prop) (table : Table κ α) : Prop :=
  ∀ key value, table.lookup key = some value → property key value

theorem All.of_entries {property : κ → α → Prop}
    (h : ∀ entry ∈ table.entries, property entry.1 entry.2) : All property table :=
  fun key value hlookup => h ⟨key, value⟩ (AList.mem_lookup_iff.mp hlookup)

theorem weightAt_of_lookup (h : table.lookup key = some value) :
    weightAt weight table key = weight key value := by
  simp [weightAt, h]

theorem sum_kerase (entries : List (Sigma fun _ : κ => α)) (hnodup : entries.NodupKeys) :
    ((entries.kerase key).map fun entry => weight entry.1 entry.2).sum +
        (entries.dlookup key).elim 0 (weight key) =
      (entries.map fun entry => weight entry.1 entry.2).sum := by
  induction entries with
  | nil => simp
  | cons entry entries ih =>
    obtain ⟨first, content⟩ := entry
    have ih := ih (nodupKeys_cons.mp hnodup).2
    by_cases hkey : key = first
    · subst hkey
      simp only [kerase_cons_eq, dlookup_cons_eq, map_cons, sum_cons, Option.elim_some]
      omega
    · rw [kerase_cons_ne hkey, dlookup_cons_ne entries ⟨first, content⟩ hkey]
      simp only [map_cons, sum_cons]
      omega

/-- Writing an entry adds its weight and takes away the weight it replaces. -/
theorem total_insert (weight : κ → α → ℕ) (table : Table κ α) (key : κ) (value : α) :
    total weight (table.insert key value) + weightAt weight table key =
      total weight table + weight key value := by
  have herase := @sum_kerase κ α _ weight key table.entries table.nodupKeys
  simp only [total, weightAt, AList.lookup, AList.entries_insert, map_cons, sum_cons]
  omega

theorem total_eq_zero (h : table.All fun key value => weight key value = 0) :
    total weight table = 0 := by
  refine sum_eq_zero fun value hvalue => ?_
  obtain ⟨entry, hmem, rfl⟩ := mem_map.mp hvalue
  exact h entry.1 entry.2 (AList.mem_lookup_iff.mpr hmem)

/-- A sum is taken over the keys of the table, in any order. -/
theorem total_eq_sum {keys : List κ} (hnodup : keys.Nodup)
    (hkeys : ∀ key, (table.lookup key).isSome ↔ key ∈ keys) :
    total weight table = (keys.map (weightAt weight table)).sum := by
  have hperm : table.keys.Perm keys := by
    rw [perm_ext_iff_of_nodup table.keys_nodup hnodup]
    intro key
    rw [← hkeys, AList.lookup_isSome]
    rfl
  have hentries : table.entries.map (fun entry => weight entry.1 entry.2) =
      table.keys.map (weightAt weight table) := by
    rw [AList.keys, List.keys, map_map]
    refine map_congr_left fun entry hmem => ?_
    exact (weightAt_of_lookup (AList.mem_lookup_iff.mpr hmem)).symm
  rw [total, hentries]
  exact (hperm.map _).sum_eq

theorem All.insert {property : κ → α → Prop} (h : table.All property)
    (hvalue : property key value) : All property (table.insert key value) := by
  intro found content hlookup
  by_cases hkey : found = key
  · subst hkey
    rw [AList.lookup_insert] at hlookup
    obtain rfl := Option.some.inj hlookup
    exact hvalue
  · rw [AList.lookup_insert_ne hkey] at hlookup
    exact h found content hlookup

theorem lookup_insert (table : Table κ α) (key found : κ) (value : α) :
    (table.insert key value).lookup found =
      if found = key then some value else table.lookup found := by
  by_cases hkey : found = key
  · subst hkey
    simp
  · rw [AList.lookup_insert_ne hkey, if_neg hkey]

end Table
