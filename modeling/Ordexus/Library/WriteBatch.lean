import Ordexus.Library.Table

/-!
# Batches of writes

A batch puts and deletes entries of a table one after the other. What a key holds afterwards
is decided by the last write that names it.
-/

inductive TableWrite (κ α : Type) where
  | put (key : κ) (value : α)
  | delete (key : κ)

namespace TableWrite

open List

variable {κ α : Type}

def key : TableWrite κ α → κ
  | .put key _ => key
  | .delete key => key

variable [DecidableEq κ] {table : Table κ α} {writes more : List (TableWrite κ α)}

section

variable (table : Table κ α)

def applyTo : TableWrite κ α → Table κ α
  | .put key value => table.insert key value
  | .delete key => table.erase key

def applyAll (writes : List (TableWrite κ α)) : Table κ α :=
  writes.foldl applyTo table

@[simp] theorem applyAll_nil : applyAll table [] = table :=
  rfl

theorem applyAll_append (writes more : List (TableWrite κ α)) :
    applyAll table (writes ++ more) = applyAll (applyAll table writes) more :=
  foldl_append ..

@[simp] theorem applyAll_cons (write : TableWrite κ α) (writes : List (TableWrite κ α)) :
    applyAll table (write :: writes) = applyAll (applyTo table write) writes :=
  rfl

theorem lookup_erase (key other : κ) :
    (table.erase key).lookup other = if other = key then none else table.lookup other := by
  split
  · next h =>
    subst h
    exact AList.lookup_erase other table
  · next h => exact AList.lookup_erase_ne h

end

/-- A batch leaves tables alike that are alike before it. -/
theorem lookup_applyAll_congr {first second : Table κ α}
    (h : ∀ key, first.lookup key = second.lookup key) (writes : List (TableWrite κ α)) (key : κ) :
    (applyAll first writes).lookup key = (applyAll second writes).lookup key := by
  induction writes generalizing first second with
  | nil => exact h key
  | cons write writes ih =>
    refine ih fun other => ?_
    cases write with
    | put key value =>
      rw [applyTo, applyTo, Table.lookup_insert, Table.lookup_insert, h]
    | delete key => rw [applyTo, applyTo, lookup_erase, lookup_erase, h]

variable {key : κ} {value : α}

theorem lookup_applyAll_of_not_mem (h : key ∉ writes.map TableWrite.key) :
    (applyAll table writes).lookup key = table.lookup key := by
  induction writes generalizing table with
  | nil => rfl
  | cons write writes ih =>
    rw [map_cons, mem_cons, not_or] at h
    rw [applyAll_cons, ih h.2]
    cases write with
    | put other value => exact (Table.lookup_insert ..).trans (if_neg h.1)
    | delete other => exact (lookup_erase ..).trans (if_neg h.1)

/-- A put is the last word on its key where all writes to the key agree. -/
theorem lookup_applyAll_of_agree (hmem : .put key value ∈ writes)
    (hagree : ∀ write ∈ writes, write.key = key → write = .put key value) :
    (applyAll table writes).lookup key = some value := by
  induction writes generalizing table with
  | nil => cases hmem
  | cons write writes ih =>
    have hrest := fun other hother => hagree other (mem_cons_of_mem write hother)
    rw [applyAll_cons]
    by_cases hlater : put key value ∈ writes
    · exact ih hlater hrest
    · obtain rfl := (mem_cons.mp hmem).resolve_right hlater
      rw [lookup_applyAll_of_not_mem]
      · exact AList.lookup_insert _
      · intro hkey
        obtain ⟨other, hother, heq⟩ := mem_map.mp hkey
        exact hlater (hrest other hother heq ▸ hother)

theorem lookup_applyAll_delete {keys : List κ} :
    (applyAll table (keys.map .delete)).lookup key =
      if key ∈ keys then none else table.lookup key := by
  induction keys generalizing table with
  | nil => rfl
  | cons first keys ih =>
    rw [map_cons, applyAll_cons, ih, applyTo, lookup_erase]
    by_cases hfirst : key = first <;> by_cases hkeys : key ∈ keys <;> simp [hfirst, hkeys]

/-- An entry after a batch was put by it or is from before. -/
theorem mem_of_lookup_applyAll (h : (applyAll table writes).lookup key = some value) :
    .put key value ∈ writes ∨ table.lookup key = some value := by
  induction writes generalizing table with
  | nil => exact .inr h
  | cons write writes ih =>
    rcases ih h with hlater | hfirst
    · exact .inl (mem_cons_of_mem write hlater)
    cases write with
    | put other stored =>
      rw [applyTo, Table.lookup_insert] at hfirst
      split at hfirst
      · next hkey =>
        cases hfirst
        rw [hkey]
        exact .inl mem_cons_self
      · exact .inr hfirst
    | delete other =>
      rw [applyTo, lookup_erase] at hfirst
      split at hfirst
      · cases hfirst
      · exact .inr hfirst

/-- A batch of puts with distinct keys. -/
theorem lookup_applyAll_puts {ι : Type} {items : List ι} {keyOf : ι → κ} {valueOf : ι → α}
    (hdistinct : (items.map keyOf).Nodup) :
    (applyAll table (items.map fun item => .put (keyOf item) (valueOf item))).lookup key =
        some value ↔
      (∃ item ∈ items, keyOf item = key ∧ valueOf item = value) ∨
        (key ∉ items.map keyOf ∧ table.lookup key = some value) := by
  by_cases hkey : key ∈ items.map keyOf
  · obtain ⟨item, hitem, rfl⟩ := mem_map.mp hkey
    have hsame {other : ι} (hother : other ∈ items) (heq : keyOf other = keyOf item) :
        other = item := inj_on_of_nodup_map hdistinct hother hitem heq
    rw [@lookup_applyAll_of_agree _ _ _ _ _ _ (valueOf item) (mem_map.mpr ⟨item, hitem, rfl⟩)]
    · constructor
      · rintro ⟨⟩
        exact .inl ⟨item, hitem, rfl, rfl⟩
      · rintro (⟨other, hother, heq, rfl⟩ | ⟨hnot, -⟩)
        · rw [hsame hother heq]
        · exact absurd hkey hnot
    · intro write hwrite heq
      obtain ⟨other, hother, rfl⟩ := mem_map.mp hwrite
      rw [hsame hother heq]
  · rw [lookup_applyAll_of_not_mem (by simpa [TableWrite.key] using hkey)]
    refine ⟨fun hlookup => .inr ⟨hkey, hlookup⟩, ?_⟩
    rintro (⟨item, hitem, rfl, -⟩ | ⟨-, hlookup⟩)
    · exact absurd (mem_map_of_mem hitem) hkey
    · exact hlookup

/-- Inserting items one after the other is a batch of puts. -/
theorem foldl_insert {ι : Type} (items : List ι) (keyOf : ι → κ) (valueOf : ι → α) :
    items.foldl (fun table item => table.insert (keyOf item) (valueOf item)) table =
      applyAll table (items.map fun item => .put (keyOf item) (valueOf item)) := by
  rw [applyAll, foldl_map]
  rfl

/-- Items take the place of others: the new items are filed under their keys, and from all
other keys the old items are gone. -/
def Replaced (keysOf : α → List κ) (old new : List α) (table next : Table κ α) : Prop :=
  ∀ key value, next.lookup key = some value ↔
    (value ∈ new ∧ key ∈ keysOf value) ∨
      ((∀ item ∈ new, key ∉ keysOf item) ∧ (∀ item ∈ old, key ∉ keysOf item) ∧
        table.lookup key = some value)

/-- Old items give up their keys, and then new ones are filed under theirs. -/
theorem replaced_applyAll {keysOf : α → List κ} {old new : List α} {deleted : List κ}
    (hdeleted : ∀ key, (∀ item ∈ new, key ∉ keysOf item) →
      (key ∈ deleted ↔ ∃ item ∈ old, key ∈ keysOf item))
    (hdistinct : ∀ first ∈ new, ∀ second ∈ new, ∀ key ∈ keysOf first, key ∈ keysOf second →
      first = second) :
    Replaced keysOf old new table (applyAll table (deleted.map .delete ++
      new.flatMap fun item => (keysOf item).map fun key => .put key item)) := by
  intro key value
  rw [applyAll_append]
  by_cases hnew : ∃ item ∈ new, key ∈ keysOf item
  · obtain ⟨item, hitem, hkey⟩ := hnew
    rw [@lookup_applyAll_of_agree _ _ _ _ _ key item]
    · constructor
      · rintro ⟨⟩
        exact .inl ⟨hitem, hkey⟩
      · rintro (⟨hvalue, hvalueKey⟩ | ⟨hnone, -⟩)
        · rw [hdistinct item hitem value hvalue key hkey hvalueKey]
        · exact absurd hkey (hnone item hitem)
    · exact mem_flatMap.mpr ⟨item, hitem, mem_map.mpr ⟨key, hkey, rfl⟩⟩
    · intro write hwrite hwriteKey
      obtain ⟨other, hother, hmem⟩ := mem_flatMap.mp hwrite
      obtain ⟨otherKey, hotherKey, rfl⟩ := mem_map.mp hmem
      obtain rfl : otherKey = key := hwriteKey
      rw [hdistinct item hitem other hother otherKey hkey hotherKey]
  · have hnone : ∀ item ∈ new, key ∉ keysOf item := fun item hitem hkey =>
      hnew ⟨item, hitem, hkey⟩
    rw [lookup_applyAll_of_not_mem, lookup_applyAll_delete]
    · split
      · next hgone =>
        obtain ⟨item, hitem, hkey⟩ := (hdeleted key hnone).mp hgone
        refine ⟨(fun h => by cases h), ?_⟩
        rintro (⟨hvalue, hvalueKey⟩ | ⟨-, hkept, -⟩)
        · exact absurd hvalueKey (hnone value hvalue)
        · exact absurd hkey (hkept item hitem)
      · next hkept =>
        refine ⟨fun hlookup => .inr ⟨hnone, fun item hitem hkey => ?_, hlookup⟩, ?_⟩
        · exact hkept ((hdeleted key hnone).mpr ⟨item, hitem, hkey⟩)
        · rintro (⟨hvalue, hvalueKey⟩ | ⟨-, -, hlookup⟩)
          · exact absurd hvalueKey (hnone value hvalue)
          · exact hlookup
    · intro hmem
      simp only [map_flatMap, map_map, mem_flatMap, mem_map,
        Function.comp_apply, TableWrite.key, exists_eq_right] at hmem
      obtain ⟨item, hitem, hkey⟩ := hmem
      exact hnone item hitem hkey

/-! ### Files

A table that files items under their keys: a key leads to an item exactly if the item is held and
has the key. -/

def Files (keysOf : α → List κ) (held : α → Prop) (table : Table κ α) : Prop :=
  ∀ key item, table.lookup key = some item ↔ held item ∧ key ∈ keysOf item

variable {keysOf otherKeysOf : α → List κ} {held : α → Prop}

theorem Files.congr (h : Files keysOf held table)
    (hsame : ∀ item, held item → otherKeysOf item = keysOf item) :
    Files otherKeysOf held table := fun key item =>
  (h key item).trans (and_congr_right fun hitem => by rw [hsame item hitem])

/-- Of the items that are held some are kept and the others make room for new ones. A key of a
new item must not lead to an item that is kept. -/
theorem Files.replace {kept nextHeld : α → Prop} {old new : List α} {next : Table κ α}
    (h : Files keysOf held table) (hreplaced : Replaced keysOf old new table next)
    (hheld : ∀ item, held item ↔ kept item ∨ item ∈ old) (hapart : ∀ item ∈ old, ¬kept item)
    (hnext : ∀ item, nextHeld item ↔ kept item ∨ item ∈ new)
    (hfresh : ∀ item ∈ new, ∀ key ∈ keysOf item, ∀ other, table.lookup key = some other →
      other ∈ old) : Files keysOf nextHeld next := by
  intro key item
  rw [hreplaced, hnext]
  constructor
  · rintro (⟨hmem, hkey⟩ | ⟨-, hgone, hlookup⟩)
    · exact ⟨.inr hmem, hkey⟩
    · obtain ⟨hitem, hkey⟩ := (h key item).mp hlookup
      rcases (hheld item).mp hitem with hkept | hmem
      · exact ⟨.inl hkept, hkey⟩
      · exact absurd hkey (hgone item hmem)
  · rintro ⟨hkept | hmem, hkey⟩
    · have hlookup := (h key item).mpr ⟨(hheld item).mpr (.inl hkept), hkey⟩
      refine .inr ⟨fun other hother hotherKey => ?_, fun other hother hotherKey => ?_, hlookup⟩
      · exact hapart item (hfresh other hother key hotherKey item hlookup) hkept
      · have hotherLookup := (h key other).mpr ⟨(hheld other).mpr (.inr hother), hotherKey⟩
        obtain rfl := Option.mem_unique hlookup hotherLookup
        exact hapart item hother hkept
    · exact .inl ⟨hmem, hkey⟩

end TableWrite
