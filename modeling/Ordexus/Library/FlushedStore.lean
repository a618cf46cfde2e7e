import Ordexus.Library.WriteBatch

/-!
# A store that is flushed

Writes are seen at once, but they are on disk only after a flush: a crash keeps some of those
that were made since, in their order, and loses the others.
-/

structure FlushedStore (κ α : Type) where
  durable : Table κ α
  pending : List (TableWrite κ α)

namespace FlushedStore

open List TableWrite

variable {κ α : Type}

def empty : FlushedStore κ α :=
  ⟨∅, []⟩

/-- The items at the places that are marked; a place beyond the marks is not. -/
def keep {β : Type} : List Bool → List β → List β
  | true :: marks, item :: items => item :: keep marks items
  | false :: marks, _ :: items => keep marks items
  | [], _ => []
  | _ :: _, [] => []

theorem keep_sublist {β : Type} (marks : List Bool) (items : List β) :
    (keep marks items).Sublist items := by
  induction items generalizing marks with
  | nil => cases marks with
    | nil => exact Sublist.refl _
    | cons mark marks => cases mark <;> exact Sublist.refl _
  | cons item items ih =>
    cases marks with
    | nil => exact nil_sublist _
    | cons mark marks =>
      cases mark with
      | true => exact (ih marks).cons_cons item
      | false => exact (ih marks).cons item

variable [DecidableEq κ]

section

variable (store : FlushedStore κ α)

/-- What is read. -/
def visible : Table κ α :=
  applyAll store.durable store.pending

def write (operation : TableWrite κ α) : FlushedStore κ α :=
  { store with pending := store.pending ++ [operation] }

def flush : FlushedStore κ α where
  durable := store.visible
  pending := []

def crash (kept : List Bool) : FlushedStore κ α where
  durable := applyAll store.durable (keep kept store.pending)
  pending := []

/-- A table that a crash may leave. -/
def Survives (table : Table κ α) : Prop :=
  ∃ kept : List (TableWrite κ α), kept.Sublist store.pending ∧
    table = applyAll store.durable kept

/-- A value that is on disk or was written since. -/
def Possible (key : κ) (value : α) : Prop :=
  store.durable.lookup key = some value ∨ .put key value ∈ store.pending

end

variable {store : FlushedStore κ α} {operation : TableWrite κ α} {table : Table κ α} {key : κ}
  {value : α}

theorem survives_visible : store.Survives store.visible :=
  ⟨store.pending, Sublist.refl _, rfl⟩

theorem Survives.possible (h : store.Survives table) (hlookup : table.lookup key = some value) :
    store.Possible key value := by
  obtain ⟨kept, hkept, rfl⟩ := h
  rcases mem_of_lookup_applyAll hlookup with hput | hold
  · exact .inr (hkept.subset hput)
  · exact .inl hold

theorem visible_write :
    (store.write operation).visible = applyTo store.visible operation := by
  rw [visible, write, applyAll_append]
  rfl

theorem possible_write :
    (store.write operation).Possible key value ↔
      store.Possible key value ∨ operation = .put key value := by
  simp only [Possible, write, mem_append, mem_singleton, or_assoc, eq_comm]

theorem survives_write (h : (store.write operation).Survives table) :
    store.Survives table ∨
      ∃ before, store.Survives before ∧ table = applyTo before operation := by
  obtain ⟨kept, hkept, rfl⟩ := h
  obtain ⟨first, last, rfl, hfirst, hlast⟩ := sublist_append_iff.mp hkept
  rcases sublist_singleton.mp hlast with rfl | rfl
  · rw [append_nil]
    exact .inl ⟨first, hfirst, rfl⟩
  · refine .inr ⟨_, ⟨first, hfirst, rfl⟩, ?_⟩
    rw [applyAll_append]
    rfl

theorem survives_flush : store.flush.Survives table ↔ table = store.visible := by
  constructor
  · rintro ⟨kept, hkept, rfl⟩
    rw [sublist_nil.mp hkept]
    rfl
  · rintro rfl
    exact survives_visible

theorem possible_flush :
    store.flush.Possible key value ↔ store.visible.lookup key = some value := by
  simp [Possible, flush]

theorem visible_flush : store.flush.visible = store.visible :=
  rfl

end FlushedStore
