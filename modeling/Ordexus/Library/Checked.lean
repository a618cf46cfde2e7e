import Mathlib.Data.List.Basic
import Mathlib.Data.List.Forall2

/-!
# Checked computations

A validation routine is a sequence of tests, each of which stops with a message.
These are the few rules by which a successful run of such a routine is taken
apart, so that callers never unfold it.
-/

namespace Checked

open List

/-- A single test: stop with `message` exactly when `bad` holds. -/
def failIf (bad : Prop) [Decidable bad] (message : String) : Except String Unit :=
  if bad then .error message else .ok ()

variable {message : String} {ε α β : Type} {x : Except ε α} {f : α → Except ε β} {xs : List α}
  {ys : List β}

@[simp] theorem failIf_eq_ok {bad : Prop} [Decidable bad] {u : Unit} :
    failIf bad message = .ok u ↔ ¬bad := by
  unfold failIf
  split <;> simp [*]

theorem failIf_of_not {bad : Prop} [Decidable bad] (h : ¬bad) : failIf bad message = .ok () :=
  failIf_eq_ok.mpr h

/-- A sequence succeeds exactly when its head succeeds and its tail succeeds on
the value of the head. -/
@[simp] theorem bind_eq_ok {b : β} : (x >>= f) = .ok b ↔ ∃ a, x = .ok a ∧ f a = .ok b := by
  cases x with
  | error e => simp [Bind.bind, Except.bind]
  | ok a => simp [Bind.bind, Except.bind]

@[simp] theorem pure_eq_ok {a b : α} : (pure a : Except ε α) = .ok b ↔ a = b := by
  simp [pure, Except.pure]

/-- Whether a sequence succeeds, and with what, step by step. -/
@[simp] theorem toOption_bind (x : Except ε α) (f : α → Except ε β) :
    (x >>= f).toOption = x.toOption.bind fun a => (f a).toOption := by
  cases x <;> rfl

@[simp] theorem toOption_ok (a : α) : (Except.ok a : Except ε α).toOption = some a :=
  rfl

@[simp] theorem toOption_pure (a : α) : (pure a : Except ε α).toOption = some a :=
  rfl

@[simp] theorem toOption_error (e : ε) : (Except.error e : Except ε α).toOption = none :=
  rfl

theorem toOption_eq_some {a : α} : x.toOption = some a ↔ x = .ok a := by
  cases x <;> simp

/-- One failing element makes the whole traversal fail. -/
theorem toOption_mapM_eq_none {x : α} {e : ε} (hmem : x ∈ xs) (hfail : f x = .error e) :
    (xs.mapM f).toOption = none := by
  induction xs with
  | nil => exact absurd hmem not_mem_nil
  | cons y ys ih =>
    rw [mapM_cons]
    rcases mem_cons.mp hmem with rfl | hmem
    · simp [hfail]
    · simp only [toOption_bind, ih hmem, Option.bind_none, Option.bind_fun_none]

/-- A traversal that succeeds returns one result per element, in order. -/
theorem mapM_eq_ok (h : xs.mapM f = .ok ys) : Forall₂ (fun x y => f x = .ok y) xs ys := by
  induction xs generalizing ys with
  | nil =>
    obtain rfl : [] = ys := by simpa only [mapM_nil, pure_eq_ok] using h
    exact .nil
  | cons x xs ih =>
    simp only [mapM_cons, bind_eq_ok, pure_eq_ok] at h
    obtain ⟨y, hy, rest, hrest, rfl⟩ := h
    exact .cons hy (ih hrest)

theorem exists_of_mem_forall₂ {relation : α → β → Prop} {y : β} (h : Forall₂ relation xs ys)
    (hy : y ∈ ys) : ∃ x ∈ xs, relation x y := by
  induction h with
  | nil => cases hy
  | cons hhead _ ih =>
    rcases mem_cons.mp hy with rfl | hlater
    · exact ⟨_, mem_cons_self, hhead⟩
    · obtain ⟨x, hx, hrelated⟩ := ih hlater
      exact ⟨x, mem_cons_of_mem _ hx, hrelated⟩

/-- What holds of every element on which a traversal succeeds. -/
theorem forall_of_mapM {property : α → Prop} (h : xs.mapM f = .ok ys)
    (hproperty : ∀ x y, f x = .ok y → property x) : ∀ x ∈ xs, property x := by
  have hboth : Forall₂ (fun x y => property x ∧ f x = .ok y) xs ys :=
    (mapM_eq_ok h).imp fun x y hy => ⟨hproperty x y hy, hy⟩
  exact ((forall₂_and_left ..).mp hboth).1

/-- Lists that are read off the results of a traversal, put together. -/
theorem flatMap_of_mapM {γ : Type} {read : β → List γ} {expected : α → List γ}
    (h : xs.mapM f = .ok ys) (hread : ∀ x y, f x = .ok y → read y = expected x) :
    ys.flatMap read = xs.flatMap expected := by
  have hall := mapM_eq_ok h
  clear h
  induction hall with
  | nil => rfl
  | cons hfirst _ ih => rw [flatMap_cons, flatMap_cons, hread _ _ hfirst, ih]

/-- A list of tests succeeds exactly when each of them does. -/
theorem forM_eq_ok {f : α → Except ε Unit} : xs.forM f = .ok () ↔ ∀ x ∈ xs, f x = .ok () := by
  rw [forM_eq_forM]
  induction xs with
  | nil => simp [pure, Except.pure]
  | cons x xs ih =>
    rw [forM_cons, bind_eq_ok, forall_mem_cons]
    exact ⟨fun ⟨_, hx, hxs⟩ => ⟨hx, ih.mp hxs⟩, fun ⟨hx, hxs⟩ => ⟨(), hx, ih.mpr hxs⟩⟩

/-- The same for a loop over the list. -/
theorem forIn_eq_ok {f : α → Except ε Unit} {done : PUnit} :
    (forIn xs PUnit.unit fun x _ => do f x; pure (ForInStep.yield PUnit.unit)) = .ok done ↔
      ∀ x ∈ xs, f x = .ok () := by
  induction xs with
  | nil => simp [pure, Except.pure]
  | cons x xs ih =>
    rw [forIn_cons, forall_mem_cons, ← ih]
    simp only [bind_eq_ok, pure_eq_ok]
    constructor
    · rintro ⟨_, ⟨_, hx, rfl⟩, hrest⟩
      exact ⟨hx, hrest⟩
    · rintro ⟨hx, hrest⟩
      exact ⟨_, ⟨(), hx, rfl⟩, hrest⟩

/-- A traversal succeeds where it succeeds on every element. -/
theorem exists_mapM_eq_ok (h : ∀ x ∈ xs, ∃ y, f x = .ok y) : ∃ ys, xs.mapM f = .ok ys := by
  induction xs with
  | nil => exact ⟨[], rfl⟩
  | cons x xs ih =>
    obtain ⟨y, hy⟩ := h x mem_cons_self
    obtain ⟨ys, hys⟩ := ih fun other hmem => h other (mem_cons_of_mem x hmem)
    exact ⟨y :: ys, by rw [mapM_cons, hy, hys]; rfl⟩

/-- So does a fold. -/
theorem exists_foldlM_eq_ok {f : β → α → Except ε β} {start : β}
    (h : ∀ b, ∀ x ∈ xs, ∃ c, f b x = .ok c) : ∃ final, xs.foldlM f start = .ok final := by
  induction xs generalizing start with
  | nil => exact ⟨start, rfl⟩
  | cons x xs ih =>
    obtain ⟨next, hnext⟩ := h start x mem_cons_self
    obtain ⟨final, hfinal⟩ := @ih next fun b other hmem => h b other (mem_cons_of_mem x hmem)
    exact ⟨final, bind_eq_ok.mpr ⟨next, hnext, hfinal⟩⟩

/-- A test that a successful result passes. -/
theorem exists_of_any {test : α → Bool} (h : x.toOption.any test = true) :
    ∃ a, x = .ok a ∧ test a = true := by
  cases x with
  | error e => simp at h
  | ok a => exact ⟨a, rfl, by simpa using h⟩

/-- What every step of a fold keeps holds at its end. -/
theorem foldlM_invariant {f : β → α → Except ε β} {start final : β} {property : β → Prop}
    (h : xs.foldlM f start = .ok final) (hstart : property start)
    (hkeep : ∀ b, ∀ x ∈ xs, ∀ c, property b → f b x = .ok c → property c) : property final := by
  induction xs generalizing start with
  | nil =>
    obtain rfl := pure_eq_ok.mp h
    exact hstart
  | cons x xs ih =>
    obtain ⟨next, hnext, h⟩ := bind_eq_ok.mp h
    exact ih h (hkeep start x mem_cons_self next hstart hnext)
      fun b y hmem => hkeep b y (mem_cons_of_mem x hmem)

/-- A required value: the message is returned when it is absent. -/
def orFail {α : Type} (x : Option α) (message : String) : Except String α :=
  match x with
  | some a => .ok a
  | none => .error message

@[simp] theorem orFail_eq_ok {x : Option α} {a : α} : orFail x message = .ok a ↔ x = some a := by
  cases x <;> simp [orFail]

def failureMessage {ε α : Type} : Except ε α → Option ε
  | .ok _ => none
  | .error message => some message

/-- An error is reported with the operation that met it. -/
def withContext {α : Type} (context : String) : Except String α → Except String α
  | .ok a => .ok a
  | .error message => .error (context ++ ": " ++ message)

@[simp] theorem withContext_eq_ok {context : String} {x : Except String α} {a : α} :
    withContext context x = .ok a ↔ x = .ok a := by
  cases x <;> simp [withContext]

/-- The rules for a successful run, step by step, under one name. -/
theorem eq_ok :
    (∀ {ε α β : Type} {x : Except ε α} {f : α → Except ε β} {b : β},
      (x >>= f) = .ok b ↔ ∃ a, x = .ok a ∧ f a = .ok b) ∧
    (∀ {p : Unit → Prop}, (∃ u, p u) ↔ p ()) ∧
    (∀ {ε α : Type} {a b : α}, (pure a : Except ε α) = .ok b ↔ a = b) ∧
    (∀ {bad : Prop} [Decidable bad] {message : String} {u : Unit},
      failIf bad message = .ok u ↔ ¬bad) ∧
    (∀ {α : Type} {x : Option α} {message : String} {a : α},
      orFail x message = .ok a ↔ x = some a) ∧
    ∀ {α : Type} {context : String} {x : Except String α} {a : α},
      withContext context x = .ok a ↔ x = .ok a :=
  ⟨bind_eq_ok, ⟨fun ⟨(), h⟩ => h, fun h => ⟨(), h⟩⟩, pure_eq_ok, failIf_eq_ok, orFail_eq_ok,
    withContext_eq_ok⟩

@[simp] theorem toOption_withContext {context : String} {x : Except String α} :
    (withContext context x).toOption = x.toOption := by
  cases x <;> rfl

/-- A loop whose body uses the position in its error texts only. -/
theorem toOption_mapM_zipIdx {f : α × ℕ → Except ε β} {g : α → Option β}
    (h : ∀ a index, (f (a, index)).toOption = g a) (xs : List α) (start : ℕ) :
    ((xs.zipIdx start).mapM f).toOption = xs.mapM g := by
  induction xs generalizing start with
  | nil => rfl
  | cons x xs ih =>
    simp only [zipIdx_cons, mapM_cons, toOption_bind, toOption_pure, h, ih]
    rfl

theorem mapM_eq_some_iff {g : α → Option β} :
    xs.mapM g = some ys ↔ (∀ x ∈ xs, (g x).isSome = true) ∧ ys = xs.filterMap g := by
  induction xs generalizing ys with
  | nil =>
    constructor
    · intro h
      exact ⟨by simp, (Option.some.inj h).symm⟩
    · rintro ⟨-, rfl⟩
      rfl
  | cons x xs ih =>
    rw [mapM_cons]
    cases hx : g x with
    | none => simp [hx]
    | some y =>
      simp only [bind, Option.bind_some, Option.bind_eq_some_iff, ih, pure, forall_mem_cons,
        hx, Option.isSome_some, true_and, Option.some.injEq, filterMap_cons]
      constructor
      · rintro ⟨_, ⟨hall, rfl⟩, rfl⟩
        exact ⟨hall, rfl⟩
      · rintro ⟨hall, rfl⟩
        exact ⟨_, ⟨hall, rfl⟩, rfl⟩

def succeeds {ε α : Type} : Except ε α → Bool
  | .ok _ => true
  | .error _ => false

@[simp] theorem succeeds_iff : succeeds x = true ↔ ∃ a, x = .ok a := by
  cases x <;> simp [succeeds]

/-! ### A step with and without a store

A step either has no store before and after it, or takes a store to the next one. -/

section

variable {σ : Type} {before after : Option σ} {rest : Prop} {takes : σ → σ → Prop} {s s' : σ}

section

variable (h : (before = none ∧ rest) ∨ ∃ s s', before = some s ∧ after = some s' ∧ takes s s')
include h

theorem exists_stored (hbefore : before = some s) : ∃ s', after = some s' ∧ takes s s' := by
  subst hbefore
  simpa using h

theorem takes_of_stored (hbefore : before = some s) (hafter : after = some s') : takes s s' := by
  subst hbefore hafter
  simpa using h

theorem rest_of_none (hbefore : before = none) : rest := by
  subst hbefore
  simpa using h

end

end

end Checked
