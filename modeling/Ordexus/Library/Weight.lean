import Mathlib.Algebra.Order.BigOperators.Group.List
import Mathlib.Algebra.Order.Ring.Nat
import Mathlib.Data.List.Basic

/-!
# Weighted voters

Elements of a list carry weights, and a set of voters is a predicate on them.
The lemmas are the counting facts behind threshold voting: weights add over
disjoint sets, and two sets that are together heavier than everything plus the
faulty part share an element that is not faulty.
-/

namespace Weight

open List

variable {α : Type}

/-- The total weight of the elements of `xs` that satisfy `p`. -/
def of (weight : α → ℕ) (xs : List α) (p : α → Bool) : ℕ :=
  ((xs.filter p).map weight).sum

variable {weight : α → ℕ} {xs : List α} {p q r : α → Bool}

@[simp] theorem of_nil : of weight [] p = 0 := rfl

@[simp] theorem of_cons (x : α) :
    of weight (x :: xs) p = (if p x then weight x else 0) + of weight xs p := by
  cases hp : p x <;> simp [of, hp]

theorem of_true : of weight xs (fun _ => true) = (xs.map weight).sum := by
  simp [of]

theorem of_mono (h : ∀ x ∈ xs, p x = true → q x = true) : of weight xs p ≤ of weight xs q := by
  induction xs with
  | nil => simp
  | cons x xs ih =>
    have htail := ih fun y hy => h y (mem_cons_of_mem x hy)
    have hhead := h x mem_cons_self
    rw [of_cons, of_cons]
    cases hp : p x
    · simpa using Nat.le_add_left_of_le htail
    · simpa [hhead hp] using htail

theorem of_congr (h : ∀ x ∈ xs, p x = q x) : of weight xs p = of weight xs q :=
  Nat.le_antisymm (of_mono fun x hx hp => h x hx ▸ hp) (of_mono fun x hx hq => (h x hx).symm ▸ hq)

variable (weight xs p q)

/-- Inclusion and exclusion for two sets of voters. -/
theorem of_or_add_of_and :
    of weight xs (fun x => p x || q x) + of weight xs (fun x => p x && q x) =
      of weight xs p + of weight xs q := by
  induction xs with
  | nil => simp
  | cons x xs ih =>
    simp only [of_cons]
    cases hp : p x <;> cases hq : q x <;> simp <;> omega

/-- Two sets of voters overlap in at least the weight by which they exceed the
whole list. -/
theorem of_add_le : of weight xs p + of weight xs q ≤
    (xs.map weight).sum + of weight xs (fun x => p x && q x) := by
  have hunion : of weight xs (fun x => p x || q x) ≤ (xs.map weight).sum := by
    rw [← of_true]
    exact of_mono fun _ _ _ => rfl
  have hsplit := of_or_add_of_and weight xs p q
  omega

variable {weight xs p q}

/-- Three sets that cover the list and do not overlap account for all of its
weight. -/
theorem of_add_of_add_of (hcover : ∀ x ∈ xs, p x = true ∨ q x = true ∨ r x = true)
    (hpq : ∀ x ∈ xs, p x = true → q x = false) (hpr : ∀ x ∈ xs, p x = true → r x = false)
    (hqr : ∀ x ∈ xs, q x = true → r x = false) :
    of weight xs p + of weight xs q + of weight xs r = (xs.map weight).sum := by
  induction xs with
  | nil => simp
  | cons x xs ih =>
    have htail := ih (fun y hy => hcover y (mem_cons_of_mem x hy))
      (fun y hy => hpq y (mem_cons_of_mem x hy))
      (fun y hy => hpr y (mem_cons_of_mem x hy))
      (fun y hy => hqr y (mem_cons_of_mem x hy))
    have h1 := hcover x mem_cons_self
    have h2 := hpq x mem_cons_self
    have h3 := hpr x mem_cons_self
    have h4 := hqr x mem_cons_self
    simp only [of_cons, map_cons, sum_cons]
    cases hp : p x <;> cases hq : q x <;> cases hr : r x <;> simp_all <;> omega

/-- Voters picked from the list one by one weigh at most as much as the set they
all belong to. -/
theorem sum_le_of_sublist {picked : List α} (hsub : picked.Sublist xs)
    (hall : ∀ x ∈ picked, p x = true) : (picked.map weight).sum ≤ of weight xs p := by
  rw [of, ← filter_eq_self.mpr hall]
  exact ((hsub.filter p).map weight).sum_le_sum fun _ _ => Nat.zero_le _

/-- A set heavier than the faulty one has a correct member. -/
theorem exists_correct (faulty : α → Bool) (h : of weight xs faulty < of weight xs p) :
    ∃ x ∈ xs, p x = true ∧ faulty x = false := by
  by_contra hnone
  have hle : of weight xs p ≤ of weight xs faulty := by
    apply of_mono
    intro x hx hp
    by_contra hcorrect
    exact hnone ⟨x, hx, hp, by simpa using hcorrect⟩
  omega

/-- Quorum intersection: two sets that are together heavier than the whole list
and the faulty part share a correct member. -/
theorem exists_correct_common (faulty : α → Bool)
    (h : (xs.map weight).sum + of weight xs faulty < of weight xs p + of weight xs q) :
    ∃ x ∈ xs, p x = true ∧ q x = true ∧ faulty x = false := by
  have hoverlap := of_add_le weight xs p q
  have hheavy : of weight xs faulty < of weight xs (fun x => p x && q x) := by omega
  obtain ⟨x, hx, hboth, hcorrect⟩ := exists_correct faulty hheavy
  rw [Bool.and_eq_true] at hboth
  exact ⟨x, hx, hboth.1, hboth.2, hcorrect⟩

end Weight
