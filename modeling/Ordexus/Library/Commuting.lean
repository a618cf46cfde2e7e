import Mathlib.Data.List.Pairwise
import Mathlib.Data.List.Perm.Basic

/-!
# Runs of commuting steps

A run of partial steps along a list. Two lists of the same steps have the same run if the steps
that do not commute stand in the same order in both.
-/

namespace Commuting

open List

variable {σ τ : Type} {step : σ → τ → Option σ} {order : τ → τ → Prop}

/-- Either order of two steps has the same outcome, failure included. -/
def Commutes (step : σ → τ → Option σ) (first second : τ) : Prop :=
  ∀ state, (step state first).bind (step · second) = (step state second).bind (step · first)

/-- A step is moved to the front past steps that commute with it. -/
theorem foldlM_append_cons {first : τ} {before : List τ}
    (hbefore : ∀ other ∈ before, Commutes step other first) (rest : List τ) (state : σ) :
    (before ++ first :: rest).foldlM step state =
      (first :: (before ++ rest)).foldlM step state := by
  induction before generalizing state with
  | nil => rfl
  | cons other before ih =>
    obtain ⟨hother, hbefore⟩ := forall_mem_cons.mp hbefore
    calc (other :: before ++ first :: rest).foldlM step state
        = (step state other).bind fun next => (before ++ first :: rest).foldlM step next := rfl
      _ = (step state other).bind fun next => (step next first).bind fun last =>
            (before ++ rest).foldlM step last := by
          congr 1
          funext next
          exact ih hbefore next
      _ = ((step state first).bind (step · other)).bind fun last =>
            (before ++ rest).foldlM step last := by
          rw [← Option.bind_assoc, hother state]
      _ = (first :: (other :: before ++ rest)).foldlM step state := Option.bind_assoc _ _ _

/-- Two lists of the same steps have the same run if both respect an order, and steps that may
stand in either order commute. -/
theorem foldlM_eq_of_perm {first second : List τ}
    (hcommutes : ∀ a b, order a b → order b a → Commutes step a b) (hperm : first.Perm second)
    (hfirst : first.Pairwise order) (hsecond : second.Pairwise order) (state : σ) :
    first.foldlM step state = second.foldlM step state := by
  induction first generalizing second state with
  | nil => rw [nil_perm.mp hperm]
  | cons a first ih =>
    obtain ⟨before, rest, rfl⟩ := append_of_mem (hperm.subset mem_cons_self)
    have hrest : first.Perm (before ++ rest) := (hperm.trans perm_middle).cons_inv
    obtain ⟨ha, hfirst⟩ := pairwise_cons.mp hfirst
    have hbefore : ∀ b ∈ before, Commutes step b a := by
      intro b hb
      refine hcommutes b a ((pairwise_append.mp hsecond).2.2 b hb a mem_cons_self) ?_
      exact ha b (hrest.symm.subset (mem_append_left rest hb))
    have hremoved : (before ++ rest).Pairwise order :=
      hsecond.sublist ((sublist_cons_self a rest).append_left before)
    rw [foldlM_append_cons hbefore]
    exact congrArg ((step state a).bind ·) (funext fun next => ih hrest hfirst hremoved next)

end Commuting
