import Mathlib.Data.List.Nodup
import Ordexus.Library.Checked

/-!
# Batches of independent tasks

A scheduler repeatedly takes a batch of tasks that do not get in each other's way,
evaluates them against one common state and commits the results one after the
other. The lemmas say what a greedy selection takes, and that a batch of
independent tasks ends as if its tasks had been run one by one.
-/

namespace Batch

open Checked List

section

variable {κ τ υ : Type} {takes : κ → τ → Option κ} {room : ℕ} {held : κ} {pending : List τ}

/-- One pass over the pending tasks: a task is taken when there is room for it and
what is held so far admits it. The other tasks stay pending. -/
def greedy (takes : κ → τ → Option κ) : ℕ → κ → List τ → List τ × List τ
  | _, _, [] => ([], [])
  | 0, _, pending => ([], pending)
  | room + 1, held, task :: pending =>
    match takes held task with
    | some next =>
      let picked := greedy takes room next pending
      (task :: picked.1, picked.2)
    | none =>
      let picked := greedy takes (room + 1) held pending
      (picked.1, task :: picked.2)

@[simp] theorem greedy_nil : greedy takes room held [] = ([], []) := by
  cases room <;> rfl

@[simp] theorem greedy_zero : greedy takes 0 held pending = ([], pending) := by
  cases pending <;> rfl

theorem greedy_cons (task : τ) :
    greedy takes (room + 1) held (task :: pending) =
      match takes held task with
      | some next => (task :: (greedy takes room next pending).1,
          (greedy takes room next pending).2)
      | none => ((greedy takes (room + 1) held pending).1,
          task :: (greedy takes (room + 1) held pending).2) := rfl

/-- Every task is either taken or left, and the order is kept within both parts. -/
theorem greedy_perm_sublist (room : ℕ) (held : κ) (pending : List τ) :
    ((greedy takes room held pending).1 ++ (greedy takes room held pending).2).Perm pending ∧
      (greedy takes room held pending).1.Sublist pending ∧
      (greedy takes room held pending).2.Sublist pending ∧
      (greedy takes room held pending).1.length ≤ room := by
  fun_induction greedy takes room held pending with
  | case1 | case2 => simp
  | case3 room held task pending next htakes picked ih =>
    obtain ⟨hperm, hbatch, hrest, hlength⟩ := ih
    exact ⟨hperm.cons task, hbatch.cons_cons task, hrest.cons task, by simpa using hlength⟩
  | case4 room held task pending htakes picked ih =>
    obtain ⟨hperm, hbatch, hrest, hlength⟩ := ih
    exact ⟨perm_middle.trans (hperm.cons task), hbatch.cons task, hrest.cons_cons task, hlength⟩

/-- Room beyond the number of pending tasks makes no difference. -/
theorem greedy_of_length_le (held : κ) (hroom : pending.length ≤ room) :
    greedy takes room held pending = greedy takes pending.length held pending := by
  suffices h : ∀ other, pending.length ≤ other →
      greedy takes room held pending = greedy takes other held pending from
    h _ (Nat.le_refl _)
  induction pending generalizing room held with
  | nil => simp
  | cons task pending ih =>
    intro other hother
    rw [length_cons] at hroom hother
    obtain ⟨space, rfl⟩ := Nat.exists_eq_add_of_le' (Nat.le_of_add_left_le hroom)
    obtain ⟨space', rfl⟩ := Nat.exists_eq_add_of_le' (Nat.le_of_add_left_le hother)
    rw [greedy_cons, greedy_cons]
    cases takes held task with
    | some next => simp only [@ih space next (by omega) space' (by omega)]
    | none => simp only [@ih (space + 1) held (by omega) (space' + 1) (by omega)]

/-- A batch that starts the pending list leaves the rest of that list. -/
theorem greedy_append_of_isPrefix (hnodup : pending.Nodup)
    (hinit : (greedy takes room held pending).1 <+: pending) :
    (greedy takes room held pending).1 ++ (greedy takes room held pending).2 = pending := by
  obtain ⟨hperm, -, hrest, -⟩ := @greedy_perm_sublist _ _ takes room held pending
  generalize (greedy takes room held pending).1 = batch at *
  generalize (greedy takes room held pending).2 = rest at *
  obtain ⟨tail, rfl⟩ := hinit
  have hsame : rest.Perm tail := (perm_append_left_iff batch).mp hperm
  have hdisjoint : ∀ task ∈ rest, task ∉ batch := by
    intro task hrest hbatch
    exact (nodup_append.mp hnodup).2.2 task hbatch task (hsame.subset hrest) rfl
  have hsub : rest.Sublist tail := by
    obtain ⟨left, right, rfl, hleft, hright⟩ := sublist_append_iff.mp hrest
    have hnil : left = [] := by
      rw [eq_nil_iff_forall_not_mem]
      intro task htask
      exact hdisjoint task (mem_append_left right htask) (hleft.subset htask)
    simpa [hnil] using hright
  rw [hsub.eq_of_length hsame.length_eq]

/-- The first task of a batch is admitted by what was held before the pass. -/
theorem greedy_head {task : τ} {batch : List τ}
    (h : (greedy takes room held pending).1 = task :: batch) : (takes held task).isSome := by
  fun_induction greedy takes room held pending with
  | case1 | case2 => simp at h
  | case3 room held first pending next htakes =>
    obtain ⟨rfl, -⟩ := cons.inj h
    simp [htakes]
  | case4 room held first pending htakes picked ih => exact ih h

/-- If the selection cannot tell tasks with the same image apart, then a batch whose
images start the pending images is the front of the pending list. -/
theorem greedy_append_of_map (f : τ → υ) (room : ℕ) (held : κ)
    (htakes : ∀ held task other, f task = f other → takes held task = takes held other)
    (h : (greedy takes room held pending).1.map f ++ (greedy takes room held pending).2.map f =
      pending.map f) :
    (greedy takes room held pending).1 ++ (greedy takes room held pending).2 = pending := by
  fun_induction greedy takes room held pending with
  | case1 | case2 => simp
  | case3 room held task pending next htask picked ih =>
    simp only [map_cons, cons_append, cons.injEq, true_and] at h ⊢
    exact ih h
  | case4 room held task pending htask picked ih =>
    -- a later task with the image of the refused one would have been refused, too
    have hempty : picked.1 = [] := by
      cases hbatch : picked.1 with
      | nil => rfl
      | cons first batch =>
        have hfirst := greedy_head hbatch
        rw [hbatch, map_cons] at h
        rw [htakes held first task (cons.inj h).1, htask] at hfirst
        cases hfirst
    have hrest : picked.2 = pending := by
      obtain ⟨hperm, -, hsub, -⟩ := @greedy_perm_sublist _ _ takes (room + 1) held pending
      have hlength := hperm.length_eq
      rw [hempty] at hlength
      exact hsub.eq_of_length hlength
    rw [hempty, hrest, nil_append]

theorem greedy_map (takes' : κ → υ → Option κ) (f : τ → υ) (room : ℕ) (held : κ)
    (htakes : ∀ held, ∀ task ∈ pending, takes' held (f task) = takes held task) :
    greedy takes' room held (pending.map f) =
      ((greedy takes room held pending).1.map f, (greedy takes room held pending).2.map f) := by
  fun_induction greedy takes room held pending with
  | case1 | case2 => simp
  | case3 room held task pending next hnext picked ih =>
    have hrest := ih fun held other hmem => htakes held other (mem_cons_of_mem task hmem)
    simp [greedy_cons, htakes held task mem_cons_self, hnext, hrest, picked]
  | case4 room held task pending hnone picked ih =>
    have hrest := ih fun held other hmem => htakes held other (mem_cons_of_mem task hmem)
    simp [greedy_cons, htakes held task mem_cons_self, hnone, hrest, picked]

/-- If admitting a task keeps apart from it whatever is admitted later, then the
tasks of a batch are pairwise apart. -/
theorem greedy_pairwise (free : κ → τ → Prop) {apart : τ → τ → Prop}
    (hfree : ∀ held task next, takes held task = some next → free held task)
    (hapart : ∀ held task next other, takes held task = some next → free next other →
      free held other ∧ apart task other) :
    (greedy takes room held pending).1.Pairwise apart ∧
      ∀ task ∈ (greedy takes room held pending).1, free held task := by
  fun_induction greedy takes room held pending with
  | case1 | case2 => simp
  | case3 room held task pending next htakes picked ih =>
    obtain ⟨hpairwise, hall⟩ := ih
    have hlater := fun other hother => hapart held task next other htakes (hall other hother)
    exact ⟨pairwise_cons.mpr ⟨fun other hother => (hlater other hother).2, hpairwise⟩,
      forall_mem_cons.mpr
        ⟨hfree held task next htakes, fun other hother => (hlater other hother).1⟩⟩
  | case4 room held task pending htakes picked ih => exact ih

end

/-- A part of a list is told apart by its keys. -/
theorem filter_mem_map_of_sublist {α κ : Type} [DecidableEq κ] (key : α → κ) {chosen all : List α}
    (hsub : chosen.Sublist all) (hnodup : (all.map key).Nodup) :
    all.filter (fun item => decide (key item ∈ chosen.map key)) = chosen := by
  induction hsub with
  | slnil => rfl
  | @cons chosen all item hsub ih =>
    obtain ⟨hnotMem, htail⟩ := nodup_cons.mp hnodup
    have hfirst : key item ∉ chosen.map key := fun hmem => hnotMem ((hsub.map key).subset hmem)
    rw [filter_cons_of_neg (by simpa using hfirst), ih htail]
  | @cons_cons chosen all item hsub ih =>
    obtain ⟨hnotMem, htail⟩ := nodup_cons.mp hnodup
    rw [filter_cons_of_pos (by simp)]
    conv_rhs => rw [← ih htail]
    refine congrArg _ (filter_congr fun other hmem => ?_)
    have hne : key other ≠ key item := fun heq => hnotMem (heq ▸ mem_map_of_mem hmem)
    simp [hne]

/-- A value can be read off a key that occurs once. -/
theorem exists_factor {α β γ : Type} [Nonempty β] {items : List γ} {key : γ → α}
    (value : γ → β) (hnodup : (items.map key).Nodup) :
    ∃ h : α → β, ∀ item ∈ items, h (key item) = value item := by
  have hinjective : (fun item : { item // item ∈ items } => key item).Injective :=
    fun first second heq => Subtype.ext (inj_on_of_nodup_map hnodup first.2 second.2 heq)
  exact ⟨_, fun item hitem => hinjective.extend_apply (fun item => value item)
    (fun _ => Classical.arbitrary β) ⟨item, hitem⟩⟩

section

variable {σ τ ρ : Type} {eval : σ → τ → Except String ρ} {commit : σ → ρ → Except String σ}

section

variable (eval : σ → τ → Except String ρ) (commit : σ → ρ → Except String σ) (s : σ)
  (tasks : List τ)

/-- Evaluate all tasks against one state, then commit the results in order. -/
def together : Except String σ := do
  let results ← tasks.mapM (eval s)
  results.foldlM commit s

/-- Evaluate and commit one task after the other. -/
def oneByOne : Except String σ :=
  tasks.foldlM (fun s task => eval s task >>= commit s) s

end

variable {s₀ : σ} {same : σ → τ → Prop} {apart : τ → τ → Prop} {tasks : List τ}
  (heval : ∀ s task, same s task → eval s task = eval s₀ task)
  (hcommit : ∀ s task result s', same s task → eval s₀ task = .ok result →
    commit s result = .ok s' → ∀ other, apart task other → same s other → same s' other)
  (hpairwise : tasks.Pairwise apart)
include heval hcommit hpairwise

/-- The invariant of the induction: `s₀` is where the batch is evaluated, `s` is
where the remaining results are committed, and the remaining tasks cannot tell
the two apart. -/
theorem together_from {s : σ} (hsame : ∀ task ∈ tasks, same s task) :
    (tasks.mapM (eval s₀) >>= fun results => results.foldlM commit s).toOption =
      (oneByOne eval commit s tasks).toOption := by
  induction tasks generalizing s with
  | nil => rfl
  | cons task tasks ih =>
    obtain ⟨hhead, htail⟩ := pairwise_cons.mp hpairwise
    have hfirst := hsame task mem_cons_self
    simp only [oneByOne, mapM_cons, foldlM_cons, heval s task hfirst, bind_assoc, pure_bind]
    cases hresult : eval s₀ task with
    | error message => rfl
    | ok result =>
      cases hnext : commit s result with
      | error message =>
        cases tasks.mapM (eval s₀) <;> simp [Bind.bind, Except.bind, hnext]
      | ok next =>
        have hrest := ih htail fun other hother => hcommit s task result next hfirst hresult hnext
          other (hhead other hother) (hsame other (mem_cons_of_mem task hother))
        simpa [oneByOne, Bind.bind, Except.bind, hnext] using hrest

/-- A batch whose tasks are pairwise apart ends as its tasks do one by one. -/
theorem together_toOption (hsame : ∀ task ∈ tasks, same s₀ task) :
    (together eval commit s₀ tasks).toOption = (oneByOne eval commit s₀ tasks).toOption :=
  together_from heval hcommit hpairwise hsame

end

end Batch
