import Mathlib.Data.List.Basic

/-!
# Ancestry

Every node has at most one parent. A path leads from a node up to one of its ancestors, and
where levels go down by one from a node to its parent, the ancestor of a node at a level is
determined.
-/

namespace Ancestry

open List

variable {κ : Type} {parent parent' : κ → Option κ} {level : κ → Option ℕ}
  {x y z : κ} {nodes more : List κ} {k m n : ℕ}

/-- The nodes from `x` up to its ancestor `z`, without `z`. -/
inductive Path (parent : κ → Option κ) : κ → List κ → κ → Prop
  | here (x : κ) : Path parent x [] x
  | up {x y z : κ} {nodes : List κ} (hparent : parent x = some y) (hpath : Path parent y nodes z) :
      Path parent x (x :: nodes) z

theorem Path.single (h : parent x = some y) : Path parent x [x] y :=
  .up h (.here y)

theorem Path.trans (hfirst : Path parent x nodes y) (hsecond : Path parent y more z) :
    Path parent x (nodes ++ more) z := by
  induction hfirst with
  | here x => exact hsecond
  | up hparent _ ih => exact .up hparent (ih hsecond)

theorem Path.mono (hmono : ∀ x y, parent x = some y → parent' x = some y)
    (h : Path parent x nodes z) : Path parent' x nodes z := by
  induction h with
  | here x => exact .here x
  | up hparent _ ih => exact .up (hmono _ _ hparent) ih

theorem Path.split (h : Path parent x (nodes ++ more) z) :
    ∃ y, Path parent x nodes y ∧ Path parent y more z := by
  induction nodes generalizing x with
  | nil => exact ⟨x, .here x, h⟩
  | cons node nodes ih =>
    cases h with
    | up hparent hrest =>
      obtain ⟨y, hfirst, hsecond⟩ := ih hrest
      exact ⟨y, .up hparent hfirst, hsecond⟩

theorem Path.eq_of_nil (h : Path parent x [] z) : x = z := by
  cases h
  rfl

/-- Of two ancestors of a node the nearer one is a descendant of the other. -/
theorem Path.comparable (hfirst : Path parent x nodes y) (hsecond : Path parent x more z)
    (hlength : nodes.length ≤ more.length) :
    ∃ rest, more = nodes ++ rest ∧ Path parent y rest z := by
  induction hfirst generalizing more with
  | here x => exact ⟨more, rfl, hsecond⟩
  | up hparent _ ih =>
    cases hsecond with
    | here => cases hlength
    | up hother hrest =>
      rw [hparent] at hother
      cases hother
      obtain ⟨rest, rfl, hpath⟩ := ih hrest (by simpa using hlength)
      exact ⟨rest, rfl, hpath⟩

/-- A node is one level above its parent, where the level of the parent is known. -/
def Leveled (parent : κ → Option κ) (level : κ → Option ℕ) : Prop :=
  ∀ x y, parent x = some y → ∀ k, level y = some k → level x = some (k + 1)

theorem Path.level_eq (hleveled : Leveled parent level) (h : Path parent x nodes z)
    (hlevel : level z = some k) : level x = some (k + nodes.length) := by
  induction h with
  | here x => exact hlevel
  | up hparent _ ih =>
    rw [hleveled _ _ hparent _ (ih hlevel), length_cons, Nat.add_assoc]

/-! ### Ancestors -/

/-- `z` is `x` or above it. -/
def IsAncestor (parent : κ → Option κ) (z x : κ) : Prop :=
  ∃ nodes, Path parent x nodes z

theorem IsAncestor.refl (x : κ) : IsAncestor parent x x :=
  ⟨[], .here x⟩

theorem IsAncestor.of_parent (h : parent x = some y) : IsAncestor parent y x :=
  ⟨[x], .single h⟩

theorem IsAncestor.trans (hfirst : IsAncestor parent y x) (hsecond : IsAncestor parent z y) :
    IsAncestor parent z x := by
  obtain ⟨nodes, hnodes⟩ := hfirst
  obtain ⟨more, hmore⟩ := hsecond
  exact ⟨nodes ++ more, hnodes.trans hmore⟩

theorem IsAncestor.mono (hmono : ∀ x y, parent x = some y → parent' x = some y)
    (h : IsAncestor parent z x) : IsAncestor parent' z x := by
  obtain ⟨nodes, hnodes⟩ := h
  exact ⟨nodes, hnodes.mono hmono⟩

theorem IsAncestor.of_ne (h : IsAncestor parent z x) (hne : z ≠ x) (hparent : parent x = some y) :
    IsAncestor parent z y := by
  obtain ⟨nodes, hnodes⟩ := h
  cases hnodes with
  | here => exact absurd rfl hne
  | up hother hrest =>
    rw [hparent] at hother
    cases hother
    exact ⟨_, hrest⟩

theorem IsAncestor.eq_of_none (h : IsAncestor parent z x) (hparent : parent x = none) : z = x := by
  obtain ⟨nodes, hnodes⟩ := h
  cases hnodes with
  | here => rfl
  | up hother _ =>
    rw [hparent] at hother
    cases hother

/-- All ancestors of a node, where a walk of so many steps reaches one without a parent. -/
def ancestors (parent : κ → Option κ) : ℕ → κ → Option (List κ)
  | 0, _ => none
  | steps + 1, x =>
    match parent x with
    | none => some [x]
    | some y => (ancestors parent steps y).map (x :: ·)

theorem mem_ancestors {steps : ℕ} (h : ancestors parent steps x = some nodes)
    (hancestor : IsAncestor parent z x) : z ∈ nodes := by
  induction steps generalizing x nodes with
  | zero => cases h
  | succ steps ih =>
    unfold ancestors at h
    split at h
    · next hparent =>
      cases h
      rw [hancestor.eq_of_none hparent]
      exact mem_singleton_self _
    · next y hparent =>
      obtain ⟨rest, hrest, rfl⟩ := Option.map_eq_some_iff.mp h
      by_cases hself : z = x
      · rw [hself]
        exact mem_cons_self
      · exact mem_cons_of_mem _ (ih hrest (hancestor.of_ne hself hparent))

section

variable (hleveled : Leveled parent level)

include hleveled

theorem IsAncestor.level_le (h : IsAncestor parent z x) (hz : level z = some k)
    (hx : level x = some n) : k ≤ n := by
  obtain ⟨nodes, hnodes⟩ := h
  rw [hnodes.level_eq hleveled hz] at hx
  exact Option.some.inj hx ▸ Nat.le_add_right ..

/-- An ancestor one level below is the parent. -/
theorem IsAncestor.parent_eq (h : IsAncestor parent z x) (hx : level x = some (k + 1))
    (hz : level z = some k) : parent x = some z := by
  obtain ⟨nodes, hnodes⟩ := h
  have hlength := hnodes.level_eq hleveled hz
  rw [hx] at hlength
  have hlength := Option.some.inj hlength
  cases hnodes with
  | here => simp at hlength
  | @up _ _ _ nodes hparent hrest =>
    rw [length_cons] at hlength
    obtain rfl : nodes = [] := length_eq_zero_iff.mp (by omega)
    obtain rfl := hrest.eq_of_nil
    exact hparent

theorem Path.level_of_mem (h : Path parent x nodes z) (hlevel : level z = some k)
    (hmem : y ∈ nodes) : IsAncestor parent y x ∧ ∃ n, level y = some n ∧ k < n := by
  obtain ⟨before, after, rfl⟩ := append_of_mem hmem
  obtain ⟨node, hbefore, hrest⟩ := h.split
  cases hrest with
  | up hparent hafter =>
    refine ⟨⟨before, hbefore⟩, _, Path.level_eq hleveled (.up hparent hafter) hlevel, ?_⟩
    rw [length_cons]
    omega

/-- An ancestor above the end of a path is one of its nodes. -/
theorem Path.mem_of_level (h : Path parent x nodes z) (hancestor : IsAncestor parent y x)
    (hz : level z = some k) (hy : level y = some n) (hlt : k < n) : y ∈ nodes := by
  obtain ⟨before, hbefore⟩ := hancestor
  have hlength : n + before.length = k + nodes.length := by
    have hfirst := hbefore.level_eq hleveled hy
    rw [h.level_eq hleveled hz] at hfirst
    exact (Option.some.inj hfirst).symm
  obtain ⟨rest, rfl, hrest⟩ := hbefore.comparable h (by omega)
  cases hrest with
  | here =>
    rw [append_nil] at hlength
    omega
  | up => exact mem_append_right _ mem_cons_self

/-- Of two ancestors the one with the lower level is an ancestor of the other. -/
theorem IsAncestor.of_level_le (hnear : IsAncestor parent y x) (hfar : IsAncestor parent z x)
    (hy : level y = some n) (hz : level z = some k) (hle : k ≤ n) : IsAncestor parent z y := by
  obtain ⟨nodes, hnodes⟩ := hnear
  obtain ⟨more, hmore⟩ := hfar
  have hlength : n + nodes.length = k + more.length := by
    have hfirst := hnodes.level_eq hleveled hy
    rw [hmore.level_eq hleveled hz] at hfirst
    exact (Option.some.inj hfirst).symm
  obtain ⟨rest, -, hrest⟩ := hnodes.comparable hmore (by omega)
  exact ⟨rest, hrest⟩

theorem IsAncestor.eq_of_level (hfirst : IsAncestor parent y x) (hsecond : IsAncestor parent z x)
    (hy : level y = some n) (hz : level z = some n) : y = z := by
  obtain ⟨nodes, hnodes⟩ := hfirst.of_level_le hleveled hsecond hy hz (Nat.le_refl n)
  have hlevel := hnodes.level_eq hleveled hz
  rw [hy] at hlevel
  obtain rfl : nodes = [] := by
    rw [← length_eq_zero_iff]
    have := Option.some.inj hlevel
    omega
  exact hnodes.eq_of_nil

/-- The ancestor at a level between those of a node and one of its ancestors. -/
theorem IsAncestor.at_level (h : IsAncestor parent z x) (hz : level z = some k)
    (hx : level x = some m) (hlow : k ≤ n) (hhigh : n ≤ m) :
    ∃ y, IsAncestor parent y x ∧ IsAncestor parent z y ∧ level y = some n := by
  obtain ⟨nodes, hnodes⟩ := h
  have hlength : m = k + nodes.length := by
    rw [hnodes.level_eq hleveled hz] at hx
    exact (Option.some.inj hx).symm
  have hsplit : nodes = nodes.take (m - n) ++ nodes.drop (m - n) := (take_append_drop _ _).symm
  rw [hsplit] at hnodes
  obtain ⟨y, hbefore, hafter⟩ := hnodes.split
  refine ⟨y, ⟨_, hbefore⟩, ⟨_, hafter⟩, ?_⟩
  rw [hafter.level_eq hleveled hz, length_drop]
  congr 1
  omega

end

end Ancestry
