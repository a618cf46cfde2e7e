import Ordexus.Library.Borsh

/-!
# Fields that follow each other

What is written for a digest or a signature is never read back, but two records with the same
bytes must have the same fields. A field can be split off if its width is known or if its length
stands in front of it.
-/

namespace Borsh

open List

variable {first second rest others : ByteString} {width left right : ℕ}

section

variable (hleft : left < 256 ^ width) (hright : right < 256 ^ width)
include hleft hright

theorem littleEndian_inj (h : littleEndian width left = littleEndian width right) :
    left = right := by
  have hvalues := congrArg ofLittleEndian h
  rwa [ofLittleEndian_littleEndian hleft, ofLittleEndian_littleEndian hright] at hvalues

theorem bigEndian_inj (h : bigEndian width left = bigEndian width right) : left = right :=
  littleEndian_inj hleft hright (reverse_injective h)

theorem split_littleEndian
    (h : littleEndian width left ++ rest = littleEndian width right ++ others) :
    left = right ∧ rest = others := by
  obtain ⟨hfield, hrest⟩ := append_inj h (by simp)
  exact ⟨littleEndian_inj hleft hright hfield, hrest⟩

theorem split_bigEndian (h : bigEndian width left ++ rest = bigEndian width right ++ others) :
    left = right ∧ rest = others := by
  obtain ⟨hfield, hrest⟩ := append_inj h (by simp)
  exact ⟨bigEndian_inj hleft hright hfield, hrest⟩

end

theorem split_prefixed (hfirst : first.length < 256 ^ width) (hsecond : second.length < 256 ^ width)
    (h : littleEndian width first.length ++ (first ++ rest) =
      littleEndian width second.length ++ (second ++ others)) : first = second ∧ rest = others := by
  obtain ⟨hlength, hbytes⟩ := split_littleEndian hfirst hsecond h
  exact append_inj hbytes hlength

/-- Records that can be split off one after the other agree one by one. -/
theorem forall₂_of_flatMap {α : Type} {encode : α → ByteString} {same : α → α → Prop}
    {xs ys : List α} (hne : ∀ x, encode x ≠ [])
    (hsplit : ∀ x ∈ xs, ∀ y ∈ ys, ∀ rest others, encode x ++ rest = encode y ++ others →
      same x y ∧ rest = others)
    (h : xs.flatMap encode = ys.flatMap encode) : Forall₂ same xs ys := by
  induction xs generalizing ys with
  | nil =>
    cases ys with
    | nil => exact .nil
    | cons y ys =>
      have hempty := (append_eq_nil_iff.mp h.symm).1
      exact absurd hempty (hne y)
  | cons x xs ih =>
    cases ys with
    | nil =>
      have hempty := (append_eq_nil_iff.mp h).1
      exact absurd hempty (hne x)
    | cons y ys =>
      obtain ⟨hsame, htail⟩ := hsplit x mem_cons_self y mem_cons_self _ _ h
      refine .cons hsame (ih (fun a ha b hb => ?_) htail)
      exact hsplit a (mem_cons_of_mem x ha) b (mem_cons_of_mem y hb)

end Borsh
