import Mathlib.Data.List.Forall2
import Mathlib.Data.List.Infix

/-!
# `LIKE`

A text is like a pattern if it can be cut into one piece for each character of the pattern, such
that each character stands for its piece. One character of the alphabet stands for any text, one
for any single character, and every other for itself.
-/

namespace MiniTSDB
namespace Lib

variable {α : Type}

/-- What a character of a pattern stands for. -/
inductive Stands (many one : α) : α → List α → Prop
  | many (piece : List α) : Stands many one many piece
  | one (c : α) : Stands many one one [c]
  | self (q : α) (hmany : q ≠ many) (hone : q ≠ one) : Stands many one q [q]

/-- The text is cut into a piece for each character. -/
def Like (many one : α) (pattern text : List α) : Prop :=
  ∃ pieces, List.Forall₂ (Stands many one) pattern pieces ∧ pieces.flatten = text

variable {many one q c : α} {pattern other text rest : List α}

/-! ## Character by character -/

@[simp] theorem like_nil_iff : Like many one [] text ↔ text = [] := by
  constructor
  · intro ⟨pieces, hstands, hflatten⟩
    cases hstands
    rw [← hflatten, List.flatten_nil]
  · intro htext
    exact ⟨[], .nil, htext ▸ List.flatten_nil⟩

theorem like_cons_iff : Like many one (q :: pattern) text ↔
    ∃ piece rest, Stands many one q piece ∧ Like many one pattern rest ∧ piece ++ rest = text := by
  constructor
  · intro ⟨pieces, hstands, hflatten⟩
    cases hstands with
    | @cons q piece pattern pieces hpiece hpieces =>
      exact ⟨piece, pieces.flatten, hpiece, ⟨pieces, hpieces, rfl⟩, hflatten⟩
  · intro ⟨piece, rest, hpiece, ⟨pieces, hpieces, hrest⟩, htext⟩
    refine ⟨piece :: pieces, .cons hpiece hpieces, ?_⟩
    rw [List.flatten_cons, hrest, htext]

theorem like_many_cons_iff :
    Like many one (many :: pattern) text ↔ ∃ rest, rest <:+ text ∧ Like many one pattern rest := by
  rw [like_cons_iff]
  constructor
  · intro ⟨piece, rest, _, hlike, htext⟩
    exact ⟨rest, ⟨piece, htext⟩, hlike⟩
  · intro ⟨rest, ⟨piece, htext⟩, hlike⟩
    exact ⟨piece, rest, .many piece, hlike, htext⟩

/-- Only `many` can stand for nothing, so a text that another character begins has a character
for it. -/
theorem like_cons_cons_iff (hmany : q ≠ many) : Like many one (q :: pattern) (c :: text) ↔
    (q = one ∨ q = c) ∧ Like many one pattern text := by
  rw [like_cons_iff]
  constructor
  · intro ⟨piece, rest, hpiece, hlike, htext⟩
    cases hpiece with
    | many piece => exact absurd rfl hmany
    | one d =>
      obtain ⟨-, hrest⟩ := List.cons.inj htext
      exact ⟨.inl rfl, hrest ▸ hlike⟩
    | self q _ _ =>
      obtain ⟨hq, hrest⟩ := List.cons.inj htext
      exact ⟨.inr hq, hrest ▸ hlike⟩
  · intro ⟨hq, hlike⟩
    by_cases hone : q = one
    · exact ⟨[c], text, hone ▸ .one c, hlike, rfl⟩
    · exact ⟨[q], text, .self q hmany hone, hlike, by rw [hq.resolve_left hone]; rfl⟩

theorem not_like_cons_nil (hmany : q ≠ many) : ¬ Like many one (q :: pattern) [] := by
  rw [like_cons_iff]
  intro ⟨piece, rest, hpiece, _, htext⟩
  obtain ⟨rfl, -⟩ := List.append_eq_nil_iff.mp htext
  cases hpiece with
  | many => exact hmany rfl

/-! ## Patterns one behind the other -/

theorem like_append_iff : Like many one (pattern ++ other) text ↔
    ∃ front rest, Like many one pattern front ∧ Like many one other rest ∧ front ++ rest = text := by
  induction pattern generalizing text with
  | nil => simp
  | cons q pattern ih =>
    rw [List.cons_append, like_cons_iff]
    constructor
    · intro ⟨piece, behind, hpiece, hlike, htext⟩
      obtain ⟨front, rest, hfront, hrest, rfl⟩ := ih.mp hlike
      refine ⟨piece ++ front, rest, like_cons_iff.mpr ⟨piece, front, hpiece, hfront, rfl⟩, hrest, ?_⟩
      rw [List.append_assoc, htext]
    · intro ⟨front, rest, hfront, hrest, htext⟩
      obtain ⟨piece, front', hpiece, hlike, rfl⟩ := like_cons_iff.mp hfront
      refine ⟨piece, front' ++ rest, hpiece, ih.mpr ⟨front', rest, hlike, hrest, rfl⟩, ?_⟩
      rw [← List.append_assoc, htext]

/-- One more character. -/
theorem like_concat_one_iff (hne : one ≠ many) : Like many one (pattern ++ [one]) text ↔
    ∃ front c, Like many one pattern front ∧ front ++ [c] = text := by
  rw [like_append_iff]
  constructor
  · intro ⟨front, rest, hfront, hrest, htext⟩
    cases rest with
    | nil => exact absurd hrest (not_like_cons_nil hne)
    | cons c rest =>
      rw [like_cons_cons_iff hne, like_nil_iff] at hrest
      exact ⟨front, c, hfront, hrest.2 ▸ htext⟩
  · intro ⟨front, c, hfront, htext⟩
    refine ⟨front, [c], hfront, ?_, htext⟩
    rw [like_cons_cons_iff hne, like_nil_iff]
    exact ⟨.inl rfl, rfl⟩

/-- A pattern that ends in `many` is met by all that a text it is met by is the front of. -/
theorem Like.extend (h : Like many one (pattern ++ [many]) text) (hfront : text <+: rest) :
    Like many one (pattern ++ [many]) rest := by
  obtain ⟨front, behind, hlike, -, rfl⟩ := like_append_iff.mp h
  obtain ⟨more, rfl⟩ := hfront
  refine like_append_iff.mpr ⟨front, behind ++ more, hlike, ?_, (List.append_assoc _ _ _).symm⟩
  exact like_many_cons_iff.mpr ⟨[], List.nil_suffix, like_nil_iff.mpr rfl⟩

end Lib
end MiniTSDB
