import Mathlib.Data.List.Basic

/-!
# A text cut into pieces

`List.splitOn` with the place of each piece. The pieces of two texts with a separator between them
are those of the first and then those of the second, so what is done with the pieces can be told
apart by where they stand (`append_eq_append_iff_of_apart`).
-/

namespace MiniTSDB
namespace Lib

variable {α : Type}

/-- The pieces at their places, with one separator behind each. -/
def placed : Nat → List (List α) → List (Nat × List α)
  | _, [] => []
  | pos, piece :: pieces => (pos, piece) :: placed (pos + piece.length + 1) pieces

/-- How much room they take. -/
def width : List (List α) → Nat
  | [] => 0
  | piece :: pieces => piece.length + 1 + width pieces

@[simp] theorem width_nil : width ([] : List (List α)) = 0 := rfl

@[simp] theorem width_cons (piece : List α) (pieces : List (List α)) :
    width (piece :: pieces) = piece.length + 1 + width pieces := rfl

theorem width_append (pieces pieces' : List (List α)) :
    width (pieces ++ pieces') = width pieces + width pieces' := by
  induction pieces with
  | nil => simp
  | cons piece pieces ih => simp [ih, Nat.add_assoc]

theorem placed_append (pos : Nat) (pieces pieces' : List (List α)) :
    placed pos (pieces ++ pieces')
      = placed pos pieces ++ placed (pos + width pieces) pieces' := by
  induction pieces generalizing pos with
  | nil => rfl
  | cons piece pieces ih =>
    have hpos : pos + piece.length + 1 + width pieces = pos + width (piece :: pieces) := by
      rw [width_cons]
      omega
    rw [List.cons_append, placed, placed, ih, hpos, List.cons_append]

theorem map_snd_placed (pos : Nat) (pieces : List (List α)) :
    (placed pos pieces).map Prod.snd = pieces := by
  induction pieces generalizing pos with
  | nil => rfl
  | cons piece pieces ih => rw [placed, List.map_cons, ih]

/-- What holds of the pieces, at their places. -/
theorem forall_placed_iff {P : List α → Prop} (pos : Nat) (pieces : List (List α)) :
    (∀ x ∈ placed pos pieces, P x.2) ↔ ∀ piece ∈ pieces, P piece := by
  conv => rhs; rw [← map_snd_placed pos pieces]
  rw [List.forall_mem_map]

/-- Each stands, with its separator, in the room that all of them take. -/
theorem mem_placed {x : Nat × List α} {pos : Nat} {pieces : List (List α)}
    (h : x ∈ placed pos pieces) : pos ≤ x.1 ∧ x.1 + x.2.length < pos + width pieces := by
  induction pieces generalizing pos with
  | nil => cases h
  | cons piece pieces ih =>
    rw [width_cons]
    rcases List.mem_cons.mp h with rfl | hrest
    · show pos ≤ pos ∧ pos + piece.length < _
      omega
    · have hin := ih hrest
      omega

/-- What is on one side of a bound and what is on the other are told apart in a whole. -/
theorem append_eq_append_iff_of_apart {P : α → Prop} {l₁ l₂ r₁ r₂ : List α}
    (hl₁ : ∀ a ∈ l₁, P a) (hl₂ : ∀ a ∈ l₂, P a) (hr₁ : ∀ a ∈ r₁, ¬ P a) (hr₂ : ∀ a ∈ r₂, ¬ P a) :
    l₁ ++ r₁ = l₂ ++ r₂ ↔ l₁ = l₂ ∧ r₁ = r₂ := by
  constructor
  · intro h
    induction l₁ generalizing l₂ with
    | nil =>
      cases l₂ with
      | nil => exact ⟨rfl, h⟩
      | cons b l₂ =>
        have hb : b ∈ r₁ := by
          rw [List.nil_append] at h
          rw [h]
          exact List.mem_cons_self
        exact absurd (hl₂ b List.mem_cons_self) (hr₁ b hb)
    | cons a l₁ ih =>
      cases l₂ with
      | nil =>
        have ha : a ∈ r₂ := by
          rw [List.nil_append] at h
          rw [← h]
          exact List.mem_cons_self
        exact absurd (hl₁ a List.mem_cons_self) (hr₂ a ha)
      | cons b l₂ =>
        obtain ⟨rfl, hrest⟩ := List.cons.inj h
        obtain ⟨rfl, hr⟩ := ih (fun x hx => hl₁ x (List.mem_cons_of_mem _ hx))
          (fun x hx => hl₂ x (List.mem_cons_of_mem _ hx)) hrest
        exact ⟨rfl, hr⟩
  · rintro ⟨rfl, rfl⟩
    rfl

/-! ## The pieces of a text -/

variable [BEq α] [LawfulBEq α] {c : α}

omit [LawfulBEq α] in
/-- The pieces and the separators between them take the room of the text, and one more. -/
theorem width_splitOn (s : List α) : width (s.splitOn c) = s.length + 1 := by
  induction s with
  | nil => simp
  | cons a s ih =>
    obtain ⟨piece, pieces, hpieces⟩ := List.exists_cons_of_ne_nil (List.splitOn_ne_nil c s)
    rw [hpieces, width_cons] at ih
    rw [List.splitOn_cons_eq_if_modifyHead, hpieces]
    split
    · rw [width_cons, width_cons, ih]
      simp [Nat.add_comm]
    · rw [List.modifyHead_cons, width_cons]
      simp only [List.length_cons]
      omega

omit [LawfulBEq α] in
theorem width_add_of_splitOn {s last : List α} {pieces : List (List α)}
    (h : s.splitOn c = pieces ++ [last]) : width pieces + last.length = s.length := by
  have hwidth := width_splitOn (c := c) s
  rw [h, width_append, width_cons, width_nil] at hwidth
  omega

theorem not_mem_of_mem_splitOn {s piece : List α} (h : piece ∈ s.splitOn c) : c ∉ piece := by
  induction s generalizing piece with
  | nil =>
    rw [List.splitOn_nil, List.mem_singleton] at h
    rw [h]
    exact List.not_mem_nil
  | cons a s ih =>
    obtain ⟨first, pieces, hpieces⟩ := List.exists_cons_of_ne_nil (List.splitOn_ne_nil c s)
    rw [List.splitOn_cons_eq_if_modifyHead] at h
    split at h
    · rcases List.mem_cons.mp h with rfl | hrest
      · exact List.not_mem_nil
      · exact ih hrest
    case isFalse ha =>
      rw [hpieces, List.modifyHead_cons] at h
      rw [hpieces] at ih
      rcases List.mem_cons.mp h with rfl | hrest
      · intro hc
        rcases List.mem_cons.mp hc with rfl | hfirst
        · exact ha (beq_self_eq_true c)
        · exact ih List.mem_cons_self hfirst
      · exact ih (List.mem_cons_of_mem _ hrest)

/-- What has no separator goes to the last piece. -/
theorem exists_splitOn_append {t : List α} (ht : c ∉ t) (s : List α) :
    ∃ pieces last, s.splitOn c = pieces ++ [last] ∧
      (s ++ t).splitOn c = pieces ++ [last ++ t] := by
  induction s with
  | nil => exact ⟨[], [], List.splitOn_nil .., List.splitOn_eq_singleton ht⟩
  | cons a s ih =>
    obtain ⟨pieces, last, hs, hst⟩ := ih
    rw [List.cons_append, List.splitOn_cons_eq_if_modifyHead, List.splitOn_cons_eq_if_modifyHead,
      hs, hst]
    split
    · exact ⟨[] :: pieces, last, rfl, rfl⟩
    · cases pieces with
      | nil => exact ⟨[], a :: last, rfl, rfl⟩
      | cons piece pieces => exact ⟨(a :: piece) :: pieces, last, rfl, rfl⟩

end Lib
end MiniTSDB
