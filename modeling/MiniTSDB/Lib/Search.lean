import Mathlib.Data.List.Basic
import Mathlib.Data.List.Infix

/-!
# The first occurrence of a pattern

What `std::string::find` gives. The pattern occurs in a text or it does not (`find_eq_none_iff`),
and where the text is put together of pieces that a pattern cannot straddle, because they meet at a
character that it lacks, its first occurrence is found piece by piece (`find_append_cons`).
-/

namespace MiniTSDB
namespace Lib

variable {α : Type} [DecidableEq α]

/-- The position of the first occurrence of the pattern. -/
def find (pat : List α) : List α → Option Nat
  | [] => if pat.isPrefixOf [] then some 0 else none
  | a :: s => if pat.isPrefixOf (a :: s) then some 0 else (find pat s).map (· + 1)

theorem find_nil (pat : List α) : find pat [] = if pat.isPrefixOf [] then some 0 else none := rfl

theorem find_cons (pat : List α) (a : α) (s : List α) :
    find pat (a :: s)
      = if pat.isPrefixOf (a :: s) then some 0 else (find pat s).map (· + 1) := rfl

theorem find_at_front {pat s : List α} (h : pat <+: s) : find pat s = some 0 := by
  have hfront : pat.isPrefixOf s = true := List.isPrefixOf_iff_prefix.mpr h
  cases s with
  | nil => rw [find_nil, if_pos hfront]
  | cons a s => rw [find_cons, if_pos hfront]

theorem find_cons_later {pat s : List α} {a : α} (h : ¬ pat <+: a :: s) :
    find pat (a :: s) = (find pat s).map (· + 1) := by
  rw [find_cons, if_neg]
  intro hfront
  exact h (List.isPrefixOf_iff_prefix.mp hfront)

/-- **Nothing is found exactly where the pattern does not occur.** -/
theorem find_eq_none_iff {pat s : List α} : find pat s = none ↔ ¬ pat <:+: s := by
  induction s with
  | nil =>
    by_cases h : pat <+: []
    · rw [find_at_front h]
      simp [h.isInfix]
    · have hne : pat ≠ [] := fun heq => h (heq ▸ List.nil_prefix)
      simp [find_nil, hne]
  | cons a s ih =>
    by_cases h : pat <+: a :: s
    · rw [find_at_front h]
      simp [h.isInfix]
    · rw [find_cons_later h, Option.map_eq_none_iff, ih, List.infix_cons_iff]
      simp [h]

theorem exists_find {pat s : List α} (h : pat <:+: s) : ∃ i, find pat s = some i := by
  cases hfind : find pat s with
  | none =>
    rw [find_eq_none_iff] at hfind
    exact absurd h hfind
  | some i => exact ⟨i, rfl⟩

/-- What is found is there, and ends within the text. -/
theorem find_eq_some {pat s : List α} {i : Nat} (h : find pat s = some i) :
    pat <+: s.drop i ∧ i + pat.length ≤ s.length := by
  induction s generalizing i with
  | nil =>
    rw [find_nil] at h
    split at h
    case isTrue hfront =>
      cases h
      have hp := List.isPrefixOf_iff_prefix.mp hfront
      exact ⟨hp, by simpa using hp.length_le⟩
    case isFalse => cases h
  | cons a s ih =>
    by_cases hfront : pat <+: a :: s
    · rw [find_at_front hfront] at h
      cases h
      exact ⟨hfront, by simpa using hfront.length_le⟩
    · rw [find_cons_later hfront] at h
      obtain ⟨j, hj, rfl⟩ := Option.map_eq_some_iff.mp h
      obtain ⟨hat, hlen⟩ := ih hj
      refine ⟨hat, ?_⟩
      rw [List.length_cons]
      omega

/-- An occurrence that starts in the first piece, or the first one in the second. -/
theorem find_append {pat s : List α} (t : List α)
    (h : ∀ i < t.length, ¬ pat <+: t.drop i ++ s) :
    find pat (t ++ s) = (find pat s).map (· + t.length) := by
  induction t with
  | nil => simp
  | cons a t ih =>
    have hhead : ¬ pat <+: a :: (t ++ s) := h 0 (by simp)
    rw [List.cons_append, find_cons_later hhead, ih, Option.map_map]
    · congr 1
    · intro i hi
      have hnext := h (i + 1) (by simpa using hi)
      rwa [List.drop_succ_cons] at hnext

/-- What occurs in a piece occurs no earlier if more follows. -/
theorem find_append_of_find {pat s : List α} {i : Nat} (t : List α) (h : find pat s = some i) :
    find pat (s ++ t) = some i := by
  induction s generalizing i with
  | nil =>
    have hnil : pat = [] := by
      by_contra hne
      have hnone : find pat [] = none := by
        rw [find_eq_none_iff, List.infix_nil]
        exact hne
      rw [hnone] at h
      cases h
    subst hnil
    rw [find_at_front List.nil_prefix] at h
    rw [find_at_front List.nil_prefix]
    exact h
  | cons a s ih =>
    by_cases hfront : pat <+: a :: s
    · rw [find_at_front hfront] at h
      rw [find_at_front (hfront.trans (List.prefix_append _ _))]
      exact h
    · rw [find_cons_later hfront] at h
      obtain ⟨j, hj, rfl⟩ := Option.map_eq_some_iff.mp h
      have hnot : ¬ pat <+: a :: (s ++ t) := by
        intro hlong
        have hlen := (find_eq_some hj).2
        have hle : pat.length ≤ (a :: s).length := by
          rw [List.length_cons]
          omega
        exact hfront (List.prefix_of_prefix_length_le hlong (List.prefix_append (a :: s) t) hle)
      rw [List.cons_append, find_cons_later hnot, ih hj]
      rfl

/-- The first occurrence comes no later than any other. -/
theorem find_le {pat s : List α} {i j : Nat} (h : find pat s = some i) (hat : pat <+: s.drop j) :
    i ≤ j := by
  induction s generalizing i j with
  | nil =>
    rw [List.drop_nil] at hat
    rw [find_at_front hat] at h
    cases h
    exact Nat.zero_le j
  | cons a s ih =>
    by_cases hfront : pat <+: a :: s
    · rw [find_at_front hfront] at h
      cases h
      exact Nat.zero_le j
    · rw [find_cons_later hfront] at h
      obtain ⟨k, hk, rfl⟩ := Option.map_eq_some_iff.mp h
      cases j with
      | zero => exact absurd hat hfront
      | succ j =>
        rw [List.drop_succ_cons] at hat
        exact Nat.succ_le_succ (ih hk hat)

/-- What does not occur before its place ends is found at its place. -/
theorem find_at_place {pat before : List α} (after : List α) (hne : pat ≠ [])
    (h : ¬ pat <:+: before ++ pat.dropLast) :
    find pat (before ++ (pat ++ after)) = some before.length := by
  have hlen : pat.dropLast.length = pat.length - 1 := List.length_dropLast
  have hpos := List.length_pos_iff.mpr hne
  rw [find_append, find_at_front (List.prefix_append _ _), Option.map_some, Nat.zero_add]
  intro i hi hearly
  apply h
  have hshort : before.drop i ++ pat.dropLast <+: before.drop i ++ (pat ++ after) :=
    (List.prefix_append_right_inj _).mpr ((List.dropLast_prefix pat).trans (List.prefix_append _ _))
  have hle : pat.length ≤ (before.drop i ++ pat.dropLast).length := by
    rw [List.length_append, List.length_drop, hlen]
    omega
  have hfront := List.prefix_of_prefix_length_le hearly hshort hle
  have hsuffix : before.drop i ++ pat.dropLast <:+ before ++ pat.dropLast :=
    ⟨before.take i, by rw [← List.append_assoc, List.take_append_drop]⟩
  exact hfront.isInfix.trans hsuffix.isInfix

omit [DecidableEq α] in
/-- Where a character comes once, a pattern that ends in it has the rest right in front of it. -/
theorem suffix_of_infix_once {pat before after : List α} {c : α} (hbefore : c ∉ before)
    (hafter : c ∉ after) (h : pat ++ [c] <:+: before ++ c :: after) : pat <:+ before := by
  obtain ⟨u, w, heq⟩ := h
  have hsplit : (u ++ pat) ++ c :: w = before ++ c :: after := by
    rw [← heq]
    simp only [List.append_assoc, List.singleton_append]
  cases List.append_eq_append_iff.mp hsplit with
  | inl hlong =>
    obtain ⟨mid, hmid, hrest⟩ := hlong
    cases mid with
    | nil => exact ⟨u, by rw [hmid, List.append_nil]⟩
    | cons d mid =>
      obtain ⟨hd, -⟩ := List.cons.inj hrest
      rw [hmid, hd] at hbefore
      exact absurd (List.mem_append_right _ List.mem_cons_self) hbefore
  | inr hshort =>
    obtain ⟨mid, hmid, hrest⟩ := hshort
    cases mid with
    | nil => exact ⟨u, by rw [hmid, List.append_nil]⟩
    | cons d mid =>
      obtain ⟨-, hmid'⟩ := List.cons.inj hrest
      rw [hmid'] at hafter
      exact absurd (List.mem_append_right _ List.mem_cons_self) hafter

omit [DecidableEq α] in
/-- What is in front of the first `c` is told by the whole. -/
theorem eq_of_append_cons_eq {a a' b b' : List α} {c : α} (ha : c ∉ a) (ha' : c ∉ a')
    (h : a ++ c :: b = a' ++ c :: b') : a = a' ∧ b = b' := by
  induction a generalizing a' with
  | nil =>
    cases a' with
    | nil => exact ⟨rfl, (List.cons.inj h).2⟩
    | cons x a' =>
      have hx : c = x := (List.cons.inj h).1
      exact absurd (hx ▸ List.mem_cons_self) ha'
  | cons x a ih =>
    cases a' with
    | nil =>
      have hx : x = c := (List.cons.inj h).1
      exact absurd (hx ▸ List.mem_cons_self) ha
    | cons y a' =>
      obtain ⟨hxy, hrest⟩ := List.cons.inj h
      obtain ⟨haa, hb⟩ := ih (fun hc => ha (List.mem_cons_of_mem _ hc))
        (fun hc => ha' (List.mem_cons_of_mem _ hc)) hrest
      exact ⟨by rw [hxy, haa], hb⟩

/-- The first occurrence of a character. -/
theorem find_char {s : List α} {c : α} (t : List α) (h : c ∉ s) :
    find [c] (s ++ c :: t) = some s.length := by
  have hhead : [c] <+: c :: t := ⟨t, rfl⟩
  rw [find_append]
  · rw [find_at_front hhead, Option.map_some, Nat.zero_add]
  · intro i hi hfront
    have hmem : c ∈ s.drop i := by
      rw [List.drop_eq_getElem_cons hi, List.cons_append, List.cons_prefix_cons] at hfront
      rw [List.drop_eq_getElem_cons hi, hfront.1]
      exact List.mem_cons_self
    exact h (List.mem_of_mem_drop hmem)

omit [DecidableEq α] in
/-- What begins with a character that the first piece lacks is behind it. -/
theorem length_le_of_prefix_drop {pat t rest : List α} {c : α} {i : Nat} (hc : c ∉ t)
    (h : c :: pat <+: (t ++ rest).drop i) : t.length ≤ i := by
  by_contra hlt
  rw [Nat.not_le] at hlt
  rw [List.drop_append_of_le_length hlt.le, List.drop_eq_getElem_cons hlt, List.cons_append,
    List.cons_prefix_cons] at h
  exact hc (h.1 ▸ List.getElem_mem hlt)

omit [DecidableEq α] in
/-- A pattern that lacks a character ends before it. -/
theorem prefix_of_prefix_append_cons {pat t rest : List α} {sep : α} (hsep : sep ∉ pat)
    (h : pat <+: t ++ sep :: rest) : pat <+: t := by
  induction t generalizing pat with
  | nil =>
    cases pat with
    | nil => exact List.nil_prefix
    | cons p pat =>
      rw [List.nil_append, List.cons_prefix_cons] at h
      exact absurd (h.1 ▸ List.mem_cons_self) hsep
  | cons a t ih =>
    cases pat with
    | nil => exact List.nil_prefix
    | cons p pat =>
      rw [List.cons_append, List.cons_prefix_cons] at h
      exact List.cons_prefix_cons.mpr
        ⟨h.1, ih (fun hmem => hsep (List.mem_cons_of_mem _ hmem)) h.2⟩

/-- **Two pieces that meet at a character the pattern lacks** are searched one after the other. -/
theorem find_append_cons {pat t rest : List α} {sep : α} (hsep : sep ∉ pat) (hne : pat ≠ []) :
    find pat (t ++ sep :: rest) = match find pat t with
      | some i => some i
      | none => (find pat rest).map (· + (t.length + 1)) := by
  induction t with
  | nil =>
    have hnot : ¬ pat <+: sep :: rest := by
      intro h
      exact hne (List.prefix_nil.mp (prefix_of_prefix_append_cons (t := []) hsep h))
    have hnil : find pat ([] : List α) = none := by
      rw [find_eq_none_iff, List.infix_nil]
      exact hne
    rw [hnil, List.nil_append, find_cons_later hnot]
    rfl
  | cons a t ih =>
    by_cases hfront : pat <+: a :: t
    · rw [find_at_front hfront, find_at_front]
      exact hfront.trans (List.prefix_append _ _)
    · have hnot : ¬ pat <+: a :: (t ++ sep :: rest) := by
        intro h
        exact hfront (prefix_of_prefix_append_cons (t := a :: t) hsep h)
      rw [find_cons_later hfront, List.cons_append, find_cons_later hnot, ih]
      cases find pat t with
      | some i => rfl
      | none =>
        rw [Option.map_none, Option.map_map]
        dsimp only
        congr 1

omit [DecidableEq α] in
/-- The same of occurrences: the pattern is in one of the pieces. -/
theorem infix_append_cons_iff {pat t rest : List α} {sep : α} (hsep : sep ∉ pat) :
    pat <:+: t ++ sep :: rest ↔ pat <:+: t ∨ pat <:+: rest := by
  induction t with
  | nil =>
    rw [List.nil_append, List.infix_cons_iff, List.infix_nil]
    refine or_congr_left ?_
    constructor
    · intro h
      exact List.prefix_nil.mp (prefix_of_prefix_append_cons (t := []) hsep h)
    · intro h
      rw [h]
      exact List.nil_prefix
  | cons a t ih =>
    rw [List.cons_append, List.infix_cons_iff, ih, List.infix_cons_iff, or_assoc]
    refine or_congr_left ?_
    constructor
    · intro h
      exact prefix_of_prefix_append_cons (t := a :: t) hsep h
    · intro h
      exact h.trans (List.prefix_append _ _)

omit [DecidableEq α] in
/-- A pattern begins in the second piece if its first character is not in the first. -/
theorem infix_append_of_head {pat t rest : List α} {a : α} (ha : a ∉ t) :
    a :: pat <:+: t ++ rest ↔ a :: pat <:+: rest := by
  induction t with
  | nil => rfl
  | cons b t ih =>
    have hne : a ≠ b := fun h => ha (h ▸ List.mem_cons_self)
    have hnot : a ∉ t := fun h => ha (List.mem_cons_of_mem _ h)
    rw [List.cons_append, List.infix_cons_iff, ih hnot, List.cons_prefix_cons]
    simp [hne]

end Lib
end MiniTSDB
