import MiniTSDB.Cache.LatestCache
import MiniTSDB.Lib.Like

/-!
# What a pattern matches in the cache of latest values

The loop of `MatchPattern` stops where the tag ends, and a `%` that is still to come is then not
looked at. So at the end of a pattern `%` stands for one character or more
(`matchPattern_iff_like_asked`), and everywhere else for what it stands for in SQL: the pattern is
read as SQL reads it unless a `%` at its end has nothing left to stand for
(`matchPattern_like_iff`).
-/

namespace MiniTSDB
namespace Storage

open Sql Lib

/-- SQL's `LIKE`. -/
abbrev SqlLike (pattern tag : Bytes) : Prop := Like percent underscore pattern tag

/-- The pattern the matcher goes by: behind a `%` at the end it asks for one more character. -/
def asked (pattern : Bytes) : Bytes :=
  if pattern.getLast? = some percent then pattern ++ [underscore] else pattern

theorem underscore_ne_percent : underscore ≠ percent := by decide

theorem asked_cons (q : UInt8) {pattern : Bytes} (hne : pattern ≠ []) :
    asked (q :: pattern) = q :: asked pattern := by
  obtain ⟨d, rest, rfl⟩ := List.exists_cons_of_ne_nil hne
  unfold asked
  rw [List.getLast?_cons_cons]
  split
  · rfl
  · rfl

/-- Nothing is like what is asked for. -/
theorem not_like_asked_nil {pattern : Bytes} (hne : pattern ≠ []) : ¬ SqlLike (asked pattern) [] := by
  unfold asked
  split
  case isTrue =>
    rw [SqlLike, like_concat_one_iff underscore_ne_percent]
    intro ⟨front, c, _, hnil⟩
    simp at hnil
  case isFalse hlast =>
    -- the last character is not a `%`, and needs one
    rw [← List.dropLast_append_getLast hne, List.getLast?_concat, Option.some.injEq] at hlast
    rw [← List.dropLast_append_getLast hne, SqlLike, like_append_iff]
    intro ⟨front, rest, _, hrest, hnil⟩
    obtain ⟨-, rfl⟩ := List.append_eq_nil_iff.mp hnil
    exact not_like_cons_nil hlast hrest

/-- The suffixes that the rest of a pattern is tried on. -/
theorem mem_dropLast_tails {tag rest : Bytes} :
    rest ∈ tag.tails.dropLast ↔ rest <:+ tag ∧ rest ≠ [] := by
  induction tag with
  | nil =>
    show rest ∈ [] ↔ _
    simp
  | cons c tag ih =>
    have hne : tag.tails ≠ [] := by cases tag <;> simp
    rw [List.tails_cons, List.dropLast_cons_of_ne_nil hne, List.mem_cons, ih, List.suffix_cons_iff]
    constructor
    · rintro (rfl | ⟨hsuffix, hrest⟩)
      · exact ⟨.inl rfl, List.cons_ne_nil _ _⟩
      · exact ⟨.inr hsuffix, hrest⟩
    · rintro ⟨rfl | hsuffix, hrest⟩
      · exact .inl rfl
      · exact .inr ⟨hsuffix, hrest⟩

/-- **What the matcher decides**, by induction on the pattern: each turn of the loop takes one
character of it. -/
theorem matchPattern_iff_like_asked {pattern tag : Bytes} :
    matchPattern pattern tag = true ↔ SqlLike (asked pattern) tag := by
  induction pattern generalizing tag with
  | nil =>
    show tag.isEmpty = true ↔ SqlLike [] tag
    rw [SqlLike, like_nil_iff, List.isEmpty_iff]
  | cons q pattern ih =>
    cases tag with
    | nil =>
      show false = true ↔ _
      exact iff_of_false Bool.false_ne_true (not_like_asked_nil (List.cons_ne_nil q pattern))
    | cons c tag =>
      unfold matchPattern
      by_cases hpercent : q = percent
      · rw [if_pos hpercent, hpercent]
        by_cases hnil : pattern = []
        · -- the `%` at the end takes the rest, which is not empty
          rw [hnil]
          have hlike : SqlLike (asked [percent]) (c :: tag) := by
            refine (like_concat_one_iff underscore_ne_percent).mpr
              ⟨(c :: tag).dropLast, (c :: tag).getLast (List.cons_ne_nil _ _), ?_,
                List.dropLast_append_getLast _⟩
            exact like_many_cons_iff.mpr ⟨[], List.nil_suffix, like_nil_iff.mpr rfl⟩
          exact iff_of_true rfl hlike
        · rw [asked_cons percent hnil, SqlLike, like_many_cons_iff, Bool.or_eq_true,
            List.any_eq_true]
          constructor
          · rintro (hempty | ⟨rest, hrest, hmatch⟩)
            · exact absurd (List.isEmpty_iff.mp hempty) hnil
            · exact ⟨rest, (mem_dropLast_tails.mp hrest).1, ih.mp hmatch⟩
          · intro ⟨rest, hsuffix, hlike⟩
            have hrest : rest ≠ [] := by
              rintro rfl
              exact not_like_asked_nil hnil hlike
            exact .inr ⟨rest, mem_dropLast_tails.mpr ⟨hsuffix, hrest⟩, ih.mpr hlike⟩
      · rw [if_neg hpercent]
        have hasked : asked (q :: pattern) = q :: asked pattern := by
          by_cases hnil : pattern = []
          · rw [hnil]
            exact if_neg (by simpa using hpercent)
          · exact asked_cons q hnil
        have hrest : matchPattern pattern tag = true ↔ Like percent underscore (asked pattern) tag :=
          ih
        rw [hasked, SqlLike, like_cons_cons_iff hpercent, ← hrest]
        split
        case isTrue hq => simp [hq]
        case isFalse hq => simp [hq]

/-- A `%` at the end of the pattern has nothing left to stand for: the tag is like the pattern, and
nothing shorter at its front is. -/
def NothingLeft (pattern tag : Bytes) : Prop :=
  pattern.getLast? = some percent ∧ SqlLike pattern tag ∧
    ∀ front, front <+: tag → front ≠ tag → ¬ SqlLike pattern front

/-- There is something left just if one character is. -/
theorem like_concat_underscore_iff {pattern tag : Bytes} (hlast : pattern.getLast? = some percent) :
    SqlLike (pattern ++ [underscore]) tag ↔
      ∃ front, front <+: tag ∧ front ≠ tag ∧ SqlLike pattern front := by
  obtain ⟨stem, rfl⟩ := List.getLast?_eq_some_iff.mp hlast
  rw [SqlLike, like_concat_one_iff underscore_ne_percent]
  constructor
  · intro ⟨front, c, hlike, htag⟩
    refine ⟨front, ⟨[c], htag⟩, ?_, hlike⟩
    rintro rfl
    simp at htag
  · intro ⟨front, ⟨rest, htag⟩, hne, hlike⟩
    have hrest : rest ≠ [] := by
      rintro rfl
      exact hne (by rw [← htag, List.append_nil])
    refine ⟨front ++ rest.dropLast, rest.getLast hrest, ?_, ?_⟩
    · exact hlike.extend (List.prefix_append _ _)
    · rw [List.append_assoc, List.dropLast_append_getLast hrest, htag]

/-- **`LIKE` is SQL's, unless a `%` at the end has nothing left to stand for.** -/
theorem matchPattern_like_iff (pattern tag : Bytes) :
    (matchPattern pattern tag = true ↔ SqlLike pattern tag) ↔ ¬ NothingLeft pattern tag := by
  rw [matchPattern_iff_like_asked, asked]
  split
  case isTrue hlast =>
    rw [like_concat_underscore_iff hlast]
    constructor
    · intro hagrees ⟨_, hlike, hnone⟩
      obtain ⟨front, hfront, hne, hlike'⟩ := hagrees.mpr hlike
      exact hnone front hfront hne hlike'
    · intro hnot
      constructor
      · intro ⟨front, hfront, _, hlike⟩
        obtain ⟨stem, rfl⟩ := List.getLast?_eq_some_iff.mp hlast
        exact hlike.extend hfront
      · intro hlike
        by_contra hnone
        exact hnot ⟨hlast, hlike, fun front hfront hne hlike' =>
          hnone ⟨front, hfront, hne, hlike'⟩⟩
  case isFalse hlast =>
    refine iff_of_true Iff.rfl ?_
    intro h
    exact hlast h.1

/-- `A%` does not match `A`. -/
theorem matchPattern_misses_empty_rest :
    ¬ (matchPattern (ascii "A%") (ascii "A") = true ↔ SqlLike (ascii "A%") (ascii "A")) := by
  have hlike : SqlLike (ascii "A%") (ascii "A") :=
    ⟨[ascii "A", []], .cons (.self 65 (by decide) (by decide)) (.cons (.many []) .nil), rfl⟩
  intro h
  exact absurd (h.mpr hlike) (by decide)

end Storage
end MiniTSDB
