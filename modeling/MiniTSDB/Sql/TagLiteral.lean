import MiniTSDB.Sql.FixedWords

/-!
# The literal of a `tag=`

A `DELETE` goes by the literal of the first `tag=` in lower case behind its `WHERE`. If any of
them, in whatever case, has a literal with something in it, then the same letters in another case
have another tag, with the literal of the first one as it is.
-/

namespace MiniTSDB
namespace Sql

open Lib

/-! ## Letters in lower case -/

def isLowerCase (c : UInt8) : Bool := 97 ≤ c && c ≤ 122

theorem isLowerCase_upperChar (c : UInt8) : isLowerCase (upperChar c) = false := by
  unfold upperChar
  split
  case isTrue h => grind [isLowerCase]
  case isFalse h => simpa [isLowerCase] using h

theorem countP_toUpper (s : Bytes) : (toUpper s).countP isLowerCase = 0 := by
  rw [List.countP_eq_zero]
  intro c hc
  obtain ⟨d, -, rfl⟩ := List.mem_map.mp hc
  rw [isLowerCase_upperChar]
  decide

/-- A quoted value has the lower case letters of the text that it takes. -/
theorem countP_quotedRest {q : UInt8} (hq : isLowerCase q = false) (s : Bytes) :
    (quotedRest q s).1.countP isLowerCase
      = (s.take (quotedRest q s).2).countP isLowerCase := by
  induction s using quotedRest.induct q with
  | case1 => rfl
  | case2 => simp [quotedRest, hq]
  | case3 rest value n heq ih =>
    rw [heq] at ih
    simp only [quotedRest, if_true, heq, List.take_succ_cons, List.countP_cons, ih, hq]
    rfl
  | case4 c rest hne => simp [quotedRest, hne, hq]
  | case5 c rest hne value n heq ih =>
    rw [heq] at ih
    rw [quotedRest.eq_def]
    simp only [if_neg hne, heq, List.take_succ_cons, List.countP_cons, ih]

/-- A quoted value does not depend on the case of what is behind it. -/
theorem quotedRest_upperBehind {q : UInt8} (hq : isLetter q = false) (s : Bytes) :
    (quotedRest q (s.take (quotedRest q s).2 ++ toUpper (s.drop (quotedRest q s).2))).1
      = (quotedRest q s).1 := by
  induction s using quotedRest.induct q with
  | case1 => rfl
  | case2 => simp [quotedRest, toUpper]
  | case3 rest value n heq ih =>
    rw [heq] at ih
    simp only [quotedRest, if_true, heq, List.take_succ_cons, List.drop_succ_cons, List.cons_append,
      ih]
  | case4 c rest hne =>
    have hne' : ¬ upperChar c = q := mt (upperChar_eq_iff hq).mp hne
    simp [quotedRest, hne, hne', toUpper_cons]
  | case5 c rest hne value n heq ih =>
    rw [heq] at ih
    rw [quotedRest.eq_def q (c :: rest)]
    simp only [if_neg hne, heq, List.take_succ_cons, List.drop_succ_cons, List.cons_append]
    rw [quotedRest.eq_def]
    simp only [if_neg hne, ih]

/-! ## The literal in front of a text -/

/-- What `SkipWhitespace` passes over. -/
def isGap (c : UInt8) : Bool := isBlank c || c = comma

theorem isLowerCase_of_isGap {c : UInt8} (h : isGap c = true) : isLowerCase c = false := by
  simp only [isGap, isBlank, Bool.or_eq_true, decide_eq_true_eq] at h
  rcases h with (((rfl | rfl) | rfl) | rfl) | rfl <;> rfl

def literalAtFront (text : Bytes) : Bytes :=
  match text.dropWhile isGap with
  | [] => []
  | c :: rest => if c = quote then (quotedRest quote rest).1 else []

theorem tagLiteral_ok {s : Bytes} {pos : Nat} (h : pos ≤ s.length) :
    tagLiteral s pos = .ok (literalAtFront (s.drop pos)) := by
  have hdrop : s.drop (skipWhitespace s pos) = (s.drop pos).dropWhile isGap := by
    simp only [skipWhitespace, drop_skipUntil, Bool.not_not]
    rfl
  rw [tagLiteral, charAt_ok (skipWhitespace_le h), extractQuoted, literalAtFront, hdrop]
  rw [List.getD_eq_getElem?_getD, ← List.head?_drop, hdrop]
  cases (s.drop pos).dropWhile isGap with
  | nil => rfl
  | cons c rest =>
    show Except.ok (if c = quote then _ else _) = Except.ok (if c = quote then _ else _)
    by_cases hc : c = quote
    · subst hc
      rfl
    · rw [if_neg hc, if_neg hc]

theorem countP_literalAtFront (text : Bytes) :
    (literalAtFront text).countP isLowerCase ≤ text.countP isLowerCase := by
  have hrest : (text.dropWhile isGap).countP isLowerCase ≤ text.countP isLowerCase :=
    (List.dropWhile_sublist _).countP_le
  unfold literalAtFront
  cases hdrop : text.dropWhile isGap with
  | nil => exact Nat.zero_le _
  | cons c rest =>
    rw [hdrop, List.countP_cons] at hrest
    dsimp only
    split
    · rw [countP_quotedRest (by decide)]
      have htake : (rest.take (quotedRest quote rest).2).countP isLowerCase
          ≤ rest.countP isLowerCase := (List.take_sublist _ _).countP_le
      omega
    · exact Nat.zero_le _

/-- The same letters, with the literal as it is and nothing else in lower case. -/
theorem exists_upperBehind {text : Bytes} (h : literalAtFront text ≠ []) :
    ∃ text', SameLetters text text' ∧ literalAtFront text' = literalAtFront text ∧
      text'.countP isLowerCase = (literalAtFront text).countP isLowerCase := by
  have hsplit := List.takeWhile_append_dropWhile (p := isGap) (l := text)
  unfold literalAtFront at h ⊢
  cases hdrop : text.dropWhile isGap with
  | nil =>
    rw [hdrop] at h
    exact absurd rfl h
  | cons c rest =>
    rw [hdrop] at h hsplit
    by_cases hc : c = quote
    · subst hc
      have hgap : ∀ c ∈ text.takeWhile isGap, isGap c = true := fun c hc => List.mem_takeWhile_imp hc
      generalize text.takeWhile isGap = gap at hsplit hgap
      refine ⟨gap ++ quote :: (rest.take (quotedRest quote rest).2
        ++ toUpper (rest.drop (quotedRest quote rest).2)), ?_, ?_, ?_⟩
      · rw [← hsplit]
        apply (SameLetters.refl gap).append
        show toUpper _ = toUpper _
        rw [toUpper_cons, toUpper_cons, toUpper_append, toUpper_toUpper, ← toUpper_append,
          List.take_append_drop]
      · rw [List.dropWhile_append_of_pos hgap, List.dropWhile_cons_of_neg (by decide)]
        show (quotedRest quote _).1 = (quotedRest quote rest).1
        exact quotedRest_upperBehind rfl rest
      · have hnone : gap.countP isLowerCase = 0 := by
          rw [List.countP_eq_zero]
          intro c hc
          rw [isLowerCase_of_isGap (hgap c hc)]
          decide
        show List.countP isLowerCase _ = List.countP isLowerCase (quotedRest quote rest).1
        rw [countP_quotedRest (by decide), List.countP_append, List.countP_cons, List.countP_append,
          countP_toUpper, hnone, Nat.zero_add]
        rfl
    · dsimp only at h
      rw [if_neg hc] at h
      exact absurd rfl h

/-! ## Another case, another tag -/

section

variable {s : Bytes} {pos i : Nat}

theorem WordAt.findKeyword {word : Bytes} (h : WordAt s word i) : findKeyword s word i = some i := by
  rw [Sql.findKeyword, findFrom, find_at_front h, Option.map_some, Nat.zero_add]

theorem WordAt.of_findKeyword {word : Bytes} (h : Sql.findKeyword s word pos = some i) :
    WordAt s word i := by
  obtain ⟨j, hj, rfl⟩ := Option.map_eq_some_iff.mp h
  have hat := (find_eq_some hj).1
  rwa [List.drop_drop, Nat.add_comm] at hat

theorem findKeyword_le {word : Bytes} {j k : Nat} (h : findKeyword s word pos = some j)
    (hk : pos ≤ k) (hword : WordAt s word k) : j ≤ k := by
  obtain ⟨n, hn, rfl⟩ := Option.map_eq_some_iff.mp h
  have hle := find_le hn (j := k - pos) (by
    rw [List.drop_drop, Nat.add_sub_cancel' hk]
    exact hword)
  omega

theorem exists_findKeyword_of_word {word : Bytes} {k : Nat} (hk : pos ≤ k) (hword : WordAt s word k) :
    ∃ j, Sql.findKeyword s word pos = some j := exists_findFrom hk hword

/-- The text in upper case behind the one place as far as the other. -/
def upperBetween (s : Bytes) (i k : Nat) : Bytes :=
  s.take i ++ (toUpper ((s.drop i).take (k - i)) ++ s.drop k)

theorem upperBetween_sameLetters {k : Nat} (h : i ≤ k) : SameLetters s (upperBetween s i k) := by
  have hsplit : s = s.take i ++ ((s.drop i).take (k - i) ++ s.drop k) := by
    have hdrop : s.drop k = (s.drop i).drop (k - i) := by
      rw [List.drop_drop, Nat.add_sub_cancel' h]
    rw [hdrop, List.take_append_drop, List.take_append_drop]
  nth_rewrite 1 [hsplit]
  have hmiddle : SameLetters ((s.drop i).take (k - i)) (toUpper ((s.drop i).take (k - i))) :=
    toUpper_toUpper _
  exact (SameLetters.refl _).append (hmiddle.append (.refl _))

theorem take_upperBetween {k : Nat} (hpos : pos ≤ i) (hi : i ≤ s.length) :
    (upperBetween s i k).take pos = s.take pos := by
  rw [upperBetween, List.take_append_of_le_length (by rw [List.length_take_of_le hi]; exact hpos),
    List.take_take, Nat.min_eq_left hpos]

theorem take_putAt {word : Bytes} (hpos : pos ≤ i) (hi : i ≤ s.length) :
    (putAt s i word).take pos = s.take pos := by
  rw [putAt, List.take_append_of_le_length (by rw [List.length_take_of_le hi]; exact hpos),
    List.take_take, Nat.min_eq_left hpos]

/-- In upper case nothing starts in lower case. -/
theorem getElem?_upperBetween {j k : Nat} {c : UInt8} (hij : i ≤ j) (hjk : j < k)
    (hk : k ≤ s.length) (hc : isLowerCase c = true) : (upperBetween s i k)[j]? ≠ some c := by
  intro h
  have hfront : (s.take i).length = i := List.length_take_of_le (by omega)
  have hmiddle : (toUpper ((s.drop i).take (k - i))).length = k - i := by
    rw [length_toUpper, List.length_take, List.length_drop]
    omega
  rw [upperBetween, List.getElem?_append_right (by omega), hfront,
    List.getElem?_append_left (by omega)] at h
  obtain ⟨d, -, rfl⟩ := List.mem_map.mp (List.mem_of_getElem? h)
  rw [isLowerCase_upperChar] at hc
  cases hc

/-- With no literal behind the first `tag=` and one behind another, the tag is that of the other
where everything in front of it is in upper case. -/
theorem exists_tag_of_empty {k : Nat} (hi : findKeyword s (ascii "tag=") pos = some i)
    (hempty : tagLiteral s (i + 4) = .ok []) (hk : pos ≤ k) (hword : WordAt s (ascii "tag=") k)
    (hliteral : tagLiteral s (k + 4) ≠ .ok []) :
    ∃ t, SameLetters s t ∧ t.take pos = s.take pos ∧ tagLiteral t (i + 4) = .ok [] ∧
      tagFilterFrom t pos ≠ .ok [] := by
  have hik : i ≤ k := findKeyword_le hi hk hword
  have hposi : pos ≤ i := (findKeyword_eq_some (by decide) hi).1
  have hlen : k + 4 ≤ s.length := (findKeyword_eq_some (by decide) hword.findKeyword).2
  have hu : SameLetters s (upperBetween s i k) := upperBetween_sameLetters hik
  have hkey := (hword.sameLetters hu).findKeyword
  have ht : SameLetters (upperBetween s i k) (putAt (upperBetween s i k) k (ascii "tag=")) :=
    putAt_sameLetters hkey rfl
  have hlenu : (upperBetween s i k).length = s.length := hu.length
  refine ⟨putAt (upperBetween s i k) k (ascii "tag="), hu.trans ht, ?_, ?_, ?_⟩
  · rw [take_putAt hk (by omega), take_upperBetween hposi (by omega)]
  · exact tagLiteral_eq_nil (hu.trans ht) hempty
  · -- the first one that is in lower case is at the place
    have hfound : findFrom (putAt (upperBetween s i k) k (ascii "tag=")) (ascii "tag=") pos
        = some k := by
      have hat : ascii "tag=" <+: (putAt (upperBetween s i k) k (ascii "tag=")).drop k := by
        rw [drop_putAt (by omega) (Nat.le_refl k), Nat.sub_self, List.take_zero, List.nil_append]
        exact List.prefix_append _ _
      -- the place `j` it is found at is not behind `k`, and an earlier one would be in upper case
      obtain ⟨j, hj⟩ := exists_findFrom hk hat
      have hij := le_of_findFrom (hu.trans ht) hi hj
      obtain ⟨n, hn, rfl⟩ := Option.map_eq_some_iff.mp hj
      have hle : n ≤ k - pos := find_le hn (by
        rw [List.drop_drop, Nat.add_sub_cancel' hk]
        exact hat)
      have hfront := (find_eq_some hn).1
      rw [List.drop_drop, Nat.add_comm] at hfront
      by_cases hlt : n + pos < k
      · have hletter : (putAt (upperBetween s i k) k (ascii "tag="))[n + pos]? = some 116 := by
          rw [← List.head?_drop]
          obtain ⟨rest, hrest⟩ := hfront
          rw [← hrest]
          rfl
        rw [putAt, List.getElem?_append_left (by rw [List.length_take]; omega),
          List.getElem?_take_of_lt hlt] at hletter
        exact absurd hletter (getElem?_upperBetween hij hlt (by omega) rfl)
      · rw [hj]
        congr 1
        omega
    rw [tagFilterFrom_eq hfound]
    have hbehind : (putAt (upperBetween s i k) k (ascii "tag=")).drop (k + 4) = s.drop (k + 4) := by
      have hput : (putAt (upperBetween s i k) k (ascii "tag=")).drop (k + 4)
          = (upperBetween s i k).drop (k + 4) :=
        drop_putAt_behind (by omega) (Nat.le_refl _)
      have hfront : (s.take i ++ toUpper ((s.drop i).take (k - i))).length = k := by
        rw [List.length_append, List.length_take_of_le (by omega), length_toUpper, List.length_take,
          List.length_drop]
        omega
      rw [hput, ← List.drop_drop, upperBetween, ← List.append_assoc, List.drop_left' hfront,
        List.drop_drop]
    rw [tagLiteral_congr (hu.trans ht).length hbehind]
    exact hliteral

/-- With a literal behind the first `tag=`, in upper case and with upper case behind the literal
there is no tag like it. -/
theorem exists_tag_of_literal {l : Bytes} (hi : findKeyword s (ascii "tag=") pos = some i)
    (hl : tagLiteral s (i + 4) = .ok l) (hne : l ≠ []) :
    ∃ t, SameLetters s t ∧ t.take pos = s.take pos ∧ tagLiteral t (i + 4) = .ok l ∧
      tagFilterFrom t pos ≠ .ok l := by
  obtain ⟨hpos, hlen⟩ := findKeyword_eq_some (by decide) hi
  have hword : (ascii "tag=").length = 4 := rfl
  rw [hword] at hlen
  rw [tagLiteral_ok hlen] at hl
  cases hl
  -- `u` is the text with upper case behind the literal
  obtain ⟨behind, hbehind, hliteral, hcount⟩ := exists_upperBehind hne
  have hu : SameLetters s (s.take (i + 4) ++ behind) := by
    nth_rewrite 1 [← List.take_append_drop (i + 4) s]
    exact (SameLetters.refl _).append hbehind
  have hfront : (s.take (i + 4)).length = i + 4 := List.length_take_of_le hlen
  have hdrop : (s.take (i + 4) ++ behind).drop (i + 4) = behind := List.drop_left' hfront
  have htake : (s.take (i + 4) ++ behind).take pos = s.take pos := by
    rw [List.take_append_of_le_length (by omega), List.take_take, Nat.min_eq_left (by omega)]
  have hlenu := hu.length
  generalize s.take (i + 4) ++ behind = u at hu hdrop htake hlenu
  have hkey : findKeyword u (ascii "tag=") pos = some i := by rw [hu.findKeyword, hi]
  have ht : SameLetters u (putAt u i (ascii "TAG=")) := putAt_sameLetters hkey letters_tag
  refine ⟨putAt u i (ascii "TAG="), hu.trans ht, ?_, ?_, ?_⟩
  · rw [take_putAt hpos (by omega), htake]
  · have hput : (putAt u i (ascii "TAG=")).drop (i + 4) = u.drop (i + 4) :=
      drop_putAt_behind (by omega) (Nat.le_refl _)
    rw [tagLiteral_congr ht.length hput, tagLiteral_ok (by omega), hdrop, hliteral]
  · rw [tagFilterFrom_putAt_upper hkey]
    intro hfilter
    cases hfind : findFrom u (ascii "tag=") (i + 4) with
    | none =>
      rw [tagFilterFrom, hfind] at hfilter
      exact hne (Except.ok.inj hfilter).symm
    | some j =>
      obtain ⟨hij, hjlen⟩ := findFrom_eq_some (by decide) hfind
      rw [hword] at hjlen
      rw [tagFilterFrom_eq hfind, tagLiteral_ok hjlen] at hfilter
      -- it would have the letters in lower case of all that is behind the first `tag=`, but the
      -- `tag=` in front of it has some
      have hcounts : (u.drop (j + 4)).countP isLowerCase + 3 ≤ behind.countP isLowerCase := by
        obtain ⟨n, hn, rfl⟩ := Option.map_eq_some_iff.mp hfind
        obtain ⟨rest, hrest⟩ := (find_eq_some hn).1
        have hsub : ((u.drop (i + 4)).drop n).countP isLowerCase ≤ behind.countP isLowerCase := by
          rw [hdrop]
          exact (List.drop_sublist _ _).countP_le
        have hafter : u.drop (n + (i + 4) + 4) = rest := by
          have hsame : u.drop (n + (i + 4) + 4) = ((u.drop (i + 4)).drop n).drop 4 := by
            rw [List.drop_drop, List.drop_drop]
            congr 1
            omega
          rw [hsame, ← hrest]
          exact List.drop_left' hword
        rw [← hrest, List.countP_append] at hsub
        have hthree : (ascii "tag=").countP isLowerCase = 3 := by decide
        rw [hafter]
        omega
      have hat := countP_literalAtFront (u.drop (j + 4))
      rw [Except.ok.inj hfilter, ← hcount] at hat
      omega

/-- **If any `tag=` has a literal, the letters in another case have another tag.** -/
theorem exists_other_tag (h : ¬ NoTagLiteral s pos) :
    ∃ i l t, findKeyword s (ascii "tag=") pos = some i ∧ tagLiteral s (i + 4) = .ok l ∧
      SameLetters s t ∧ t.take pos = s.take pos ∧ tagLiteral t (i + 4) = .ok l ∧
        tagFilterFrom t pos ≠ .ok l := by
  unfold NoTagLiteral at h
  push Not at h
  obtain ⟨k, hk, hword, hliteral⟩ := h
  obtain ⟨i, hi⟩ := exists_findKeyword_of_word hk hword
  have hlen : i + 4 ≤ s.length := (findKeyword_eq_some (by decide) hi).2
  have hl := tagLiteral_ok hlen
  by_cases hempty : literalAtFront (s.drop (i + 4)) = []
  · rw [hempty] at hl
    obtain ⟨t, ht⟩ := exists_tag_of_empty hi hl hk hword hliteral
    exact ⟨i, [], t, hi, hl, ht⟩
  · obtain ⟨t, ht⟩ := exists_tag_of_literal hi hl hempty
    exact ⟨i, _, t, hi, hl, ht⟩

end

end Sql
end MiniTSDB
