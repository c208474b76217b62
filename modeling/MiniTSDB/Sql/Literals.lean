import MiniTSDB.Lib.Returns
import MiniTSDB.Sql.Parser

/-!
# Literals

A string with its quotes doubled is read back as it was. What a condition takes for a value is a
part of its text, so a letter that the conditions of a clause do not have is not in the values
either: that is how a value is seen to have lost something (`whereConditions_weighs`).
-/

namespace MiniTSDB
namespace Sql

open Lib

/-! ## Doubled quotes -/

/-- The string with its quotes doubled. -/
def doubleQuotes (x : Bytes) : Bytes := x.flatMap fun c => if c = quote then [quote, quote] else [c]

theorem doubleQuotes_quote (x : Bytes) :
    doubleQuotes (quote :: x) = quote :: quote :: doubleQuotes x := rfl

theorem doubleQuotes_cons {c : UInt8} (h : c ≠ quote) (x : Bytes) :
    doubleQuotes (c :: x) = c :: doubleQuotes x := by
  rw [doubleQuotes, List.flatMap_cons, if_neg h]
  rfl

/-- A literal without quotes is written as it is. -/
theorem doubleQuotes_eq {x : Bytes} (h : quote ∉ x) : doubleQuotes x = x := by
  induction x with
  | nil => rfl
  | cons c x ih =>
    rw [List.mem_cons, not_or] at h
    rw [doubleQuotes_cons (Ne.symm h.1), ih h.2]

/-- **What is written with doubled quotes is read back.** -/
theorem quotedRest_doubleQuotes (x : Bytes) {after : Bytes} (h : after.head? ≠ some quote) :
    quotedRest quote (doubleQuotes x ++ quote :: after) = (x, (doubleQuotes x).length + 1) := by
  induction x with
  | nil =>
    cases after with
    | nil => rfl
    | cons c after =>
      have hne : c ≠ quote := by
        intro hc
        exact h (by rw [hc]; rfl)
      change quotedRest quote (quote :: c :: after) = ([], 1)
      simp only [quotedRest, if_true, if_neg hne]
  | cons c x ih =>
    by_cases hc : c = quote
    · subst hc
      rw [doubleQuotes_quote, List.cons_append, List.cons_append]
      simp only [quotedRest, if_true, ih, List.length_cons]
    · rw [doubleQuotes_cons hc, List.cons_append, quotedRest.eq_def]
      simp only [if_neg hc, ih, List.length_cons]

theorem extractQuoted_doubleQuotes (x : Bytes) {after : Bytes} (h : after.head? ≠ some quote) :
    extractQuoted (quote :: (doubleQuotes x ++ quote :: after)) 0
      = (x, (doubleQuotes x).length + 2) := by
  rw [extractQuoted, List.drop_zero]
  simp only [quotedRest_doubleQuotes x h]
  rw [if_pos (by decide)]
  congr 1
  omega

theorem prefix_doubleQuotes_iff {kw : Bytes} (hkw : quote ∉ kw) (x : Bytes) :
    kw <+: toUpper (doubleQuotes x) ↔ kw <+: toUpper x := by
  induction x generalizing kw with
  | nil => rfl
  | cons c x ih =>
    cases kw with
    | nil => simp
    | cons k kw =>
      rw [List.mem_cons, not_or] at hkw
      by_cases hc : c = quote
      · subst hc
        have hk : k ≠ upperChar quote := fun h => hkw.1 h.symm
        rw [doubleQuotes_quote, toUpper_cons, toUpper_cons, toUpper_cons, List.cons_prefix_cons,
          List.cons_prefix_cons]
        simp only [hk, false_and]
      · rw [doubleQuotes_cons hc, toUpper_cons, toUpper_cons, List.cons_prefix_cons,
          List.cons_prefix_cons, ih hkw.2]

/-- Doubling the quotes neither makes nor breaks a keyword. -/
theorem infix_doubleQuotes_iff {kw : Bytes} (hne : kw ≠ []) (hkw : quote ∉ kw) (x : Bytes) :
    kw <:+: toUpper (doubleQuotes x) ↔ kw <:+: toUpper x := by
  induction x with
  | nil => rfl
  | cons c x ih =>
    have hfront := prefix_doubleQuotes_iff hkw (c :: x)
    by_cases hc : c = quote
    · subst hc
      have hnot : ∀ s : Bytes, ¬ kw <+: quote :: s := by
        intro s hs
        cases kw with
        | nil => exact hne rfl
        | cons k kw =>
          rw [List.cons_prefix_cons] at hs
          exact hkw (hs.1 ▸ List.mem_cons_self)
      have hupper : upperChar quote = quote := rfl
      rw [doubleQuotes_quote, toUpper_cons, toUpper_cons, toUpper_cons, hupper,
        List.infix_cons_iff, List.infix_cons_iff, List.infix_cons_iff, ih]
      simp [hnot]
    · rw [doubleQuotes_cons hc] at hfront ⊢
      rw [toUpper_cons, toUpper_cons, List.infix_cons_iff, List.infix_cons_iff, ih]
      rw [toUpper_cons, toUpper_cons] at hfront
      rw [hfront]

theorem mem_doubleQuotes_iff {c : UInt8} {x : Bytes} : c ∈ doubleQuotes x ↔ c ∈ x := by
  rw [doubleQuotes, List.mem_flatMap]
  constructor
  · intro ⟨a, ha, hc⟩
    split at hc
    case isTrue hq =>
      simp only [List.mem_cons, List.not_mem_nil, or_false, or_self] at hc
      rw [hc, ← hq]
      exact ha
    case isFalse =>
      rw [List.mem_singleton.mp hc]
      exact ha
  · intro hc
    refine ⟨c, hc, ?_⟩
    split
    case isTrue hq => simp [hq]
    case isFalse => exact List.mem_singleton_self c

/-! ## How often a letter occurs -/

/-- How often the letter occurs, in either case. -/
def weight (k : UInt8) (s : Bytes) : Nat := (toUpper s).count k

theorem weight_append (k : UInt8) (s t : Bytes) : weight k (s ++ t) = weight k s + weight k t := by
  rw [weight, toUpper_append, List.count_append]
  rfl

theorem weight_le_of_sublist {k : UInt8} {s t : Bytes} (h : s.Sublist t) :
    weight k s ≤ weight k t := (h.map upperChar).count_le k

theorem weight_doubleQuotes {k : UInt8} (hk : k ≠ quote) (x : Bytes) :
    weight k (doubleQuotes x) = weight k x := by
  induction x with
  | nil => rfl
  | cons c x ih =>
    rw [weight, weight] at ih ⊢
    by_cases hc : c = quote
    · subst hc
      have hupper : upperChar quote = quote := rfl
      rw [doubleQuotes_quote, toUpper_cons, toUpper_cons, toUpper_cons, hupper,
        List.count_cons_of_ne hk.symm, List.count_cons_of_ne hk.symm,
        List.count_cons_of_ne hk.symm, ih]
    · rw [doubleQuotes_cons hc, toUpper_cons, toUpper_cons, List.count_cons, List.count_cons, ih]

/-- A keyword takes its letters with it. -/
theorem weight_lt_of_cut {k : UInt8} {kw s : Bytes} {i : Nat} (hk : k ∈ kw)
    (h : kw <+: (toUpper s).drop i) :
    weight k (s.take i) + weight k (s.drop (i + kw.length)) < weight k s := by
  have hsplit : weight k s = weight k (s.take i) + weight k (s.drop i) := by
    rw [← weight_append, List.take_append_drop]
  have hdrop : (toUpper s).drop i = kw ++ (toUpper s).drop (i + kw.length) := by
    rw [← List.drop_drop]
    exact (List.prefix_iff_eq_append.mp h).symm
  have hrest : weight k (s.drop i) = kw.count k + weight k (s.drop (i + kw.length)) := by
    rw [weight, weight, toUpper, toUpper, List.map_drop, List.map_drop]
    change ((toUpper s).drop i).count k = kw.count k + ((toUpper s).drop (i + kw.length)).count k
    rw [hdrop, List.count_append]
  have hpos : 0 < kw.count k := List.count_pos_iff.mpr hk
  omega

/-! ## What a condition takes for a value -/

theorem quotedRest_sublist (q : UInt8) (s : Bytes) : (quotedRest q s).1.Sublist s := by
  induction s using quotedRest.induct q with
  | case1 => exact List.Sublist.refl _
  | case2 => simp [quotedRest]
  | case3 rest value n heq ih =>
    simp only [quotedRest, if_true]
    exact (ih.cons _).cons_cons _
  | case4 c' rest hne => simp [quotedRest, hne]
  | case5 c rest hne value n heq ih =>
    rw [quotedRest.eq_def]
    simp only [if_neg hne]
    exact ih.cons_cons _

theorem unquote_sublist (val : Bytes) : (unquote val).Sublist val := by
  rw [unquote]
  split
  case isFalse => exact List.Sublist.refl _
  case isTrue h =>
    cases val with
    | nil => cases h
    | cons q rest =>
      rw [List.head?_cons, Option.any_some] at h
      have hquoted : (extractQuoted (q :: rest) 0).1 = (quotedRest q rest).1 := by
        rw [extractQuoted_eq (q := q) rfl h, Nat.zero_add, List.drop_one, List.tail_cons]
      rw [hquoted]
      exact (quotedRest_sublist q rest).cons q

/-- Neither value has the letter more than so often. -/
structure WhereClause.Weighs (k : UInt8) (m : Nat) (w : WhereClause) : Prop where
  filter : weight k w.tagFilter ≤ m
  pattern : weight k w.tagPattern ≤ m

theorem weighs_default (k : UInt8) (m : Nat) : WhereClause.Weighs k m {} :=
  ⟨Nat.zero_le _, Nat.zero_le _⟩

theorem fieldAndValue_sublist {clause : Bytes} {pos len : Nat} {r : Bytes × Bytes}
    (h : fieldAndValue clause pos len = .ok r) : r.2.Sublist clause := by
  rw [fieldAndValue] at h
  obtain ⟨field, -, h⟩ := bind_eq_ok h
  obtain ⟨rest, hrest, h⟩ := bind_eq_ok h
  cases h
  rw [substr] at hrest
  split at hrest
  case isFalse => cases hrest
  case isTrue =>
    cases hrest
    exact ((unquote_sublist _).trans (trim_sublist _)).trans (List.drop_sublist _ _)

/-- What `BETWEEN` sets is the interval. -/
theorem withBetween_eq (conv : Conversions) (w : WhereClause) (clause : Bytes) :
    (withBetween conv w clause).tagFilter = w.tagFilter ∧
      (withBetween conv w clause).tagPattern = w.tagPattern := by
  rw [withBetween]
  split
  · exact ⟨rfl, rfl⟩
  · exact ⟨rfl, rfl⟩

theorem parseWhereCondition_weighs {conv : Conversions} {w w' : WhereClause} {clause : Bytes}
    {k : UInt8} {m : Nat} (h : parseWhereCondition conv w clause = .ok w')
    (hw : w.Weighs k m) (hclause : weight k clause ≤ m) : w'.Weighs k m := by
  have hvalue : ∀ {pos len : Nat} {r : Bytes × Bytes}, fieldAndValue clause pos len = .ok r →
      weight k r.2 ≤ m := by
    intro pos len r hr
    exact Nat.le_trans (weight_le_of_sublist (fieldAndValue_sublist hr)) hclause
  obtain ⟨hfilter, hpattern⟩ := withBetween_eq conv w clause
  have hbetween : (withBetween conv w clause).Weighs k m := by
    constructor
    · rw [hfilter]
      exact hw.filter
    · rw [hpattern]
      exact hw.pattern
  rw [parseWhereCondition] at h
  dsimp only at h
  split at h
  case h_1 =>
    obtain ⟨r, hr, h⟩ := bind_eq_ok h
    cases h
    split
    · exact ⟨hvalue hr, hbetween.pattern⟩
    · exact hbetween
  case h_2 =>
    obtain ⟨r, hr, h⟩ := bind_eq_ok h
    cases h
    split
    · exact ⟨hbetween.filter, hvalue hr⟩
    · exact hbetween
  case h_3 =>
    cases h
    exact hbetween

/-- **The letters of the values are letters of the clause.** -/
theorem whereConditions_weighs {conv : Conversions} {clause : Bytes} {fuel andP : Nat}
    {w w' : WhereClause} {k : UInt8} {m : Nat}
    (h : whereConditions conv clause fuel andP w = .ok w') (hw : w.Weighs k m)
    (hclause : weight k (clause.drop andP) ≤ m) : w'.Weighs k m := by
  induction fuel generalizing andP w with
  | zero => cases h
  | succ fuel ih =>
    rw [whereConditions_succ] at h
    by_cases hlt : andP < clause.length
    · rw [if_pos hlt] at h
      cases hand : findKeyword clause (ascii "AND") andP with
      | none =>
        rw [hand] at h
        obtain ⟨cond, hcond, h⟩ := bind_eq_ok h
        rw [substr_ok hlt.le] at hcond
        cases hcond
        obtain ⟨w₁, hw₁, h⟩ := bind_eq_ok h
        have hpart := weight_le_of_sublist (k := k) (trim_sublist (clause.drop andP))
        refine ih h (parseWhereCondition_weighs hw₁ hw (Nat.le_trans hpart hclause)) ?_
        rw [List.drop_length]
        exact Nat.zero_le _
      | some nextAnd =>
        rw [hand] at h
        have hnext := findKeyword_eq_some (by decide) hand
        obtain ⟨cond, hcond, h⟩ := bind_eq_ok h
        rw [substrTo_ok hlt.le, if_pos hnext.1] at hcond
        cases hcond
        obtain ⟨w₁, hw₁, h⟩ := bind_eq_ok h
        have hpart := weight_le_of_sublist (k := k) ((trim_sublist _).trans
          (List.take_sublist (nextAnd - andP) (clause.drop andP)))
        refine ih h (parseWhereCondition_weighs hw₁ hw (Nat.le_trans hpart hclause)) ?_
        refine Nat.le_trans (weight_le_of_sublist ?_) hclause
        have hdrop : clause.drop (nextAnd + 3) = (clause.drop andP).drop (nextAnd + 3 - andP) := by
          rw [List.drop_drop]
          congr 1
          omega
        rw [hdrop]
        exact List.drop_sublist _ _
    · rw [if_neg hlt] at h
      cases h
      exact hw

/-- **A clause with an `AND` in it is not one condition**: the `N` is in no value. -/
theorem whereConditions_and {conv : Conversions} {clause : Bytes} {fuel : Nat}
    {w w' : WhereClause} {m : Nat} (h : whereConditions conv clause fuel 0 w = .ok w')
    (hand : ascii "AND" <:+: toUpper clause) (hw : w.Weighs 78 m)
    (hclause : weight 78 clause ≤ m + 1) : w'.Weighs 78 m := by
  obtain ⟨i, hi⟩ := exists_find hand
  obtain ⟨hat, hlen⟩ := find_eq_some hi
  have hloss := weight_lt_of_cut (k := 78) (by decide) hat
  rw [length_toUpper] at hlen
  have hand' : findKeyword clause (ascii "AND") 0 = some i := by
    rw [findKeyword, findFrom, List.drop_zero]
    exact (congrArg (Option.map (· + 0)) hi)
  cases fuel with
  | zero => cases h
  | succ fuel =>
    have hlong : 3 ≤ clause.length := Nat.le_trans (Nat.le_add_left 3 i) hlen
    have hlt : 0 < clause.length := Nat.lt_of_lt_of_le (by decide) hlong
    rw [whereConditions_succ, if_pos hlt, hand'] at h
    obtain ⟨cond, hcond, h⟩ := bind_eq_ok h
    rw [substrTo_ok hlt.le, if_pos (Nat.zero_le _)] at hcond
    cases hcond
    obtain ⟨w₁, hw₁, h⟩ := bind_eq_ok h
    rw [List.drop_zero, Nat.sub_zero] at hw₁
    have hpart := weight_le_of_sublist (k := 78) (trim_sublist (clause.take i))
    have hfirst : weight 78 (trim (clause.take i)) ≤ m := by omega
    have hrest : weight 78 (clause.drop (i + 3)) ≤ m := by
      change weight 78 (clause.drop (i + (ascii "AND").length)) ≤ m
      omega
    exact whereConditions_weighs h (parseWhereCondition_weighs hw₁ hw hfirst) hrest

/-- A clause without one is. -/
theorem whereConditions_single {conv : Conversions} {clause : Bytes} {fuel : Nat}
    {w : WhereClause} (hand : ¬ ascii "AND" <:+: toUpper clause) (htight : Tight clause)
    (hne : clause ≠ []) :
    whereConditions conv clause (fuel + 1) 0 w = (do
      let w ← parseWhereCondition conv w clause
      whereConditions conv clause fuel clause.length w) := by
  have hand' : findKeyword clause (ascii "AND") 0 = none := by
    rw [findKeyword, findFrom, List.drop_zero, Option.map_eq_none_iff]
    exact find_eq_none_iff.mpr hand
  have hlt : 0 < clause.length := List.length_pos_iff.mpr hne
  rw [whereConditions_succ, if_pos hlt, hand', substr_ok hlt.le, List.drop_zero]
  change (do
    let w ← parseWhereCondition conv w (trim clause)
    whereConditions conv clause fuel clause.length w) = _
  rw [trim_eq htight]

/-- Behind the last condition nothing is read. -/
theorem whereConditions_length (conv : Conversions) (clause : Bytes) (fuel : Nat)
    (w : WhereClause) : whereConditions conv clause (fuel + 1) clause.length w = .ok w := by
  rw [whereConditions_succ, if_neg (Nat.lt_irrefl _)]

end Sql
end MiniTSDB
