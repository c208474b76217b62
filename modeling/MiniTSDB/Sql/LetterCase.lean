import MiniTSDB.Lib.Related
import MiniTSDB.Sql.Parser

/-!
# Texts that differ in the case of their letters

Two such texts have the same keywords in the same places, and so has every piece of the one and
the same piece of the other. Every search of the parser that is in any case, and every search for
a character that is no letter, ends at the same place in both.
-/

namespace MiniTSDB
namespace Sql

open Lib

/-! ## Letters -/

def isLetter (c : UInt8) : Bool := (65 ≤ c && c ≤ 90) || (97 ≤ c && c ≤ 122)

theorem upperChar_upperChar (c : UInt8) : upperChar (upperChar c) = upperChar c := by
  grind [upperChar]

theorem lowerChar_upperChar (c : UInt8) : lowerChar (upperChar c) = lowerChar c := by
  grind [upperChar, lowerChar]

theorem lowerChar_lowerChar (c : UInt8) : lowerChar (lowerChar c) = lowerChar c := by
  grind [lowerChar]

theorem isLetter_upperChar (c : UInt8) : isLetter (upperChar c) = isLetter c := by
  grind [isLetter, upperChar]

theorem upperChar_of_not_isLetter {c : UInt8} : isLetter c = false → upperChar c = c := by
  grind [isLetter, upperChar]

/-- What is no letter is told from everything else in any case. -/
theorem upperChar_eq_iff {c d : UInt8} (hd : isLetter d = false) : upperChar c = d ↔ c = d := by
  constructor
  · intro h
    rw [← h, isLetter_upperChar] at hd
    rw [← h, upperChar_of_not_isLetter hd]
  · intro h
    rw [h, upperChar_of_not_isLetter hd]

theorem toUpper_toUpper (s : Bytes) : toUpper (toUpper s) = toUpper s := by
  rw [toUpper, toUpper, List.map_map]
  exact List.map_congr_left fun c _ => upperChar_upperChar c

theorem toLower_toUpper (s : Bytes) : toLower (toUpper s) = toLower s := by
  rw [toLower, toUpper, List.map_map]
  exact List.map_congr_left fun c _ => lowerChar_upperChar c

theorem toLower_toLower (s : Bytes) : toLower (toLower s) = toLower s := by
  rw [toLower, toLower, List.map_map]
  exact List.map_congr_left fun c _ => lowerChar_lowerChar c

/-! ## The parser's steps on a text in upper case -/

/-- A test that does not look at the case of letters. -/
def Caseless (p : UInt8 → Bool) : Prop := ∀ c, p (upperChar c) = p c

theorem caseless_eq {d : UInt8} (hd : isLetter d = false) : Caseless fun c => c = d := by
  intro c
  simp only [upperChar_eq_iff hd]

theorem Caseless.or {p q : UInt8 → Bool} (hp : Caseless p) (hq : Caseless q) :
    Caseless fun c => p c || q c := by
  intro c
  show (p (upperChar c) || q (upperChar c)) = (p c || q c)
  rw [hp c, hq c]

theorem Caseless.not {p : UInt8 → Bool} (hp : Caseless p) : Caseless fun c => !p c := by
  intro c
  show (!p (upperChar c)) = !p c
  rw [hp c]

theorem caseless_isQuote : Caseless isQuote :=
  (caseless_eq (d := quote) rfl).or (caseless_eq (d := dquote) rfl)

theorem caseless_isBlank : Caseless isBlank :=
  (((caseless_eq (d := space) rfl).or (caseless_eq (d := 9) rfl)).or (caseless_eq (d := 13) rfl)).or
    (caseless_eq (d := 10) rfl)

theorem takeWhile_toUpper {p : UInt8 → Bool} (hp : Caseless p) (s : Bytes) :
    (toUpper s).takeWhile p = toUpper (s.takeWhile p) := by
  have hcomp : p ∘ upperChar = p := funext hp
  rw [toUpper, List.takeWhile_map, hcomp, toUpper]

theorem dropWhile_toUpper {p : UInt8 → Bool} (hp : Caseless p) (s : Bytes) :
    (toUpper s).dropWhile p = toUpper (s.dropWhile p) := by
  have hcomp : p ∘ upperChar = p := funext hp
  rw [toUpper, List.dropWhile_map, hcomp, toUpper]

theorem drop_toUpper (s : Bytes) (n : Nat) : (toUpper s).drop n = toUpper (s.drop n) :=
  List.map_drop.symm

theorem reverse_toUpper (s : Bytes) : (toUpper s).reverse = toUpper s.reverse :=
  List.map_reverse.symm

theorem trim_toUpper (s : Bytes) : trim (toUpper s) = toUpper (trim s) := by
  simp only [trim, dropWhile_toUpper caseless_isBlank, reverse_toUpper]

theorem skipUntil_toUpper {stop : UInt8 → Bool} (hstop : Caseless stop) (s : Bytes) (pos : Nat) :
    skipUntil stop (toUpper s) pos = skipUntil stop s pos := by
  rw [skipUntil, skipUntil, drop_toUpper, takeWhile_toUpper hstop.not, length_toUpper]

theorem find_char_toUpper {d : UInt8} (hd : isLetter d = false) (s : Bytes) :
    find [d] (toUpper s) = find [d] s := by
  induction s with
  | nil => rfl
  | cons c s ih =>
    have hfront : [d].isPrefixOf (upperChar c :: toUpper s) = [d].isPrefixOf (c :: s) := by
      have hiff := upperChar_eq_iff (c := c) hd
      simp only [List.isPrefixOf, Bool.and_true]
      rw [Bool.eq_iff_iff, beq_iff_eq, beq_iff_eq, eq_comm, hiff, eq_comm]
    rw [toUpper_cons, find_cons, find_cons, hfront, ih]

theorem findChar_toUpper {d : UInt8} (hd : isLetter d = false) (s : Bytes) (pos : Nat) :
    findChar (toUpper s) d pos = findChar s d pos := by
  rw [findChar, findChar, findFrom, findFrom, drop_toUpper, find_char_toUpper hd]

theorem quotedRest_toUpper {q : UInt8} (hq : isLetter q = false) (s : Bytes) :
    quotedRest q (toUpper s) = (toUpper (quotedRest q s).1, (quotedRest q s).2) := by
  induction s using quotedRest.induct q with
  | case1 => rfl
  | case2 =>
    rw [toUpper_cons, (upperChar_eq_iff hq).mpr rfl]
    simp [quotedRest, toUpper]
  | case3 rest value n heq ih =>
    rw [toUpper_cons, toUpper_cons, (upperChar_eq_iff hq).mpr rfl]
    simp only [quotedRest, if_true, ih, toUpper_cons, (upperChar_eq_iff hq).mpr rfl]
  | case4 c rest hne =>
    have hne' : ¬ upperChar c = q := mt (upperChar_eq_iff hq).mp hne
    rw [toUpper_cons, toUpper_cons, (upperChar_eq_iff hq).mpr rfl]
    simp only [quotedRest, if_true, if_neg hne, if_neg hne']
    rfl
  | case5 c rest hne value n heq ih =>
    have hne' : ¬ upperChar c = q := mt (upperChar_eq_iff hq).mp hne
    rw [toUpper_cons, quotedRest.eq_def, quotedRest.eq_def]
    simp only [if_neg hne, if_neg hne', ih, toUpper_cons]

theorem extractQuoted_toUpper (s : Bytes) (pos : Nat) :
    extractQuoted (toUpper s) pos = (toUpper (extractQuoted s pos).1, (extractQuoted s pos).2) := by
  rw [extractQuoted, extractQuoted, drop_toUpper]
  cases s.drop pos with
  | nil => rfl
  | cons q rest =>
    rw [toUpper_cons]
    dsimp only
    rw [caseless_isQuote q]
    by_cases hquote : isQuote q = true
    · have hq : isLetter q = false := by
        simp only [isQuote, Bool.or_eq_true, decide_eq_true_eq] at hquote
        rcases hquote with rfl | rfl
        · rfl
        · rfl
      rw [if_pos hquote, if_pos hquote, (upperChar_eq_iff hq).mpr rfl, quotedRest_toUpper hq]
    · rw [if_neg hquote, if_neg hquote]
      rfl

theorem findFirstOf_toUpper {chars : Bytes} (hchars : Caseless fun c => chars.contains c)
    (s : Bytes) (pos : Nat) : findFirstOf (toUpper s) chars pos = findFirstOf s chars pos := by
  have hcomp : (fun c => chars.contains c) ∘ upperChar = fun c => chars.contains c := funext hchars
  rw [findFirstOf, findFirstOf, drop_toUpper, toUpper, List.findIdx?_map, hcomp]

/-! ## Two texts -/

/-- The one is the other with some letters in the other case. -/
def SameLetters (s s' : Bytes) : Prop := toUpper s' = toUpper s

namespace SameLetters

theorem refl (s : Bytes) : SameLetters s s := rfl

variable {s s' : Bytes}

theorem symm (hs : SameLetters s s') : SameLetters s' s := Eq.symm hs

theorem trans {s'' : Bytes} (hs : SameLetters s s') (hs' : SameLetters s' s'') :
    SameLetters s s'' := Eq.trans hs' hs

theorem length (hs : SameLetters s s') : s'.length = s.length := by
  rw [← length_toUpper s', hs, length_toUpper]

/-- What is the same for a text and for that text in upper case is the same for both texts. -/
theorem eq_of_toUpper {α : Type} {f : Bytes → α} (hs : SameLetters s s')
    (hf : ∀ s, f (toUpper s) = f s) : f s' = f s := by
  rw [← hf s', hs, hf s]

/-- What takes a piece takes the same piece of both. -/
theorem of_toUpper {f : Bytes → Bytes} (hs : SameLetters s s')
    (hf : ∀ s, f (toUpper s) = toUpper (f s)) : SameLetters (f s) (f s') := by
  unfold SameLetters
  rw [← hf s', hs, hf s]

theorem isEmpty (hs : SameLetters s s') : s'.isEmpty = s.isEmpty :=
  hs.eq_of_toUpper (f := List.isEmpty) fun _ => List.isEmpty_map

theorem append {t t' : Bytes} (hs : SameLetters s s') (ht : SameLetters t t') :
    SameLetters (s ++ t) (s' ++ t') := by
  unfold SameLetters
  rw [toUpper_append, toUpper_append, hs, ht]

theorem drop (hs : SameLetters s s') (n : Nat) : SameLetters (s.drop n) (s'.drop n) :=
  hs.of_toUpper fun s => drop_toUpper s n

theorem take (hs : SameLetters s s') (n : Nat) : SameLetters (s.take n) (s'.take n) :=
  hs.of_toUpper (f := List.take n) fun _ => List.map_take.symm

theorem trim (hs : SameLetters s s') : SameLetters (trim s) (trim s') := hs.of_toUpper trim_toUpper

theorem toLower_eq (hs : SameLetters s s') : toLower s' = toLower s :=
  hs.eq_of_toUpper toLower_toUpper

/-! ### Where a search ends -/

theorem skipUntil (hs : SameLetters s s') {stop : UInt8 → Bool} (hstop : Caseless stop)
    (pos : Nat) : skipUntil stop s' pos = skipUntil stop s pos :=
  hs.eq_of_toUpper (f := fun s => Sql.skipUntil stop s pos) fun s => skipUntil_toUpper hstop s pos

theorem skipWhitespace (hs : SameLetters s s') (pos : Nat) :
    skipWhitespace s' pos = skipWhitespace s pos :=
  hs.skipUntil (caseless_isBlank.or (caseless_eq rfl)).not pos

theorem findFrom (hs : SameLetters s s') (pat : Bytes) (pos : Nat) :
    findFrom (toUpper s') pat pos = findFrom (toUpper s) pat pos := by rw [hs]

theorem findKeyword (hs : SameLetters s s') (kw : Bytes) (pos : Nat) :
    findKeyword s' kw pos = findKeyword s kw pos := hs.findFrom _ pos

theorem startsWith (hs : SameLetters s s') (kw : Bytes) : startsWith s' kw = startsWith s kw := by
  rw [Sql.startsWith, Sql.startsWith, hs]

theorem afterKeyword (hs : SameLetters s s') (kw : Bytes) :
    afterKeyword s' kw = afterKeyword s kw := by
  rw [Sql.afterKeyword, Sql.afterKeyword, hs.findKeyword]

theorem afterFrom (hs : SameLetters s s') : afterFrom s' = afterFrom s := by
  rw [Sql.afterFrom, Sql.afterFrom, hs]

theorem findChar (hs : SameLetters s s') {d : UInt8} (hd : isLetter d = false) (pos : Nat) :
    findChar s' d pos = findChar s d pos :=
  hs.eq_of_toUpper (f := fun s => Sql.findChar s d pos) fun s => findChar_toUpper hd s pos

theorem findFirstOf (hs : SameLetters s s') {chars : Bytes}
    (hchars : Caseless fun c => chars.contains c) (pos : Nat) :
    findFirstOf s' chars pos = findFirstOf s chars pos :=
  hs.eq_of_toUpper (f := fun s => Sql.findFirstOf s chars pos) fun s =>
    findFirstOf_toUpper hchars s pos

theorem getElem? (hs : SameLetters s s') (pos : Nat) :
    s'[pos]?.map upperChar = s[pos]?.map upperChar := by
  rw [← List.getElem?_map, ← List.getElem?_map]
  exact congrArg (·[pos]?) hs

theorem getElem?_eq_some (hs : SameLetters s s') {d : UInt8} (hd : isLetter d = false)
    (pos : Nat) : s'[pos]? = some d ↔ s[pos]? = some d := by
  have hiff : ∀ s : Bytes, s[pos]? = some d ↔ s[pos]?.map upperChar = some d := by
    intro s
    cases s[pos]? with
    | none => simp
    | some c => simp [upperChar_eq_iff hd]
  rw [hiff, hs.getElem?, ← hiff]

theorem any (hs : SameLetters s s') {p : UInt8 → Bool} (hp : Caseless p) (pos : Nat) :
    s'[pos]?.any p = s[pos]?.any p := by
  have hany : ∀ s : Bytes, s[pos]?.any p = (s[pos]?.map upperChar).any p := by
    intro s
    cases s[pos]? with
    | none => rfl
    | some c => exact (hp c).symm
  rw [hany, hs.getElem?, ← hany]

theorem goesOn (hs : SameLetters s s') {stop : UInt8} (hstop : isLetter stop = false) (pos : Nat) :
    goesOn s' pos stop = goesOn s pos stop := by
  refine hs.any (p := fun c => decide (c ≠ stop)) ?_ pos
  intro c
  simp only [ne_eq, upperChar_eq_iff hstop]

/-! ### Pieces -/

theorem extractQuoted_fst (hs : SameLetters s s') (pos : Nat) :
    SameLetters (extractQuoted s pos).1 (extractQuoted s' pos).1 :=
  hs.of_toUpper (f := fun s => (extractQuoted s pos).1) fun s => by rw [extractQuoted_toUpper]

theorem extractQuoted_snd (hs : SameLetters s s') (pos : Nat) :
    (extractQuoted s' pos).2 = (extractQuoted s pos).2 :=
  hs.eq_of_toUpper (f := fun s => (extractQuoted s pos).2) fun s => by rw [extractQuoted_toUpper]

theorem unquote (hs : SameLetters s s') : SameLetters (unquote s) (unquote s') := by
  rw [Sql.unquote, Sql.unquote, List.head?_eq_getElem?, List.head?_eq_getElem?,
    hs.any caseless_isQuote]
  split
  · exact hs.extractQuoted_fst 0
  · exact hs

theorem substr (hs : SameLetters s s') (pos : Nat) :
    Related SameLetters (substr s pos) (substr s' pos) := by
  unfold Sql.substr
  rw [hs.length]
  split
  · exact .ok (hs.drop pos)
  · exact .error _

theorem substrTo (hs : SameLetters s s') (pos stop : Nat) :
    Related SameLetters (substrTo s pos stop) (substrTo s' pos stop) := by
  unfold Sql.substrTo
  rw [hs.length]
  split
  · refine .ok ?_
    split
    · exact (hs.drop pos).take _
    · exact hs.drop pos
  · exact .error _

theorem charAt (hs : SameLetters s s') (pos : Nat) :
    Related (fun c c' => upperChar c' = upperChar c) (charAt s pos) (charAt s' pos) := by
  unfold Sql.charAt
  rw [hs.length]
  split
  · refine .ok ?_
    have hget := hs.getElem? pos
    rw [List.getD_eq_getElem?_getD, List.getD_eq_getElem?_getD]
    cases hc : s[pos]? with
    | none =>
      rw [hc, Option.map_none, Option.map_eq_none_iff] at hget
      rw [hget]
    | some c =>
      rw [hc] at hget
      obtain ⟨c', hc', heq⟩ := Option.map_eq_some_iff.mp hget
      rw [hc']
      exact heq
  · exact .error _

end SameLetters

end Sql
end MiniTSDB
