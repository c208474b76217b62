import Mathlib.Data.List.TakeWhile
import MiniTSDB.Common.Types
import MiniTSDB.Lib.Search

/-!
# Text and positions (`parser.cpp`)

The parser goes over its text with positions: it searches for keywords from a position on, skips
white space, and cuts pieces out with `substr`. A position may be at the end of the text, where
`sql[pos]` is the terminating zero, and beyond it every access fails.

`toupper` is that of the C locale, so a byte from 128 on is left as it is.
-/

namespace MiniTSDB
namespace Sql

open Lib

/-! ## Characters -/

abbrev space : UInt8 := 32

abbrev comma : UInt8 := 44

abbrev equals : UInt8 := 61

abbrev dot : UInt8 := 46

abbrev openParen : UInt8 := 40

abbrev closeParen : UInt8 := 41

abbrev quote : UInt8 := 39

abbrev dquote : UInt8 := 34

def isQuote (c : UInt8) : Bool := c = quote || c = dquote

/-- The characters `Trim` takes off: space, tab, carriage return, newline. -/
def isBlank (c : UInt8) : Bool := c = space || c = 9 || c = 13 || c = 10

/-- The characters of a name: letters, digits, `_` and `-`. -/
def isNameChar (c : UInt8) : Bool :=
  (48 ≤ c && c ≤ 57) || (65 ≤ c && c ≤ 90) || (97 ≤ c && c ≤ 122) || c = 95 || c = 45

/-- `std::toupper` in the C locale. -/
def upperChar (c : UInt8) : UInt8 := if 97 ≤ c ∧ c ≤ 122 then c - 32 else c

def toUpper (s : Bytes) : Bytes := s.map upperChar

def lowerChar (c : UInt8) : UInt8 := if 65 ≤ c ∧ c ≤ 90 then c + 32 else c

def toLower (s : Bytes) : Bytes := s.map lowerChar

def trim (s : Bytes) : Bytes := ((s.dropWhile isBlank).reverse.dropWhile isBlank).reverse

/-! ## What may go wrong -/

/-- `substr` from behind the end raises `std::out_of_range`, and so counts here an access behind
the end. A loop that has made the turns it was given is still running. -/
inductive ParseFault
  | outOfRange
  | outOfFuel
  deriving DecidableEq, Repr

abbrev Parsing := Except ParseFault

/-- `s[pos]`; at the end it is the terminating zero. -/
def charAt (s : Bytes) (pos : Nat) : Parsing UInt8 :=
  if pos ≤ s.length then .ok (s.getD pos 0) else .error .outOfRange

/-- `s.substr(pos)`. -/
def substr (s : Bytes) (pos : Nat) : Parsing Bytes :=
  if pos ≤ s.length then .ok (s.drop pos) else .error .outOfRange

/-- `s.substr(pos, stop - pos)`, whose second argument wraps where `stop` is before `pos`: then
everything from `pos` on is meant. -/
def substrTo (s : Bytes) (pos stop : Nat) : Parsing Bytes :=
  if pos ≤ s.length then .ok (if pos ≤ stop then (s.drop pos).take (stop - pos) else s.drop pos)
  else .error .outOfRange

/-! ## Searching -/

/-- `std::string::npos`. -/
def npos : Nat := 2 ^ 64 - 1

/-- `s.find(pat, pos)`. -/
def findFrom (s pat : Bytes) (pos : Nat) : Option Nat := (find pat (s.drop pos)).map (· + pos)

/-- `s.find(c, pos)`. -/
def findChar (s : Bytes) (c : UInt8) (pos : Nat) : Option Nat := findFrom s [c] pos

/-- `s.find_first_of(chars, pos)`. -/
def findFirstOf (s chars : Bytes) (pos : Nat) : Option Nat :=
  ((s.drop pos).findIdx? fun c => chars.contains c).map (· + pos)

def findKeyword (sql kw : Bytes) (pos : Nat) : Option Nat := findFrom (toUpper sql) (toUpper kw) pos

/-- `FindKeyword(sql, kw) + n`, where `n` is the length of the keyword: a `size_t`, so it wraps
if nothing is found. -/
def afterKeyword (sql kw : Bytes) : Nat :=
  ((findKeyword sql kw 0).getD npos + kw.length) % 2 ^ 64

/-- `ToUpper(s).find(kw) == 0`. -/
def startsWith (s kw : Bytes) : Bool := find kw (toUpper s) = some 0

/-! ## Moving on -/

/-- `while (pos < sql.size() && !stop(sql[pos])) pos++`. -/
def skipUntil (stop : UInt8 → Bool) (sql : Bytes) (pos : Nat) : Nat :=
  pos + ((sql.drop pos).takeWhile fun c => !stop c).length

/-- `SkipWhitespace`, which skips commas too. -/
def skipWhitespace (sql : Bytes) (pos : Nat) : Nat :=
  skipUntil (fun c => !(isBlank c || c = comma)) sql pos

/-- There is a character at the position, and it is not `stop`. -/
def goesOn (sql : Bytes) (pos : Nat) (stop : UInt8) : Bool := sql[pos]?.any (· ≠ stop)

/-- The loop of `ExtractQuoted`, behind the quote: what is quoted, and how many characters it
takes. -/
def quotedRest (q : UInt8) : Bytes → Bytes × Nat
  | [] => ([], 0)
  | c :: rest =>
    if c = q then
      match rest with
      | [] => ([], 1)
      | c' :: rest' =>
        if c' = q then
          let (value, n) := quotedRest q rest'
          (q :: value, n + 2)
        else ([], 1)
    else
      let (value, n) := quotedRest q rest
      (c :: value, n + 1)

/-- `ExtractQuoted`: the value, and the position behind it. It does not move if there is no
quote. -/
def extractQuoted (sql : Bytes) (pos : Nat) : Bytes × Nat :=
  match sql.drop pos with
  | [] => ([], pos)
  | q :: rest =>
    if isQuote q then
      let (value, n) := quotedRest q rest
      (value, pos + 1 + n)
    else ([], pos)

/-- `if (!val.empty() && (val[0] == '\'' || val[0] == '"')) val = ExtractQuoted(val, 0)`. -/
def unquote (val : Bytes) : Bytes := if val.head?.any isQuote then (extractQuoted val 0).1 else val

/-! ## Positions -/

@[simp] theorem length_toUpper (s : Bytes) : (toUpper s).length = s.length := List.length_map ..

theorem length_trim_le (s : Bytes) : (trim s).length ≤ s.length := by
  rw [trim, List.length_reverse]
  refine Nat.le_trans (List.dropWhile_sublist _).length_le ?_
  rw [List.length_reverse]
  exact (List.dropWhile_sublist _).length_le

theorem le_skipUntil (stop : UInt8 → Bool) (sql : Bytes) (pos : Nat) :
    pos ≤ skipUntil stop sql pos := Nat.le_add_right _ _

theorem skipUntil_le {stop : UInt8 → Bool} {sql : Bytes} {pos : Nat} (h : pos ≤ sql.length) :
    skipUntil stop sql pos ≤ sql.length := by
  have hle := (List.takeWhile_prefix (l := sql.drop pos) fun c => !stop c).length_le
  rw [List.length_drop] at hle
  rw [skipUntil]
  omega

theorem le_skipWhitespace (sql : Bytes) (pos : Nat) : pos ≤ skipWhitespace sql pos :=
  le_skipUntil _ _ _

theorem skipWhitespace_le {sql : Bytes} {pos : Nat} (h : pos ≤ sql.length) :
    skipWhitespace sql pos ≤ sql.length := skipUntil_le h

theorem drop_eq_cons {sql : Bytes} {pos : Nat} {c : UInt8} (h : sql[pos]? = some c) :
    sql.drop pos = c :: sql.drop (pos + 1) := by
  obtain ⟨hlt, rfl⟩ := List.getElem?_eq_some_iff.mp h
  exact List.drop_eq_getElem_cons hlt

/-- It moves on over a character it does not stop at. -/
theorem lt_skipUntil {stop : UInt8 → Bool} {sql : Bytes} {pos : Nat} {c : UInt8}
    (h : sql[pos]? = some c) (hc : stop c = false) : pos < skipUntil stop sql pos := by
  rw [skipUntil, drop_eq_cons h, List.takeWhile_cons, if_pos (by rw [hc]; rfl)]
  simp

theorem skipUntil_eq {stop : UInt8 → Bool} {sql : Bytes} {pos : Nat} {c : UInt8}
    (h : sql[pos]? = some c) (hc : stop c = true) : skipUntil stop sql pos = pos := by
  rw [skipUntil, drop_eq_cons h, List.takeWhile_cons, if_neg (by rw [hc]; decide)]
  simp

theorem goesOn_iff {sql : Bytes} {pos : Nat} {stop : UInt8} :
    goesOn sql pos stop = true ↔ ∃ c, sql[pos]? = some c ∧ c ≠ stop := by
  rw [goesOn]
  cases sql[pos]? with
  | none => simp
  | some c => simp

/-- It does not move over a character it stops at. -/
theorem skipUntil_le_of_stop {stop : UInt8 → Bool} {sql : Bytes} {pos i : Nat} {c : UInt8}
    (hle : pos ≤ i) (h : sql[i]? = some c) (hc : stop c = true) : skipUntil stop sql pos ≤ i := by
  by_contra hlt
  rw [skipUntil, Nat.not_le] at hlt
  have hget : ((sql.drop pos).takeWhile fun c => !stop c)[i - pos]? = some c := by
    have hfront := List.takeWhile_prefix (l := sql.drop pos) fun c => !stop c
    rw [List.prefix_iff_getElem?] at hfront
    have hin : i - pos < ((sql.drop pos).takeWhile fun c => !stop c).length := by omega
    have hat := hfront (i - pos) hin
    rw [List.getElem?_drop, Nat.add_sub_cancel' hle, h] at hat
    rw [List.getElem?_eq_getElem hin, hat]
  have hnot := List.mem_takeWhile_imp (List.mem_of_getElem? hget)
  rw [hc] at hnot
  cases hnot

/-- **From a character that is not a closing parenthesis, the position moves on**: over white
space, or over the character itself. -/
theorem lt_skipUntil_skipWhitespace {stop : UInt8 → Bool} {sql : Bytes} {pos : Nat} {c : UInt8}
    (h : sql[pos]? = some c) (hc : stop c = true → isBlank c = true ∨ c = comma) :
    pos < skipUntil stop sql (skipWhitespace sql pos) := by
  by_cases hskip : (!(isBlank c || c = comma)) = false
  · exact Nat.lt_of_lt_of_le (lt_skipUntil h hskip) (le_skipUntil _ _ _)
  · rw [Bool.not_eq_false] at hskip
    have hstay : skipWhitespace sql pos = pos := skipUntil_eq h hskip
    rw [hstay]
    refine lt_skipUntil h ?_
    by_contra hstop
    rw [Bool.not_eq_false] at hstop
    rw [Bool.not_eq_true', Bool.or_eq_false_iff] at hskip
    cases hc hstop with
    | inl hblank =>
      rw [hskip.1] at hblank
      cases hblank
    | inr hcomma => simp [hcomma] at hskip

theorem findFrom_eq_some {s pat : Bytes} {pos i : Nat} (hne : pat ≠ [])
    (h : findFrom s pat pos = some i) : pos ≤ i ∧ i + pat.length ≤ s.length := by
  obtain ⟨j, hj, rfl⟩ := Option.map_eq_some_iff.mp h
  obtain ⟨-, hlen⟩ := find_eq_some hj
  have hpos := List.length_pos_iff.mpr hne
  rw [List.length_drop] at hlen
  omega

theorem findChar_eq_some {s : Bytes} {c : UInt8} {pos i : Nat} (h : findChar s c pos = some i) :
    pos ≤ i ∧ i < s.length := findFrom_eq_some (List.cons_ne_nil _ _) h

theorem findKeyword_eq_some {sql kw : Bytes} {pos i : Nat} (hne : kw ≠ [])
    (h : findKeyword sql kw pos = some i) : pos ≤ i ∧ i + kw.length ≤ sql.length := by
  have hmap : toUpper kw ≠ [] := by
    rw [ne_eq, toUpper, List.map_eq_nil_iff]
    exact hne
  have hsome := findFrom_eq_some hmap h
  rwa [length_toUpper, length_toUpper] at hsome

/-- What occurs behind the position is found. -/
theorem exists_findFrom {s pat : Bytes} {pos i : Nat} (hle : pos ≤ i) (h : pat <+: s.drop i) :
    ∃ j, findFrom s pat pos = some j := by
  have hoccurs : pat <:+: s.drop pos := by
    have hdrop : s.drop i = (s.drop pos).drop (i - pos) := by
      rw [List.drop_drop, Nat.add_sub_cancel' hle]
    rw [hdrop] at h
    exact h.isInfix.trans (List.drop_suffix _ _).isInfix
  obtain ⟨j, hj⟩ := exists_find hoccurs
  rw [findFrom, hj]
  exact ⟨j + pos, rfl⟩

theorem findFirstOf_eq_some {s chars : Bytes} {pos i : Nat} (h : findFirstOf s chars pos = some i) :
    pos ≤ i ∧ i < s.length := by
  obtain ⟨j, hj, rfl⟩ := Option.map_eq_some_iff.mp h
  obtain ⟨hlt, -⟩ := List.findIdx?_eq_some_iff_getElem.mp hj
  rw [List.length_drop] at hlt
  omega

theorem findFirstOf_getD_le (s chars : Bytes) (pos : Nat) :
    (findFirstOf s chars pos).getD s.length ≤ s.length := by
  cases h : findFirstOf s chars pos with
  | none => exact Nat.le_refl _
  | some i => exact (findFirstOf_eq_some h).2.le

/-! ## What is quoted -/

theorem quotedRest_le (q : UInt8) (s : Bytes) : (quotedRest q s).2 ≤ s.length := by
  induction s using quotedRest.induct q with
  | case1 => simp [quotedRest]
  | case2 => simp [quotedRest]
  | case3 rest value n heq ih =>
    simp only [quotedRest, if_true, List.length_cons]
    omega
  | case4 c' rest hne => simp [quotedRest, hne]
  | case5 c rest hne value n heq ih =>
    rw [quotedRest.eq_def]
    simp only [if_neg hne, List.length_cons]
    omega

theorem extractQuoted_eq {sql : Bytes} {pos : Nat} {q : UInt8} (h : sql[pos]? = some q)
    (hq : isQuote q = true) :
    extractQuoted sql pos = ((quotedRest q (sql.drop (pos + 1))).1,
      pos + 1 + (quotedRest q (sql.drop (pos + 1))).2) := by
  rw [extractQuoted, drop_eq_cons h]
  simp only [hq, if_true]

theorem extractQuoted_stays {sql : Bytes} {pos : Nat} (h : sql[pos]?.any isQuote = false) :
    extractQuoted sql pos = ([], pos) := by
  rw [extractQuoted]
  cases hdrop : sql.drop pos with
  | nil => rfl
  | cons c rest =>
    have hc : sql[pos]? = some c := by
      rw [← List.head?_drop, hdrop, List.head?_cons]
    rw [hc, Option.any_some] at h
    simp only [h, Bool.false_eq_true, if_false]

/-- The position moves over what is quoted, and stays in the text. -/
theorem extractQuoted_spec (sql : Bytes) (pos : Nat) :
    pos ≤ (extractQuoted sql pos).2 ∧
      (pos ≤ sql.length → (extractQuoted sql pos).2 ≤ sql.length) ∧
      (sql[pos]?.any isQuote = true → pos < (extractQuoted sql pos).2) := by
  by_cases hany : sql[pos]?.any isQuote = true
  · cases hc : sql[pos]? with
    | none => simp [hc] at hany
    | some q =>
      rw [hc, Option.any_some] at hany
      have hle := quotedRest_le q (sql.drop (pos + 1))
      have hlt := (List.getElem?_eq_some_iff.mp hc).1
      rw [List.length_drop] at hle
      rw [extractQuoted_eq hc hany]
      refine ⟨?_, ?_, ?_⟩
      · dsimp only
        omega
      · intro _
        dsimp only
        omega
      · intro _
        dsimp only
        omega
  · rw [Bool.not_eq_true] at hany
    rw [extractQuoted_stays hany, hany]
    exact ⟨Nat.le_refl _, id, by simp⟩

/-! ## Pieces of the text -/

theorem charAt_ok {s : Bytes} {pos : Nat} (h : pos ≤ s.length) :
    charAt s pos = .ok (s.getD pos 0) := if_pos h

theorem substr_ok {s : Bytes} {pos : Nat} (h : pos ≤ s.length) :
    substr s pos = .ok (s.drop pos) := if_pos h

theorem substrTo_ok {s : Bytes} {pos stop : Nat} (h : pos ≤ s.length) :
    substrTo s pos stop
      = .ok (if pos ≤ stop then (s.drop pos).take (stop - pos) else s.drop pos) := if_pos h

theorem startsWith_iff {s kw : Bytes} : startsWith s kw = true ↔ kw <+: toUpper s := by
  rw [startsWith, decide_eq_true_iff]
  constructor
  · intro h
    have hat := (find_eq_some h).1
    rwa [List.drop_zero] at hat
  · exact find_at_front

/-- Behind a keyword that the text starts with. -/
theorem afterKeyword_eq {sql kw : Bytes} (h : kw <+: toUpper sql) (hupper : toUpper kw = kw)
    (hlen : kw.length < 2 ^ 64) : afterKeyword sql kw = kw.length := by
  have hfind : findKeyword sql kw 0 = some 0 := by
    rw [findKeyword, findFrom, List.drop_zero, hupper, find_at_front h]
    rfl
  rw [afterKeyword, hfind, Option.getD_some, Nat.zero_add, Nat.mod_eq_of_lt hlen]

/-! ## Names -/

theorem ne_of_isNameChar {c d : UInt8} (hc : isNameChar c = true) (hd : isNameChar d = false) :
    c ≠ d := by
  intro h
  rw [h, hd] at hc
  cases hc

theorem notMem_of_chars {name : Bytes} (h : ∀ c ∈ name, isNameChar c = true) {c : UInt8}
    (hc : isNameChar c = false) : c ∉ name := by
  intro hmem
  rw [h c hmem] at hc
  cases hc

theorem not_isBlank_of_isNameChar {c : UInt8} (hc : isNameChar c = true) : isBlank c = false := by
  simp only [isBlank, Bool.or_eq_false_iff, decide_eq_false_iff_not]
  exact ⟨⟨⟨ne_of_isNameChar hc (by decide), ne_of_isNameChar hc (by decide)⟩,
    ne_of_isNameChar hc (by decide)⟩, ne_of_isNameChar hc (by decide)⟩

theorem isNameChar_upperChar {c : UInt8} (hc : isNameChar c = true) :
    isNameChar (upperChar c) = true := by
  rw [upperChar]
  split
  case isFalse => exact hc
  case isTrue h =>
    rw [UInt8.le_iff_toNat_le, UInt8.le_iff_toNat_le] at h
    change 97 ≤ c.toNat ∧ c.toNat ≤ 122 at h
    have hsub : (c - 32).toNat = c.toNat - 32 :=
      UInt8.toNat_sub_of_le c 32 (UInt8.le_iff_toNat_le.mpr (Nat.le_trans (by decide) h.1))
    have hlow : 65 ≤ c - 32 := by
      rw [UInt8.le_iff_toNat_le, hsub]
      change 65 ≤ c.toNat - 32
      omega
    have hhigh : c - 32 ≤ 90 := by
      rw [UInt8.le_iff_toNat_le, hsub]
      change c.toNat - 32 ≤ 90
      omega
    simp [isNameChar, hlow, hhigh]

/-! ## Text put together -/

@[simp] theorem toUpper_append (s t : Bytes) : toUpper (s ++ t) = toUpper s ++ toUpper t :=
  List.map_append

@[simp] theorem toUpper_cons (c : UInt8) (s : Bytes) :
    toUpper (c :: s) = upperChar c :: toUpper s := rfl

theorem findFrom_append {s t pat : Bytes} {pos : Nat} (hpos : s.length = pos) :
    findFrom (s ++ t) pat pos = (find pat t).map (· + pos) := by
  rw [findFrom, ← hpos, List.drop_left]

theorem findKeyword_append {s t kw : Bytes} {pos : Nat} (hpos : s.length = pos) :
    findKeyword (s ++ t) kw pos = (find (toUpper kw) (toUpper t)).map (· + pos) := by
  rw [findKeyword, toUpper_append]
  exact findFrom_append (by rw [length_toUpper, hpos])

theorem skipUntil_append {stop : UInt8 → Bool} {s t : Bytes} {pos : Nat} (hpos : s.length = pos) :
    skipUntil stop (s ++ t) pos = pos + (t.takeWhile fun c => !stop c).length := by
  rw [skipUntil, ← hpos, List.drop_left]

theorem extractQuoted_append {s t : Bytes} {pos : Nat} (hpos : s.length = pos) :
    extractQuoted (s ++ t) pos = ((extractQuoted t 0).1, (extractQuoted t 0).2 + pos) := by
  rw [extractQuoted, extractQuoted, ← hpos, List.drop_left, List.drop_zero]
  cases t with
  | nil => simp
  | cons q rest =>
    by_cases hq : isQuote q = true
    · simp only [hq, if_true]
      congr 1
      omega
    · simp only [hq, if_false, Bool.false_eq_true, Nat.zero_add]

theorem substrTo_append {s t u : Bytes} {pos stop : Nat} (hpos : s.length = pos)
    (hstop : s.length + t.length = stop) : substrTo (s ++ (t ++ u)) pos stop = .ok t := by
  have hle : pos ≤ (s ++ (t ++ u)).length := by
    rw [List.length_append]
    omega
  rw [substrTo_ok hle, if_pos (by omega), ← hpos, List.drop_left, ← hstop, Nat.add_sub_cancel_left,
    List.take_left]

theorem substrTo_take {s t : Bytes} {pos i : Nat} (hpos : s.length = pos) (hi : i ≤ t.length) :
    substrTo (s ++ t) pos (i + pos) = .ok (t.take i) := by
  have hlen : s.length + (t.take i).length = i + pos := by
    rw [List.length_take]
    omega
  have hsub := substrTo_append (u := t.drop i) hpos hlen
  rwa [List.take_append_drop] at hsub

theorem substr_append {s t : Bytes} {pos : Nat} (hpos : s.length = pos) :
    substr (s ++ t) pos = .ok t := by
  have hle : pos ≤ (s ++ t).length := by
    rw [List.length_append]
    omega
  rw [substr_ok hle, ← hpos, List.drop_left]

/-- A text with no blank at its ends. -/
def Tight (s : Bytes) : Prop :=
  s.head?.all (! isBlank ·) = true ∧ s.getLast?.all (! isBlank ·) = true

/-- The ends of two texts put together are those of the first and of the second. -/
theorem tight_append {s t : Bytes} (hs : s.head?.any (! isBlank ·) = true)
    (ht : t.getLast?.any (! isBlank ·) = true) : Tight (s ++ t) := by
  constructor
  · rw [List.head?_append]
    cases h : s.head? with
    | none =>
      rw [h] at hs
      cases hs
    | some c =>
      rw [h] at hs
      exact hs
  · rw [List.getLast?_append]
    cases h : t.getLast? with
    | none =>
      rw [h] at ht
      cases ht
    | some c =>
      rw [h] at ht
      exact ht

theorem dropWhile_blank {b s : Bytes} (hb : ∀ c ∈ b, isBlank c = true)
    (hs : s.head?.all (! isBlank ·) = true) : (b ++ s).dropWhile isBlank = s := by
  rw [List.dropWhile_append_of_pos hb]
  cases s with
  | nil => rfl
  | cons c s =>
    rw [List.head?_cons, Option.all_some, Bool.not_eq_true'] at hs
    rw [List.dropWhile_cons, if_neg (by rw [hs]; decide)]

/-- **`Trim` takes off the blanks around a text that has none at its own ends.** -/
theorem trim_append (before after : Bytes) {s : Bytes} (hbefore : ∀ c ∈ before, isBlank c = true)
    (hafter : ∀ c ∈ after, isBlank c = true) (hs : Tight s) : trim (before ++ s ++ after) = s := by
  cases hne : s with
  | nil =>
    have hall : ∀ c ∈ before ++ [] ++ after, isBlank c = true := by
      intro c hc
      rw [List.append_nil, List.mem_append] at hc
      exact hc.elim (hbefore c) (hafter c)
    have hdrop := dropWhile_blank (s := []) hall rfl
    rw [List.append_nil] at hdrop
    rw [trim, hdrop]
    rfl
  | cons c rest =>
    rw [← hne]
    have hhead : (s ++ after).head?.all (! isBlank ·) = true := by
      rw [hne, List.cons_append, List.head?_cons]
      rw [hne] at hs
      exact hs.1
    have hlast : s.reverse.head?.all (! isBlank ·) = true := by
      rw [List.head?_reverse]
      exact hs.2
    have hrev : ∀ c ∈ after.reverse, isBlank c = true := fun c hc =>
      hafter c (List.mem_reverse.mp hc)
    rw [trim, List.append_assoc, dropWhile_blank hbefore hhead, List.reverse_append,
      dropWhile_blank hrev hlast, List.reverse_reverse]

theorem isBlank_of_mem_space {c : UInt8} (hc : c ∈ [space]) : isBlank c = true := by
  rw [List.mem_singleton.mp hc]
  rfl

theorem trim_eq {s : Bytes} (hs : Tight s) : trim s = s := by
  have htrim := trim_append [] [] (by simp) (by simp) hs
  simpa using htrim

/-- **What a text starts with, the trimmed one starts with**, if it has no blank at its ends. -/
theorem trim_keeps_front {p s : Bytes} (hp : Tight p) (hne : p ≠ []) (h : p <+: s) :
    p <+: trim s := by
  obtain ⟨rest, rfl⟩ := h
  have hsplit : rest = (rest.reverse.dropWhile isBlank).reverse
      ++ (rest.reverse.takeWhile isBlank).reverse := by
    rw [← List.reverse_append, List.takeWhile_append_dropWhile, List.reverse_reverse]
  have hblank : ∀ c ∈ (rest.reverse.takeWhile isBlank).reverse, isBlank c = true := by
    intro c hc
    exact List.mem_takeWhile_imp (List.mem_reverse.mp hc)
  have hhead : p.head?.any (! isBlank ·) = true := by
    cases hcons : p with
    | nil => exact absurd hcons hne
    | cons c cs =>
      rw [hcons] at hp
      exact hp.1
  cases hend : rest.reverse.dropWhile isBlank with
  | nil =>
    have htrim := trim_append [] (rest.reverse.takeWhile isBlank).reverse (by simp) hblank hp
    rw [hend, List.reverse_nil, List.nil_append] at hsplit
    rw [List.nil_append, ← hsplit] at htrim
    rw [htrim]
  | cons c cs =>
    have hlast : (c :: cs).reverse.getLast?.any (! isBlank ·) = true := by
      have hc : isBlank c = false := by
        have hstop := List.head?_dropWhile_not isBlank rest.reverse
        rw [hend] at hstop
        exact hstop
      rw [List.getLast?_reverse, List.head?_cons, Option.any_some, hc]
      rfl
    have htrim := trim_append [] _ (by simp) hblank (tight_append hhead hlast)
    rw [hend] at hsplit
    rw [List.nil_append, List.append_assoc, ← hsplit] at htrim
    rw [htrim]
    exact List.prefix_append _ _

theorem mem_trim {s : Bytes} {c : UInt8} (hc : isBlank c = false) (h : c ∈ s) : c ∈ trim s := by
  have hdrop : ∀ s : Bytes, c ∈ s → c ∈ s.dropWhile isBlank := by
    intro s hs
    rw [← List.takeWhile_append_dropWhile (p := isBlank) (l := s), List.mem_append] at hs
    cases hs with
    | inl htake =>
      rw [List.mem_takeWhile_imp htake] at hc
      cases hc
    | inr hdrop => exact hdrop
  rw [trim, List.mem_reverse]
  apply hdrop
  rw [List.mem_reverse]
  exact hdrop s h

/-- `Trim` only takes characters away. -/
theorem trim_sublist (s : Bytes) : (trim s).Sublist s := by
  have hdrop : ((s.dropWhile isBlank).reverse.dropWhile isBlank).reverse.Sublist
      (s.dropWhile isBlank).reverse.reverse :=
    List.reverse_sublist.mpr (List.dropWhile_sublist isBlank)
  rw [List.reverse_reverse] at hdrop
  exact hdrop.trans (List.dropWhile_sublist isBlank)

end Sql
end MiniTSDB
