import Mathlib.Data.List.Infix
import Mathlib.Data.List.TakeWhile

/-!
# Numerals as `strtod` reads them

What a numeral is, as a test on whole texts: decimal, hexadecimal, an infinity or a NaN. The
conversion takes the longest beginning of a text that is one.
-/

namespace MiniTSDB
namespace Lib
namespace Numeral

def isDigit (c : UInt8) : Bool := 48 ≤ c && c ≤ 57

def isHexDigit (c : UInt8) : Bool := isDigit c || (65 ≤ c && c ≤ 70) || (97 ≤ c && c ≤ 102)

def lower (c : UInt8) : UInt8 := if 65 ≤ c ∧ c ≤ 90 then c + 32 else c

/-- The text without the sign it may start with. -/
def dropSign : List UInt8 → List UInt8
  | [] => []
  | c :: s => if c = 43 ∨ c = 45 then s else c :: s

/-- Digits, with a point somewhere or not; there is at least one digit. -/
def isMantissa (digit : UInt8 → Bool) (s : List UInt8) : Bool :=
  match s.dropWhile digit with
  | [] => !s.isEmpty
  | c :: fraction => c = 46 && fraction.all digit && s.any digit

/-- A signed number of decimal digits. -/
def isExponent (s : List UInt8) : Bool := !(dropSign s).isEmpty && (dropSign s).all isDigit

/-- Digits, and an exponent behind the letter for it if that is there. -/
def isScientific (digit : UInt8 → Bool) (letter : UInt8) (s : List UInt8) : Bool :=
  let front := s.takeWhile fun c => lower c ≠ letter
  match s.dropWhile fun c => lower c ≠ letter with
  | [] => isMantissa digit front
  | _ :: exponent => isMantissa digit front && isExponent exponent

/-- `-12.5e3`: a decimal number. -/
def isDecimal (s : List UInt8) : Bool := isScientific isDigit 101 (dropSign s)

/-- `0x1.8p3` -/
def isHexadecimal (s : List UInt8) : Bool :=
  match dropSign s with
  | zero :: x :: rest => zero = 48 && lower x = 120 && isScientific isHexDigit 112 rest
  | _ => false

/-- `inf`, `infinity` -/
def isInfinity (s : List UInt8) : Bool :=
  let word := (dropSign s).map lower
  word = [105, 110, 102] || word = [105, 110, 102, 105, 110, 105, 116, 121]

/-- A character that may be between the parentheses of a NaN. -/
def isNanChar (c : UInt8) : Bool := isDigit c || c = 95 || (97 ≤ lower c && lower c ≤ 122)

/-- `nan`, `nan(12)` -/
def isNan (s : List UInt8) : Bool :=
  let word := (dropSign s).map lower
  word = [110, 97, 110] ||
    (word.take 4 = [110, 97, 110, 40] && word.getLast? = some 41 &&
      (word.drop 4).dropLast.all isNanChar)

def isNumeral (s : List UInt8) : Bool := isDecimal s || isHexadecimal s || isInfinity s || isNan s

def isSpace (c : UInt8) : Bool := c = 32 || (9 ≤ c && c ≤ 13)

/-- The longest beginning that is a numeral. -/
def longest (s : List UInt8) : Option (List UInt8) := s.inits.reverse.find? isNumeral

/-- The same behind the white space that the text may start with. -/
def numericPrefix (s : List UInt8) : Option (List UInt8) := longest (s.dropWhile isSpace)

/-! ## The longest one -/

/-- **A numeral is taken as a whole.** -/
theorem longest_of_isNumeral {s : List UInt8} (h : isNumeral s = true) : longest s = some s := by
  have hfirst : ∃ rest, s.inits.reverse = s :: rest := by
    rw [List.inits_eq_tails, List.reverse_reverse]
    cases hs : s.reverse with
    | nil => exact ⟨[], by rw [← List.reverse_reverse s, hs]; rfl⟩
    | cons c cs => exact ⟨_, by rw [← List.reverse_reverse s, hs]; rfl⟩
  obtain ⟨rest, hrest⟩ := hfirst
  rw [longest, hrest, List.find?_cons_of_pos h]

theorem longest_eq_none_iff {s : List UInt8} :
    longest s = none ↔ ∀ p, p <+: s → isNumeral p = false := by
  rw [longest, List.find?_eq_none]
  constructor
  · intro h p hp
    rw [← Bool.not_eq_true]
    exact h p (List.mem_reverse.mpr ((List.mem_inits p s).mpr hp))
  · intro h p hp
    rw [h p ((List.mem_inits p s).mp (List.mem_reverse.mp hp))]
    decide

/-! ## Decimal numbers -/

/-- What a decimal number is made of. -/
def isDecimalChar (c : UInt8) : Bool := isDigit c || c = 43 || c = 45 || c = 46 || lower c = 101

theorem mem_of_mem_dropSign {s : List UInt8} {c : UInt8} (h : c ∈ s) :
    c ∈ dropSign s ∨ c = 43 ∨ c = 45 := by
  rcases s with _ | ⟨d, s⟩
  · cases h
  rw [dropSign]
  split
  case isFalse => exact .inl h
  case isTrue hsign =>
    rcases List.mem_cons.mp h with rfl | hmem
    · exact .inr hsign
    · exact .inl hmem

theorem chars_of_isMantissa {s : List UInt8} (h : isMantissa isDigit s = true) :
    ∀ c ∈ s, isDigit c = true ∨ c = 46 := by
  intro c hc
  rw [← List.takeWhile_append_dropWhile (p := isDigit) (l := s), List.mem_append] at hc
  rcases hc with hwhole | hrest
  · exact .inl (List.mem_takeWhile_imp hwhole)
  rw [isMantissa] at h
  cases hdrop : s.dropWhile isDigit with
  | nil =>
    rw [hdrop] at hrest
    cases hrest
  | cons point fraction =>
    rw [hdrop] at h hrest
    simp only [Bool.and_eq_true, decide_eq_true_eq] at h
    rcases List.mem_cons.mp hrest with rfl | hmem
    · exact .inr h.1.1
    · exact .inl (List.all_eq_true.mp h.1.2 c hmem)

theorem chars_of_isExponent {s : List UInt8} (h : isExponent s = true) :
    ∀ c ∈ s, isDigit c = true ∨ c = 43 ∨ c = 45 := by
  intro c hc
  rw [isExponent, Bool.and_eq_true] at h
  rcases mem_of_mem_dropSign hc with hmem | hsign
  · exact .inl (List.all_eq_true.mp h.2 c hmem)
  · exact .inr hsign

/-- **A decimal number has no other character.** -/
theorem chars_of_isDecimal {s : List UInt8} (h : isDecimal s = true) :
    ∀ c ∈ s, isDecimalChar c = true := by
  intro c hc
  rcases mem_of_mem_dropSign hc with hmem | rfl | rfl
  · rw [isDecimal, isScientific] at h
    rw [← List.takeWhile_append_dropWhile (p := fun c => lower c ≠ 101) (l := dropSign s),
      List.mem_append] at hmem
    have hfront : isMantissa isDigit ((dropSign s).takeWhile fun c => lower c ≠ 101) = true := by
      split at h
      · exact h
      · exact (Bool.and_eq_true _ _ ▸ h).1
    rcases hmem with hmem | hmem
    · rcases chars_of_isMantissa hfront c hmem with hdigit | rfl
      · simp [isDecimalChar, hdigit]
      · decide
    · cases hdrop : (dropSign s).dropWhile fun c => lower c ≠ 101 with
      | nil =>
        rw [hdrop] at hmem
        cases hmem
      | cons letter exponent =>
        rw [hdrop] at hmem h
        rcases List.mem_cons.mp hmem with rfl | hin
        · have hletter := List.head?_dropWhile_not (fun c => decide (lower c ≠ 101)) (dropSign s)
          rw [hdrop] at hletter
          have heq : lower c = 101 := by simpa using hletter
          simp [isDecimalChar, heq]
        · simp only [Bool.and_eq_true] at h
          rcases chars_of_isExponent h.2 c hin with hdigit | rfl | rfl
          · simp [isDecimalChar, hdigit]
          · decide
          · decide
  · decide
  · decide

theorem isNumeral_of_isDecimal {s : List UInt8} (h : isDecimal s = true) : isNumeral s = true := by
  rw [isNumeral, h]
  rfl

theorem cases_of_isSpace {c : UInt8} (h : isSpace c = true) :
    c = 32 ∨ c = 9 ∨ c = 10 ∨ c = 11 ∨ c = 12 ∨ c = 13 := by
  simp only [isSpace, Bool.or_eq_true, Bool.and_eq_true, decide_eq_true_eq,
    UInt8.le_iff_toNat_le] at h
  simp only [← UInt8.toNat_inj] at h ⊢
  change c.toNat = 32 ∨ 9 ≤ c.toNat ∧ c.toNat ≤ 13 at h
  change c.toNat = 32 ∨ c.toNat = 9 ∨ c.toNat = 10 ∨ c.toNat = 11 ∨ c.toNat = 12 ∨ c.toNat = 13
  omega

theorem not_isSpace_of_isDecimalChar {c : UInt8} (h : isDecimalChar c = true) :
    isSpace c = false := by
  by_contra hspace
  rw [Bool.not_eq_false] at hspace
  rcases cases_of_isSpace hspace with rfl | rfl | rfl | rfl | rfl | rfl <;>
    exact absurd h (by decide)

/-- No numeral starts with white space. -/
theorem not_isSpace_of_isNumeral {c : UInt8} {s : List UInt8} (h : isNumeral (c :: s) = true) :
    isSpace c = false := by
  by_contra hspace
  rw [Bool.not_eq_false] at hspace
  have hdecimal : isDecimal (c :: s) = false := by
    rw [← Bool.not_eq_true]
    intro hdecimal
    have hchar := chars_of_isDecimal hdecimal c List.mem_cons_self
    rw [not_isSpace_of_isDecimalChar hchar] at hspace
    cases hspace
  rw [isNumeral, hdecimal, Bool.false_or] at h
  rcases cases_of_isSpace hspace with rfl | rfl | rfl | rfl | rfl | rfl <;>
    (cases s <;> simp [isHexadecimal, isInfinity, isNan, dropSign, lower] at h)

/-- **A numeral is converted as a whole.** -/
theorem numericPrefix_of_isNumeral {s : List UInt8} (h : isNumeral s = true) :
    numericPrefix s = some s := by
  have hspace : s.dropWhile isSpace = s := by
    rcases s with _ | ⟨c, s⟩
    · rfl
    · rw [List.dropWhile_cons, not_isSpace_of_isNumeral h, if_neg (by decide)]
  rw [numericPrefix, hspace, longest_of_isNumeral h]

theorem numericPrefix_of_isDecimal {s : List UInt8} (h : isDecimal s = true) :
    numericPrefix s = some s :=
  numericPrefix_of_isNumeral (isNumeral_of_isDecimal h)

end Numeral
end Lib
end MiniTSDB
