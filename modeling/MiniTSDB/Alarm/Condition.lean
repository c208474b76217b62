import MiniTSDB.Alarm.AlarmEngine
import MiniTSDB.Lib.Double
import MiniTSDB.Lib.Numeral

/-!
# Which conditions `ParseCondition` accepts

An identifier, an operator, a decimal number: that is a condition. The parser looks for an operator
anywhere in the text and converts what is behind it as far as it is a number, so it accepts more
than that; on everything that no number follows it does what it should.
-/

namespace MiniTSDB
namespace Alarm

open Lib Sql

/-- `AlarmRule::Evaluate`. -/
def AlarmRule.evaluate (r : AlarmRule) (value : UInt64) : Bool :=
  if r.op = ascii ">" then Double.lt r.threshold value
  else if r.op = ascii "<" then Double.lt value r.threshold
  else if r.op = ascii ">=" then Double.le r.threshold value
  else if r.op = ascii "<=" then Double.le value r.threshold
  else if r.op = ascii "==" then Double.eq value r.threshold
  else if r.op = ascii "!=" then !Double.eq value r.threshold
  else false

/-- `std::stod`, which converts the longest numeral and throws if there is none; `value` is what a
numeral converts to. -/
def stodOf (value : Bytes → UInt64) (text : Bytes) : Option UInt64 :=
  (Numeral.numericPrefix text).map value

/-! ## The grammar -/

def isLetter (c : UInt8) : Bool := (65 ≤ c && c ≤ 90) || (97 ≤ c && c ≤ 122) || c = 95

/-- Letters, digits and `_`, the first no digit. -/
def isIdentifier (name : Bytes) : Bool :=
  name.head?.any isLetter && name.all fun c => isLetter c || Numeral.isDigit c

/-- The condition without its white space. -/
def withoutSpaces (condition : Bytes) : Bytes := condition.filter fun c => !isSpaceChar c

/-- The text is an identifier, the operator and the number, and nothing else. -/
def HasForm (expr op num : Bytes) : Prop :=
  op ∈ conditionOps ∧ Numeral.isDecimal num = true ∧
    ∃ name, isIdentifier name = true ∧ expr = name ++ (op ++ num)

/-- The comparison that an operator stands for, of the numbers. -/
def Compares (op : Bytes) (value threshold : UInt64) : Prop :=
  if op = ascii ">" then Double.Related (· < ·) threshold value
  else if op = ascii "<" then Double.Related (· < ·) value threshold
  else if op = ascii ">=" then Double.Related (· ≤ ·) threshold value
  else if op = ascii "<=" then Double.Related (· ≤ ·) value threshold
  else if op = ascii "==" then Double.Related (· = ·) value threshold
  else if op = ascii "!=" then ¬ Double.Related (· = ·) value threshold
  else False

/-- `ParseCondition` accepts the condition exactly if it has the form, and reads its operator and
its number; a rule with these compares with that number. -/
structure ParsesGrammar (value : Bytes → UInt64) (condition : Bytes) : Prop where
  accepts : (∃ parsed, parseCondition (stodOf value) condition = some parsed) ↔
    ∃ op num, HasForm (withoutSpaces condition) op num
  reads : ∀ op threshold, parseCondition (stodOf value) condition = some (op, threshold) →
    ∃ num, HasForm (withoutSpaces condition) op num ∧ threshold = value num ∧
      ∀ (r : AlarmRule) (x : UInt64),
        { r with op := op, threshold := threshold }.evaluate x = true ↔ Compares op x (value num)

/-- The operator that the parser takes: of those that occur, the first in its order. -/
def firstOperator (expr : Bytes) : Option (Bytes × Nat) :=
  conditionOps.findSome? fun op => (find op expr).map fun pos => (op, pos)

/-- If the operator is followed by something that starts with a number, then an identifier is in
front of it and the number is all that follows. -/
def NothingElse (expr : Bytes) : Prop :=
  ∀ op pos, firstOperator expr = some (op, pos) →
    (Numeral.numericPrefix (expr.drop (pos + op.length))).isSome = true →
    isIdentifier (expr.take pos) = true ∧
      Numeral.isDecimal (expr.drop (pos + op.length)) = true

/-! ## `Evaluate` -/

/-- **A rule decides the comparison of its operator.** -/
theorem evaluate_iff (r : AlarmRule) (x : UInt64) :
    r.evaluate x = true ↔ Compares r.op x r.threshold := by
  unfold AlarmRule.evaluate Compares
  split
  · exact Double.lt_iff
  split
  · exact Double.lt_iff
  split
  · exact Double.le_iff
  split
  · exact Double.le_iff
  split
  · exact Double.eq_iff
  split
  · rw [Bool.not_eq_true', ← Bool.not_eq_true, Double.eq_iff]
  · simp

/-! ## Where the operator is found -/

/-- The characters of the operators. -/
def isOpChar (c : UInt8) : Bool := c = 33 || (60 ≤ c && c ≤ 62)

theorem isOpChar_of_mem : ∀ op ∈ conditionOps, op ≠ [] ∧ ∀ c ∈ op, isOpChar c = true := by
  have hall : ∀ op ∈ conditionOps, op ≠ [] ∧ op.all isOpChar = true := by decide
  exact fun op hop => ⟨(hall op hop).1, List.all_eq_true.mp (hall op hop).2⟩

theorem isOpChar_cases {c : UInt8} (h : isOpChar c = true) : c = 33 ∨ c = 60 ∨ c = 61 ∨ c = 62 := by
  simp only [isOpChar, Bool.or_eq_true, Bool.and_eq_true, decide_eq_true_eq,
    UInt8.le_iff_toNat_le, ← UInt8.toNat_inj] at h ⊢
  change c.toNat = 33 ∨ 60 ≤ c.toNat ∧ c.toNat ≤ 62 at h
  change c.toNat = 33 ∨ c.toNat = 60 ∨ c.toNat = 61 ∨ c.toNat = 62
  omega

/-- No such character is of a kind that none of the four is of. -/
theorem not_isOpChar {p : UInt8 → Bool} (h : p 33 = false ∧ p 60 = false ∧ p 61 = false ∧ p 62 = false)
    {c : UInt8} (hc : p c = true) : isOpChar c = false := by
  by_contra hop
  rw [Bool.not_eq_false] at hop
  rcases isOpChar_cases hop with rfl | rfl | rfl | rfl
  · rw [h.1] at hc
    cases hc
  · rw [h.2.1] at hc
    cases hc
  · rw [h.2.2.1] at hc
    cases hc
  · rw [h.2.2.2] at hc
    cases hc

/-- A text that shares no character with the pattern, in front of another one, is passed over. -/
theorem find_passes {pat a b s : Bytes} (hne : pat ≠ []) (ha : ∀ c ∈ a, c ∉ pat)
    (hb : ∀ c ∈ b, c ∉ pat) : find pat (a ++ (s ++ b)) = (find pat s).map (· + a.length) := by
  have hbehind : find pat (s ++ b) = find pat s := by
    cases hfind : find pat s with
    | some i => exact find_append_of_find b hfind
    | none =>
      rcases b with _ | ⟨c, b⟩
      · rw [List.append_nil, hfind]
      · have hrest : find pat b = none := by
          rw [find_eq_none_iff]
          intro hwithin
          obtain ⟨d, hd⟩ := List.exists_mem_of_ne_nil pat hne
          exact hb d (List.mem_cons_of_mem c (hwithin.subset hd)) hd
        rw [find_append_cons (hb c List.mem_cons_self) hne, hfind, hrest]
        rfl
  rw [find_append a, hbehind]
  intro i hi hfront
  obtain ⟨d, pat', rfl⟩ := List.exists_cons_of_ne_nil hne
  rw [List.drop_eq_getElem_cons hi, List.cons_append, List.cons_prefix_cons] at hfront
  exact ha _ (List.getElem_mem hi) (hfront.1 ▸ List.mem_cons_self)

theorem chars_of_isIdentifier {name : Bytes} (h : isIdentifier name = true) :
    ∀ c ∈ name, isOpChar c = false := by
  intro c hc
  rw [isIdentifier, Bool.and_eq_true, List.all_eq_true] at h
  exact not_isOpChar (p := fun c => isLetter c || Numeral.isDigit c) (by decide) (h.2 c hc)

/-- **The operator of a text that has the form is found where it is.** -/
theorem firstOperator_of_form {name op num : Bytes} (hop : op ∈ conditionOps)
    (hname : isIdentifier name = true) (hnum : Numeral.isDecimal num = true) :
    firstOperator (name ++ (op ++ num)) = some (op, name.length) := by
  have hfind : ∀ pat ∈ conditionOps,
      find pat (name ++ (op ++ num)) = (find pat op).map (· + name.length) := by
    intro pat hpat
    obtain ⟨hne, hchars⟩ := isOpChar_of_mem pat hpat
    refine find_passes hne (fun c hc hin => ?_) fun c hc hin => ?_
    · have hnot := chars_of_isIdentifier hname c hc
      rw [hchars c hin] at hnot
      cases hnot
    · have hnot : isOpChar c = false := not_isOpChar (p := Numeral.isDecimalChar) (by decide)
        (Numeral.chars_of_isDecimal hnum c hc)
      rw [hchars c hin] at hnot
      cases hnot
  unfold conditionOps at hop hfind
  rw [firstOperator]
  unfold conditionOps
  simp only [List.mem_cons, List.not_mem_nil, or_false, forall_eq_or_imp, forall_eq] at hop hfind
  obtain ⟨hge, hle, hne, heq, hgt, hlt⟩ := hfind
  simp only [List.findSome?_cons, List.findSome?_nil, hge, hle, hne, heq, hgt, hlt]
  rcases hop with rfl | rfl | rfl | rfl | rfl | rfl
  all_goals exact congrArg (fun pos => some (_, pos)) (Nat.zero_add _)

/-- What is found is in the text. -/
theorem firstOperator_eq_some {expr op : Bytes} {pos : Nat} (h : firstOperator expr = some (op, pos)) :
    op ∈ conditionOps ∧ expr = expr.take pos ++ (op ++ expr.drop (pos + op.length)) := by
  obtain ⟨pat, hmem, hfound⟩ := List.exists_of_findSome?_eq_some h
  obtain ⟨i, hi, heq⟩ := Option.map_eq_some_iff.mp hfound
  cases heq
  obtain ⟨hstarts, -⟩ := find_eq_some hi
  obtain ⟨rest, hrest⟩ := hstarts
  have hdrop : expr.drop (pos + op.length) = rest := by
    rw [← List.drop_drop, ← hrest, List.drop_left]
  refine ⟨hmem, ?_⟩
  rw [hdrop, hrest, List.take_append_drop]

/-- What the parser makes of a condition. -/
theorem parseCondition_eq (value : Bytes → UInt64) (condition : Bytes) :
    parseCondition (stodOf value) condition
      = (firstOperator (withoutSpaces condition)).bind fun found =>
        (Numeral.numericPrefix ((withoutSpaces condition).drop (found.2 + found.1.length))).map
          fun num => (found.1, value num) := by
  rw [parseCondition]
  show (firstOperator (withoutSpaces condition) >>= fun found =>
    (stodOf value ((withoutSpaces condition).drop (found.2 + found.1.length))) >>= fun threshold =>
      pure (found.1, threshold)) = _
  cases firstOperator (withoutSpaces condition) with
  | none => rfl
  | some found =>
    show (stodOf value _ >>= _) = Option.map _ _
    unfold stodOf
    cases Numeral.numericPrefix ((withoutSpaces condition).drop (found.2 + found.1.length)) with
    | none => rfl
    | some num => rfl

/-! ## The conditions it should accept -/

theorem firstOperator_of_hasForm {expr op num : Bytes} (h : HasForm expr op num) :
    ∃ pos, firstOperator expr = some (op, pos) ∧ isIdentifier (expr.take pos) = true ∧
      expr.drop (pos + op.length) = num := by
  obtain ⟨hop, hnum, name, hname, rfl⟩ := h
  refine ⟨name.length, firstOperator_of_form hop hname hnum, ?_, ?_⟩
  · rwa [List.take_left]
  · rw [← List.drop_drop, List.drop_left, List.drop_left]

/-- A condition of the form is read as it says. -/
theorem parseCondition_of_hasForm (value : Bytes → UInt64) {condition op num : Bytes}
    (h : HasForm (withoutSpaces condition) op num) :
    parseCondition (stodOf value) condition = some (op, value num) := by
  obtain ⟨pos, hfirst, -, hdrop⟩ := firstOperator_of_hasForm h
  rw [parseCondition_eq, hfirst, Option.bind_some, hdrop,
    Numeral.numericPrefix_of_isDecimal h.2.1]
  rfl

/-- **When the parser keeps to its grammar.** -/
theorem parsesGrammar_iff (value : Bytes → UInt64) (condition : Bytes) :
    ParsesGrammar value condition ↔ NothingElse (withoutSpaces condition) := by
  constructor
  · intro h op pos hfirst hsome
    obtain ⟨num, hnum⟩ := Option.isSome_iff_exists.mp hsome
    have hparse : parseCondition (stodOf value) condition = some (op, value num) := by
      rw [parseCondition_eq, hfirst, Option.bind_some, hnum]
      rfl
    obtain ⟨num', hform, -⟩ := h.reads op (value num) hparse
    obtain ⟨pos', hfirst', hname, hdrop⟩ := firstOperator_of_hasForm hform
    rw [hfirst] at hfirst'
    cases hfirst'
    exact ⟨hname, hdrop ▸ hform.2.1⟩
  · intro h
    -- What is accepted has the form: the operator is followed by a number.
    have hreads : ∀ op threshold,
        parseCondition (stodOf value) condition = some (op, threshold) →
        ∃ num, HasForm (withoutSpaces condition) op num ∧ threshold = value num := by
      intro op threshold hparse
      rw [parseCondition_eq] at hparse
      obtain ⟨found, hfirst, hmap⟩ := Option.bind_eq_some_iff.mp hparse
      obtain ⟨num, hnum, heq⟩ := Option.map_eq_some_iff.mp hmap
      obtain ⟨op', pos⟩ := found
      cases heq
      obtain ⟨hname, hdecimal⟩ := h op' pos hfirst (Option.isSome_iff_exists.mpr ⟨num, hnum⟩)
      obtain ⟨hop, hsplit⟩ := firstOperator_eq_some hfirst
      have hwhole := Numeral.numericPrefix_of_isDecimal hdecimal
      rw [hnum] at hwhole
      cases hwhole
      exact ⟨_, ⟨hop, hdecimal, _, hname, hsplit⟩, rfl⟩
    constructor
    · constructor
      · rintro ⟨⟨op, threshold⟩, hparse⟩
        obtain ⟨num, hform, -⟩ := hreads op threshold hparse
        exact ⟨op, num, hform⟩
      · rintro ⟨op, num, hform⟩
        exact ⟨_, parseCondition_of_hasForm value hform⟩
    · intro op threshold hparse
      obtain ⟨num, hform, heq⟩ := hreads op threshold hparse
      refine ⟨num, hform, heq, fun r x => ?_⟩
      rw [evaluate_iff, heq]

/-- `value > 5abc` is accepted, as a comparison with 5. -/
theorem condition_trailing_text : ¬ ParsesGrammar (fun _ => 0x4014000000000000)
    (ascii "value > 5abc") := by
  intro h
  have hparse : parseCondition (stodOf fun _ => 0x4014000000000000) (ascii "value > 5abc")
      = some (ascii ">", 0x4014000000000000) := by decide
  obtain ⟨num, hform, -⟩ := h.reads _ _ hparse
  obtain ⟨pos, hfirst, -, hdrop⟩ := firstOperator_of_hasForm hform
  have hat : firstOperator (withoutSpaces (ascii "value > 5abc")) = some (ascii ">", 5) := by decide
  rw [hat] at hfirst
  cases hfirst
  have hdecimal := hform.2.1
  rw [← hdrop] at hdecimal
  exact absurd hdecimal (by decide)

end Alarm
end MiniTSDB
