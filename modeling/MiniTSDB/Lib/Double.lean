import Mathlib.Data.EReal.Basic
import Mathlib.Data.Int.ConditionallyCompleteOrder

/-!
# Comparing doubles

A `double` is its bit pattern. Every finite one is a multiple of the smallest there is, so two of
them are compared as integers; an infinity counts as the number that would be next, and a NaN
compares with nothing. `lt_iff`, `le_iff` and `eq_iff` say that these are the comparisons of the
numbers the patterns stand for.
-/

namespace MiniTSDB
namespace Lib
namespace Double

def sign (x : UInt64) : Bool := 2 ^ 63 ≤ x.toNat

/-- The exponent, as it is stored. -/
def exponent (x : UInt64) : Nat := x.toNat / 2 ^ 52 % 2 ^ 11

def mantissa (x : UInt64) : Nat := x.toNat % 2 ^ 52

def isNan (x : UInt64) : Bool := exponent x = 2047 && mantissa x ≠ 0

/-- The absolute value, in units of the smallest double, `2 ^ (-1074)`. -/
def magnitude (x : UInt64) : Nat :=
  if exponent x = 0 then mantissa x else (2 ^ 52 + mantissa x) * 2 ^ (exponent x - 1)

def number (x : UInt64) : Int := if sign x then -(magnitude x : Int) else magnitude x

/-- `x < y` -/
def lt (x y : UInt64) : Bool := !isNan x && !isNan y && decide (number x < number y)

/-- `x <= y` -/
def le (x y : UInt64) : Bool := !isNan x && !isNan y && decide (number x ≤ number y)

/-- `x == y` -/
def eq (x y : UInt64) : Bool := !isNan x && !isNan y && decide (number x = number y)

/-! ## The numbers they stand for -/

/-- The magnitude of an infinity. -/
def infinity : Nat := 2 ^ 52 * 2 ^ 2046

/-- So many units; from the magnitude of an infinity on it is that. -/
noncomputable def ofUnits (n : Int) : EReal :=
  if (infinity : Int) ≤ n then ⊤
  else if n ≤ -(infinity : Int) then ⊥
  else ((n * ((2 : ℝ) ^ 1074)⁻¹ : ℝ) : EReal)

/-- The number; a NaN is none. -/
noncomputable def value (x : UInt64) : Option EReal :=
  if isNan x then none else some (ofUnits (number x))

theorem magnitude_le {x : UInt64} (h : isNan x = false) : magnitude x ≤ infinity := by
  have hmantissa : mantissa x < 2 ^ 52 := Nat.mod_lt _ (Nat.two_pow_pos 52)
  have hexponent : exponent x < 2 ^ 11 := Nat.mod_lt _ (Nat.two_pow_pos 11)
  unfold magnitude infinity
  by_cases hzero : exponent x = 0
  · rw [if_pos hzero]
    exact hmantissa.le.trans (Nat.le_mul_of_pos_right _ (Nat.pow_pos Nat.zero_lt_two))
  rw [if_neg hzero]
  by_cases htop : exponent x = 2047
  · have hnone : mantissa x = 0 := by
      by_contra hne
      rw [isNan] at h
      simp [htop, hne] at h
    rw [htop, hnone, Nat.add_zero]
  · calc (2 ^ 52 + mantissa x) * 2 ^ (exponent x - 1)
        ≤ (2 ^ 52 * 2) * 2 ^ 2045 :=
          Nat.mul_le_mul (by omega) (Nat.pow_le_pow_right (by omega) (by omega))
      _ = 2 ^ 52 * 2 ^ 2046 := by rw [Nat.mul_assoc, ← Nat.pow_succ']

theorem number_mem {x : UInt64} (h : isNan x = false) :
    number x ∈ Set.Icc (-(infinity : Int)) infinity := by
  have hle := magnitude_le h
  rw [Set.mem_Icc, number]
  split
  · omega
  · omega

/-- **The numbers are ordered as their units are**, infinities included. -/
theorem ofUnits_strictMonoOn : StrictMonoOn ofUnits (Set.Icc (-(infinity : Int)) infinity) := by
  intro m hm n hn hlt
  rw [Set.mem_Icc] at hm hn
  have hmtop : ¬ (infinity : Int) ≤ m := by omega
  have hnbot : ¬ n ≤ -(infinity : Int) := by omega
  unfold ofUnits
  rw [if_neg hmtop, if_neg hnbot]
  by_cases hntop : (infinity : Int) ≤ n
  · rw [if_pos hntop]
    split
    · exact bot_lt_top
    · exact EReal.coe_lt_top _
  rw [if_neg hntop]
  by_cases hmbot : m ≤ -(infinity : Int)
  · rw [if_pos hmbot]
    exact EReal.bot_lt_coe _
  · rw [if_neg hmbot, EReal.coe_lt_coe_iff]
    have hunit : (0 : ℝ) < ((2 : ℝ) ^ 1074)⁻¹ := inv_pos.mpr (pow_pos two_pos 1074)
    exact mul_lt_mul_of_pos_right (by exact_mod_cast hlt) hunit

/-- What a comparison of two doubles says of the numbers. -/
def Related (r : EReal → EReal → Prop) (x y : UInt64) : Prop :=
  ∃ a ∈ value x, ∃ b ∈ value y, r a b

section
variable {x y : UInt64}

theorem related_iff (r : EReal → EReal → Prop) : Related r x y ↔
    isNan x = false ∧ isNan y = false ∧ r (ofUnits (number x)) (ofUnits (number y)) := by
  unfold Related value
  cases isNan x <;> cases isNan y <;> simp

theorem lt_iff : lt x y = true ↔ Related (· < ·) x y := by
  rw [related_iff, lt, Bool.and_eq_true, Bool.and_eq_true, Bool.not_eq_true', Bool.not_eq_true',
    decide_eq_true_iff, and_assoc]
  refine and_congr_right fun hx => and_congr_right fun hy => ?_
  exact (StrictMonoOn.lt_iff_lt ofUnits_strictMonoOn (number_mem hx) (number_mem hy)).symm

theorem le_iff : le x y = true ↔ Related (· ≤ ·) x y := by
  rw [related_iff, le, Bool.and_eq_true, Bool.and_eq_true, Bool.not_eq_true', Bool.not_eq_true',
    decide_eq_true_iff, and_assoc]
  refine and_congr_right fun hx => and_congr_right fun hy => ?_
  exact (StrictMonoOn.le_iff_le ofUnits_strictMonoOn (number_mem hx) (number_mem hy)).symm

theorem eq_iff : eq x y = true ↔ Related (· = ·) x y := by
  rw [related_iff, eq, Bool.and_eq_true, Bool.and_eq_true, Bool.not_eq_true', Bool.not_eq_true',
    decide_eq_true_iff, and_assoc]
  refine and_congr_right fun hx => and_congr_right fun hy => ?_
  have hinjective := StrictMonoOn.injOn ofUnits_strictMonoOn
  exact (Set.InjOn.eq_iff hinjective (number_mem hx) (number_mem hy)).symm

end

end Double
end Lib
end MiniTSDB
