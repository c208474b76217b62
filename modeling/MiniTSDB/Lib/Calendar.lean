import Mathlib.Data.Int.ConditionallyCompleteOrder
import Mathlib.Data.Nat.Find
import Mathlib.Order.Monotone.Basic
import Mathlib.Algebra.Order.Group.Int
import Mathlib.Order.SuccPred.IntervalSucc
import Mathlib.Tactic.IntervalCases

/-!
# The proleptic Gregorian calendar

Dates and the seconds since the epoch, both ways, as `timegm` and `gmtime` count them: every day
has 86400 seconds, and a month outside the year is one of another year.
-/

namespace MiniTSDB
namespace Lib
namespace Calendar

def isLeap (y : Int) : Bool := y % 4 = 0 && (y % 100 ≠ 0 || y % 400 = 0)

/-- The days of the years 1 to `y - 1`. -/
def daysBefore (y : Int) : Int := 365 * (y - 1) + (y - 1) / 4 - (y - 1) / 100 + (y - 1) / 400

def monthLengths (y : Int) : List Nat :=
  [31, if isLeap y then 29 else 28, 31, 30, 31, 30, 31, 31, 30, 31, 30, 31]

/-- The days of the first `m` months of the year. -/
def daysBeforeMonth (y : Int) (m : Nat) : Nat := ((monthLengths y).take m).sum

/-- 1970-01-01, in days from 0001-01-01 on. -/
def epoch : Int := 719162

/-- Days since the epoch; the months are counted from 0, and the days from 1. -/
def epochDay (y : Int) (m : Nat) (d : Int) : Int := daysBefore y + daysBeforeMonth y m + (d - 1) - epoch

/-- A date and a time of day. -/
structure Time where
  year : Int
  month : Int
  day : Int
  hour : Int
  minute : Int
  second : Int
  deriving DecidableEq, Repr

/-- `timegm`: the month may be any number, and is brought into the year first. -/
def timegm (t : Time) : Int :=
  epochDay (t.year + t.month / 12) (t.month % 12).toNat t.day * 86400 + t.hour * 3600
    + t.minute * 60 + t.second

/-- The year a day is in: within a cycle of 400 years, the last that begins before it. -/
def yearOf (n : Int) : Int :=
  400 * ((n + epoch) / 146097)
    + Nat.findGreatest (fun k => 365 * k + k / 4 - k / 100 ≤ ((n + epoch) % 146097).toNat) 399 + 1

/-- `gmtime`. -/
def gmtime (sec : Int) : Time :=
  let n := sec / 86400
  let rest := sec % 86400
  let y := yearOf n
  let dayOfYear := (n + epoch - daysBefore y).toNat
  let m := Nat.findGreatest (fun m => daysBeforeMonth y m ≤ dayOfYear) 11
  { year := y, month := m, day := dayOfYear - daysBeforeMonth y m + 1, hour := rest / 3600,
    minute := rest % 3600 / 60, second := rest % 60 }

/-! ## Years -/

theorem daysBefore_lt_succ (y : Int) : daysBefore y < daysBefore (y + 1) := by
  unfold daysBefore
  omega

theorem daysBefore_strictMono : StrictMono daysBefore := strictMono_int_of_lt_succ daysBefore_lt_succ

/-- A year within its cycle. -/
theorem daysBefore_cycle (c : Int) {k : Nat} (hk : k ≤ 399) :
    daysBefore (400 * c + k + 1) = 146097 * c + (365 * k + k / 4 - k / 100 : Nat) := by
  have h4 : (400 * c + k + 1 - 1) / 4 = 100 * c + (k / 4 : Nat) := by omega
  have h100 : (400 * c + k + 1 - 1) / 100 = 4 * c + (k / 100 : Nat) := by omega
  have h400 : (400 * c + k + 1 - 1) / 400 = c := by omega
  have hle : k / 100 ≤ 365 * k + k / 4 := by omega
  unfold daysBefore
  rw [h4, h100, h400, Nat.cast_sub hle]
  push_cast
  omega

/-- **A day is in the year that `yearOf` says.** -/
theorem yearOf_spec (n : Int) :
    daysBefore (yearOf n) ≤ n + epoch ∧ n + epoch < daysBefore (yearOf n + 1) := by
  obtain ⟨c, hc⟩ : ∃ c, c = (n + epoch) / 146097 := ⟨_, rfl⟩
  obtain ⟨d, hd⟩ : ∃ d, d = ((n + epoch) % 146097).toNat := ⟨_, rfl⟩
  have hsplit : n + epoch = 146097 * c + d := by omega
  have hlt : d < 146097 := by omega
  obtain ⟨k, hk⟩ : ∃ k, k = Nat.findGreatest (fun k => 365 * k + k / 4 - k / 100 ≤ d) 399 :=
    ⟨_, rfl⟩
  have hle : k ≤ 399 := hk ▸ Nat.findGreatest_le 399
  have hbegins : 365 * k + k / 4 - k / 100 ≤ d := by
    rw [hk]
    exact Nat.findGreatest_spec (P := fun k => 365 * k + k / 4 - k / 100 ≤ d) (Nat.zero_le 399)
      (Nat.zero_le d)
  have hlast : k < 399 → d < 365 * (k + 1) + (k + 1) / 4 - (k + 1) / 100 := by
    intro hklt
    have hnot := Nat.findGreatest_is_greatest (P := fun k => 365 * k + k / 4 - k / 100 ≤ d)
      (n := 399) (k := k + 1) (by omega) (by omega)
    omega
  have hyear : yearOf n = 400 * c + k + 1 := by rw [yearOf, ← hc, ← hd, ← hk]
  rw [hyear, hsplit, daysBefore_cycle c hle]
  constructor
  · omega
  · by_cases hend : k = 399
    · -- the last year of a cycle ends where the next cycle begins
      have hnext := daysBefore_cycle (c + 1) (Nat.zero_le 399)
      have hsame : 400 * c + (k : Int) + 1 + 1 = 400 * (c + 1) + (0 : Nat) + 1 := by omega
      rw [hsame, hnext]
      omega
    · have hnext := daysBefore_cycle c (k := k + 1) (by omega)
      have hday := hlast (by omega)
      have hsame : 400 * c + (k : Int) + 1 + 1 = 400 * c + (k + 1 : Nat) + 1 := by omega
      rw [hsame, hnext]
      omega

theorem yearOf_lt_iff {n y : Int} : yearOf n < y ↔ n + epoch < daysBefore y := by
  obtain ⟨hle, hlt⟩ := yearOf_spec n
  constructor
  · intro h
    exact hlt.trans_le (daysBefore_strictMono.monotone h)
  · intro h
    exact daysBefore_strictMono.lt_iff_lt.mp (hle.trans_lt h)

theorem daysBeforeMonth_le (y : Int) {m : Nat} (h : m ≤ 11) : daysBeforeMonth y m ≤ 335 := by
  unfold daysBeforeMonth monthLengths
  interval_cases m <;> simp <;> split <;> omega

theorem le_daysBeforeMonth (y : Int) {m : Nat} (h : m ≤ 11) : m ≤ daysBeforeMonth y m := by
  unfold daysBeforeMonth monthLengths
  interval_cases m <;> simp <;> split <;> omega

/-- A day of a month, and a time of day. -/
structure Time.Plain (t : Time) : Prop where
  day : 1 ≤ t.day ∧ t.day ≤ 31
  hour : 0 ≤ t.hour ∧ t.hour < 24
  minute : 0 ≤ t.minute ∧ t.minute < 60
  second : 0 ≤ t.second ∧ t.second < 60

/-- Such a time is in its year, or on the day behind its end. -/
theorem timegm_bounds {t : Time} (h : t.Plain) {y : Int} (hy : t.year + t.month / 12 = y) :
    (daysBefore y - epoch) * 86400 ≤ timegm t ∧
      timegm t < (daysBefore y - epoch + 366) * 86400 := by
  obtain ⟨hday, hday'⟩ := h.day
  obtain ⟨hhour, hhour'⟩ := h.hour
  obtain ⟨hminute, hminute'⟩ := h.minute
  obtain ⟨hsecond, hsecond'⟩ := h.second
  have hmonth : daysBeforeMonth y (t.month % 12).toNat ≤ 335 := daysBeforeMonth_le y (by omega)
  unfold timegm epochDay
  rw [hy]
  omega

example : gmtime 1779532200
    = { year := 2026, month := 4, day := 23, hour := 10, minute := 30, second := 0 } := by
  decide +kernel

end Calendar
end Lib
end MiniTSDB
