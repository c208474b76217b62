import MiniTSDB.Lib.Calendar
import MiniTSDB.Lib.Decimal
import MiniTSDB.Lib.Numeral
import MiniTSDB.Sql.Insert

/-!
# Times as text (`ParseTimeString`, `FormatTimestamp`)

A timestamp is formatted as microseconds. A text is parsed with `std::get_time`, which fills in the
year since 1900 and the month from 0; then 1900 and 1 are taken off again, and the seconds are
multiplied by 1000. What comes of a date and is formatted is a time in the years 1968 to 1976, and
never that date (`formatTimestamp_parseTimeString`).
-/

namespace MiniTSDB
namespace Sql

open Lib Calendar

/-! ## `ParseTimeString` -/

/-- `std::tm`. -/
structure Tm where
  year : Int := 0
  mon : Int := 0
  mday : Int := 0
  hour : Int := 0
  min : Int := 0
  sec : Int := 0
  deriving DecidableEq, Repr

/-- A number of so many digits in a range, as `std::get_time` reads one. -/
def getNumber (width low high : Nat) (s : Bytes) : Option (Nat × Bytes) :=
  let digits := s.take width
  if digits.length = width ∧ digits.all isDigit ∧ low ≤ digitsValue digits ∧
      digitsValue digits ≤ high then
    some (digitsValue digits, s.drop width)
  else none

/-- The character, and what is behind it. -/
def getChar (c : UInt8) : Bytes → Option Bytes
  | [] => none
  | d :: s => if d = c then some s else none

/-- `std::get_time(&tm, "%Y-%m-%d")`; the library does not say what is in `tm` when it fails. -/
def getDate (s : Bytes) : Option (Tm × Bytes) := do
  let (year, s) ← getNumber 4 0 9999 (s.dropWhile isSpaceChar)
  let s ← getChar 45 s
  let (month, s) ← getNumber 2 1 12 s
  let s ← getChar 45 s
  let (day, s) ← getNumber 2 1 31 s
  return ({ year := year - 1900, mon := month - 1, mday := day }, s)

/-- `iss >> n`: what is stored, and what is behind it unless the stream has failed. Nothing is
stored at the end of the text. -/
def readInt (s : Bytes) : Option (Int × Option Bytes) :=
  match s.dropWhile isSpaceChar with
  | [] => none
  | c :: body =>
    let digits := (Numeral.dropSign (c :: body)).takeWhile isDigit
    let n : Int := if c = 45 then -digitsValue digits else digitsValue digits
    if digits = [] then some (0, none)
    else if n < -2 ^ 31 then some (-2 ^ 31, none)
    else if 2 ^ 31 ≤ n then some (2 ^ 31 - 1, none)
    else some (n, some ((Numeral.dropSign (c :: body)).dropWhile isDigit))

/-- `iss >> c` -/
def readChar (s : Bytes) : Option Bytes :=
  match s.dropWhile isSpaceChar with
  | [] => none
  | _ :: rest => some rest

/-- `iss >> h >> colon >> m >> colon >> sec`; none where a variable would not be written. -/
def readTime (s : Bytes) : Option (Int × Int × Int) := do
  let (h, s) ← readInt s
  let s ← readChar (← s)
  let (m, s) ← readInt s
  let s ← readChar (← s)
  let (sec, _) ← readInt s
  return (h, m, sec)

def Tm.time (tm : Tm) : Time where
  year := tm.year + 1900
  month := tm.mon
  day := tm.mday
  hour := tm.hour
  minute := tm.min
  second := tm.sec

/-- `std::mktime`, with UTC for the local time. -/
def mktime (tm : Tm) : Int := timegm tm.time

/-- The time of day behind the date, if the text has a `T` or a space. -/
def readTimeOfDay (s : Bytes) (tm : Tm) (rest : Bytes) : Option Tm :=
  if 84 ∈ s ∨ space ∈ s then do
    let sep : UInt8 := if 84 ∈ s then 84 else space
    let (h, m, sec) ← readTime ((getChar sep rest).getD rest)
    return { tm with hour := h, min := m, sec := sec }
  else some tm

/-- `ParseTimeString`; none where the standard does not say what the code computes with. -/
def parseTimeString (s : Bytes) : Option Timestamp :=
  if s = [] then some 0
  else do
    let (tm, rest) ← getDate s
    let tm ← readTimeOfDay s tm rest
    let epoch := mktime { tm with year := tm.year - 1900, mon := tm.mon - 1 }
    return if epoch = -1 then 0 else Int64.ofInt epoch * 1000

/-! ## `FormatTimestamp` -/

/-- `std::setfill('0') << std::setw(width)` -/
def zeroFilled (width : Nat) (text : Bytes) : Bytes :=
  List.replicate (width - text.length) 48 ++ text

/-- `%Y-%m-%d %H:%M:%S` -/
def strftime (t : Time) : Bytes :=
  decimal t.year ++ 45 :: (zeroFilled 2 (decimal (t.month + 1)) ++ 45 :: (zeroFilled 2 (decimal t.day)
    ++ space :: (zeroFilled 2 (decimal t.hour) ++ 58 :: (zeroFilled 2 (decimal t.minute)
      ++ 58 :: zeroFilled 2 (decimal t.second)))))

/-- `FormatTimestamp`. -/
def formatTimestamp (ts : Timestamp) : Bytes :=
  if ts = 0 then ascii "0"
  else
    strftime (gmtime (ts / 1000000).toInt)
      ++ dot :: zeroFilled 6 (decimal (ts % 1000000).toInt)

example : formatTimestamp 1779532200000001 = ascii "2026-05-23 10:30:00.000001" := by
  decide +kernel

/-! ## Dates and their texts -/

def twoDigits (n : Nat) : Bytes := [digitByte (n / 10), digitByte (n % 10)]

def fourDigits (n : Nat) : Bytes :=
  [digitByte (n / 1000), digitByte (n / 100 % 10), digitByte (n / 10 % 10), digitByte (n % 10)]

/-- A date of a year with four digits, and a time of day in seconds. -/
structure CivilTime where
  year : Nat
  month : Nat
  day : Nat
  hour : Nat
  minute : Nat
  second : Nat
  year_le : year ≤ 9999
  month_range : 1 ≤ month ∧ month ≤ 12
  day_range : 1 ≤ day ∧ day ≤ (monthLengths year).getD (month - 1) 0
  hour_lt : hour < 24
  minute_lt : minute < 60
  second_lt : second < 60

/-- From 1970-01-02 to 9999-12-31. -/
structure DateTime extends CivilTime where
  le_year : 1970 ≤ year
  not_epoch : year = 1970 → month = 1 → 2 ≤ day

/-- `YYYY-MM-DD`, `YYYY-MM-DD HH:MM:SS` and `YYYY-MM-DDTHH:MM:SSZ`. -/
inductive DateFormat
  | date
  | spaced
  | iso

namespace CivilTime

variable (dt : CivilTime)

def dateText : Bytes :=
  fourDigits dt.year ++ 45 :: (twoDigits dt.month ++ 45 :: twoDigits dt.day)

def clockText : Bytes :=
  twoDigits dt.hour ++ 58 :: (twoDigits dt.minute ++ 58 :: twoDigits dt.second)

def text : DateFormat → Bytes
  | .date => dt.dateText
  | .spaced => dt.dateText ++ space :: dt.clockText
  | .iso => dt.dateText ++ 84 :: (dt.clockText ++ [90])

/-- What a text means: a date alone is midnight. -/
def meant : DateFormat → Time
  | .date => { year := dt.year, month := dt.month - 1, day := dt.day, hour := 0, minute := 0,
               second := 0 }
  | _ => { year := dt.year, month := dt.month - 1, day := dt.day, hour := dt.hour,
           minute := dt.minute, second := dt.second }

/-- What the code takes the text for: 1900 years and a month before it. -/
def taken (fmt : DateFormat) : Time :=
  { dt.meant fmt with year := (dt.meant fmt).year - 1900, month := (dt.meant fmt).month - 1 }

end CivilTime

/-! ## Parsing a date -/

theorem isDigit_digitByte {d : Nat} (h : d < 10) : isDigit (digitByte d) = true := by
  interval_cases d <;> rfl

theorem digitByte_toNat {d : Nat} (h : d < 10) : (digitByte d).toNat - 48 = d := by
  interval_cases d <;> rfl

theorem twoDigits_isDigit {n : Nat} (h : n < 100) : ∀ c ∈ twoDigits n, isDigit c = true := by
  simp only [twoDigits, List.forall_mem_cons]
  exact ⟨isDigit_digitByte (by omega), isDigit_digitByte (by omega), by simp⟩

theorem fourDigits_isDigit {n : Nat} (h : n < 10000) : ∀ c ∈ fourDigits n, isDigit c = true := by
  simp only [fourDigits, List.forall_mem_cons]
  exact ⟨isDigit_digitByte (by omega), isDigit_digitByte (by omega),
    isDigit_digitByte (by omega), isDigit_digitByte (by omega), by simp⟩

theorem digitsValue_twoDigits {n : Nat} (h : n < 100) : digitsValue (twoDigits n) = n := by
  simp only [twoDigits, digitsValue, List.foldl_cons, List.foldl_nil]
  rw [digitByte_toNat (by omega), digitByte_toNat (by omega)]
  omega

theorem digitsValue_fourDigits {n : Nat} (h : n < 10000) : digitsValue (fourDigits n) = n := by
  simp only [fourDigits, digitsValue, List.foldl_cons, List.foldl_nil]
  rw [digitByte_toNat (by omega), digitByte_toNat (by omega), digitByte_toNat (by omega),
    digitByte_toNat (by omega)]
  omega

theorem not_isSpaceChar_of_isDigit {c : UInt8} (h : isDigit c = true) : isSpaceChar c = false := by
  simp only [isDigit, Bool.and_eq_true, decide_eq_true_eq, UInt8.le_iff_toNat_le] at h
  simp only [isSpaceChar, Bool.or_eq_false_iff, Bool.and_eq_false_iff, decide_eq_false_iff_not,
    UInt8.le_iff_toNat_le, ← UInt8.toNat_inj]
  simp at h ⊢
  omega

theorem dropWhile_isSpaceChar {s : Bytes} (hne : s ≠ []) (h : ∀ c ∈ s, isDigit c = true)
    (rest : Bytes) : (s ++ rest).dropWhile isSpaceChar = s ++ rest := by
  obtain ⟨c, s, rfl⟩ := List.exists_cons_of_ne_nil hne
  have hc := not_isSpaceChar_of_isDigit (h c List.mem_cons_self)
  rw [List.cons_append, List.dropWhile_cons_of_neg (by simp [hc])]

theorem getNumber_append {s : Bytes} (low high : Nat) (hdigits : ∀ c ∈ s, isDigit c = true)
    (hlow : low ≤ digitsValue s) (hhigh : digitsValue s ≤ high) (rest : Bytes) :
    getNumber s.length low high (s ++ rest) = some (digitsValue s, rest) := by
  have hall : s.all isDigit = true := List.all_eq_true.mpr hdigits
  simp only [getNumber, List.take_left, List.drop_left, hall, hlow, hhigh, and_self, if_true]

/-- A number that is read ends in front of what is no digit. -/
theorem readInt_twoDigits {n : Nat} (h : n < 100) {rest : Bytes}
    (hrest : ∀ c ∈ rest.head?, isDigit c = false) :
    readInt (twoDigits n ++ rest) = some ((n : Int), some rest) := by
  have hdigits := twoDigits_isDigit h
  have hfirst : isDigit (digitByte (n / 10)) = true := isDigit_digitByte (by omega)
  have hsign : digitByte (n / 10) ≠ 43 ∧ digitByte (n / 10) ≠ 45 := by
    constructor <;> (intro heq; rw [heq] at hfirst; exact absurd hfirst (by decide))
  have htake : (twoDigits n ++ rest).takeWhile isDigit = twoDigits n := by
    rw [List.takeWhile_append_of_pos hdigits]
    cases rest with
    | nil => simp
    | cons c rest => simp [hrest c rfl]
  have hdrop : (twoDigits n ++ rest).dropWhile isDigit = rest := by
    rw [List.dropWhile_append_of_pos hdigits]
    cases rest with
    | nil => rfl
    | cons c rest => simp [hrest c rfl]
  have hdropSign : Numeral.dropSign (twoDigits n ++ rest) = twoDigits n ++ rest := by
    simp [Numeral.dropSign, twoDigits, hsign]
  have hspace : (twoDigits n ++ rest).dropWhile isSpaceChar = twoDigits n ++ rest :=
    dropWhile_isSpaceChar (by simp [twoDigits]) hdigits rest
  unfold readInt
  rw [hspace]
  show (let digits := (Numeral.dropSign (twoDigits n ++ rest)).takeWhile isDigit
    let m : Int := if digitByte (n / 10) = 45 then -digitsValue digits else digitsValue digits
    if digits = [] then some (0, none)
    else if m < -2 ^ 31 then some (-2 ^ 31, none)
    else if 2 ^ 31 ≤ m then some (2 ^ 31 - 1, none)
    else some (m, some ((Numeral.dropSign (twoDigits n ++ rest)).dropWhile isDigit))) = _
  rw [hdropSign, htake, hdrop]
  simp only [digitsValue_twoDigits h, if_neg hsign.2]
  rw [if_neg (by simp [twoDigits]), if_neg (by omega), if_neg (by omega)]

theorem readChar_colon (rest : Bytes) : readChar (58 :: rest) = some rest := rfl

theorem getChar_cons (c : UInt8) (rest : Bytes) : getChar c (c :: rest) = some rest := if_pos rfl

namespace CivilTime

variable (dt : CivilTime)

theorem day_le : dt.day ≤ 31 := by
  obtain ⟨-, hday⟩ := dt.day_range
  refine hday.trans ?_
  rw [List.getD_eq_getElem?_getD]
  cases hlen : (monthLengths dt.year)[dt.month - 1]? with
  | none => simp
  | some n =>
    have hmem := List.mem_of_getElem? hlen
    have hall : ∀ k ∈ monthLengths dt.year, k ≤ 31 := by
      unfold monthLengths
      split <;> simp
    exact hall n hmem

/-- What `get_time` stores. -/
def tm : Tm := { year := dt.year - 1900, mon := dt.month - 1, mday := dt.day }

theorem getDate_dateText (rest : Bytes) : getDate (dt.dateText ++ rest) = some (dt.tm, rest) := by
  have hyear := dt.year_le
  obtain ⟨hmonth, hmonth'⟩ := dt.month_range
  obtain ⟨hday, -⟩ := dt.day_range
  have hday' := dt.day_le
  have hyears : ∀ s, getNumber 4 0 9999 (fourDigits dt.year ++ s) = some (dt.year, s) := by
    intro s
    have hread := getNumber_append 0 9999
      (fourDigits_isDigit (n := dt.year) (by omega)) (Nat.zero_le _)
      (by rw [digitsValue_fourDigits (by omega)]; omega) s
    rwa [digitsValue_fourDigits (by omega)] at hread
  have htwo : ∀ n low high s, n < 100 → low ≤ n → n ≤ high →
      getNumber 2 low high (twoDigits n ++ s) = some (n, s) := by
    intro n low high s hn hlow hhigh
    have hread := getNumber_append low high (twoDigits_isDigit hn)
      (by rwa [digitsValue_twoDigits hn]) (by rwa [digitsValue_twoDigits hn]) s
    rwa [digitsValue_twoDigits hn] at hread
  have hspace : (dt.dateText ++ rest).dropWhile isSpaceChar = dt.dateText ++ rest := by
    rw [dateText, List.append_assoc]
    exact dropWhile_isSpaceChar (by simp [fourDigits]) (fourDigits_isDigit (by omega)) _
  rw [getDate, hspace, dateText, List.append_assoc, hyears]
  simp only [Option.bind_eq_bind, Option.bind_some, List.cons_append, getChar_cons,
    List.append_assoc]
  rw [htwo dt.month 1 12 _ (by omega) hmonth hmonth']
  simp only [Option.bind_some, getChar_cons]
  rw [htwo dt.day 1 31 _ (by omega) hday hday']
  rfl

theorem readTime_clockText (rest : Bytes) (hrest : ∀ c ∈ rest.head?, isDigit c = false) :
    readTime (dt.clockText ++ rest) = some ((dt.hour : Int), (dt.minute : Int), (dt.second : Int)) := by
  have hhour := dt.hour_lt
  have hminute := dt.minute_lt
  have hsecond := dt.second_lt
  have hcolon : ∀ s : Bytes, ∀ c ∈ (58 :: s).head?, isDigit c = false := by
    intro s c hc
    rw [← Option.mem_some_iff.mp hc]
    rfl
  rw [readTime, clockText, List.append_assoc, List.cons_append,
    readInt_twoDigits (by omega) (hcolon _)]
  simp only [Option.bind_eq_bind, Option.bind_some, List.cons_append, readChar_colon,
    List.append_assoc]
  rw [readInt_twoDigits (by omega) (hcolon _)]
  simp only [Option.bind_some, readChar_colon]
  rw [readInt_twoDigits (by omega) hrest]
  rfl

theorem mem_dateText {c : UInt8} (h : c ∈ dt.dateText) : isDigit c = true ∨ c = 45 := by
  have hyear := dt.year_le
  have hmonth := dt.month_range.2
  have hday := dt.day_le
  simp only [dateText, List.mem_append, List.mem_cons] at h
  rcases h with h | h | h | h | h
  · exact .inl (fourDigits_isDigit (by omega) c h)
  · exact .inr h
  · exact .inl (twoDigits_isDigit (by omega) c h)
  · exact .inr h
  · exact .inl (twoDigits_isDigit (by omega) c h)

theorem mem_clockText {c : UInt8} (h : c ∈ dt.clockText) : isDigit c = true ∨ c = 58 := by
  have hhour := dt.hour_lt
  have hminute := dt.minute_lt
  have hsecond := dt.second_lt
  simp only [clockText, List.mem_append, List.mem_cons] at h
  rcases h with h | h | h | h | h
  · exact .inl (twoDigits_isDigit (by omega) c h)
  · exact .inr h
  · exact .inl (twoDigits_isDigit (by omega) c h)
  · exact .inr h
  · exact .inl (twoDigits_isDigit (by omega) c h)

/-- The time of day is read where there is one, and is midnight otherwise. -/
theorem readTimeOfDay_text (fmt : DateFormat) :
    ∃ rest tm, dt.text fmt = dt.dateText ++ rest ∧
      readTimeOfDay (dt.text fmt) dt.tm rest = some tm ∧
      Tm.time { tm with year := tm.year - 1900, mon := tm.mon - 1 } = dt.taken fmt := by
  have hletter : (84 : UInt8) ∉ dt.dateText := fun h => by simpa [isDigit] using dt.mem_dateText h
  have hspace : space ∉ dt.dateText := fun h => by simpa [isDigit, space] using dt.mem_dateText h
  have hletter' : (84 : UInt8) ∉ dt.clockText := fun h => by
    simpa [isDigit] using dt.mem_clockText h
  cases fmt with
  | date =>
    refine ⟨[], dt.tm, by simp [text], ?_, by simp [Tm.time, taken, meant, tm]⟩
    rw [text, readTimeOfDay, if_neg (by simp [hletter, hspace])]
  | spaced =>
    refine ⟨space :: dt.clockText,
      { dt.tm with hour := dt.hour, min := dt.minute, sec := dt.second }, rfl, ?_,
      by simp [Tm.time, taken, meant, tm]⟩
    have hread := dt.readTime_clockText [] (by simp)
    rw [List.append_nil] at hread
    have hno : (84 : UInt8) ∉ dt.text .spaced := by simp [text, hletter, hletter', space]
    rw [readTimeOfDay, if_pos (.inr (by simp [text])), if_neg hno]
    simp only [getChar_cons, Option.getD_some, hread]
    rfl
  | iso =>
    refine ⟨84 :: (dt.clockText ++ [90]),
      { dt.tm with hour := dt.hour, min := dt.minute, sec := dt.second }, rfl, ?_,
      by simp [Tm.time, taken, meant, tm]⟩
    have hread := dt.readTime_clockText [90] (by simp [isDigit])
    have hin : (84 : UInt8) ∈ dt.text .iso := by simp [text]
    rw [readTimeOfDay, if_pos (.inl hin), if_pos hin]
    simp only [getChar_cons, Option.getD_some, hread]
    rfl

/-- **What is parsed is the date of 1900 years and a month before.** -/
theorem parseTimeString_text (fmt : DateFormat) :
    parseTimeString (dt.text fmt)
      = some (if timegm (dt.taken fmt) = -1 then 0
          else Int64.ofInt (timegm (dt.taken fmt)) * 1000) := by
  obtain ⟨rest, tm, htext, hclock, htime⟩ := dt.readTimeOfDay_text fmt
  have hne : dt.text fmt ≠ [] := by simp [htext, dateText, fourDigits]
  have hdate : getDate (dt.text fmt) = some (dt.tm, rest) := htext ▸ dt.getDate_dateText rest
  rw [parseTimeString, if_neg hne, hdate]
  simp only [Option.bind_eq_bind, Option.bind_some, hclock, mktime, htime]
  rfl

/-! ## What the code takes a date for -/

theorem meant_plain (fmt : DateFormat) : (dt.meant fmt).Plain := by
  have hday := dt.day_range.1
  have hday' := dt.day_le
  have hhour := dt.hour_lt
  have hminute := dt.minute_lt
  have hsecond := dt.second_lt
  constructor <;> cases fmt <;> simp [meant] <;> omega

theorem taken_plain (fmt : DateFormat) : (dt.taken fmt).Plain := by
  obtain ⟨hday, hhour, hminute, hsecond⟩ := dt.meant_plain fmt
  exact ⟨hday, hhour, hminute, hsecond⟩

theorem meant_year (fmt : DateFormat) :
    (dt.meant fmt).year = dt.year ∧ (dt.meant fmt).month = dt.month - 1 := by
  cases fmt <;> exact ⟨rfl, rfl⟩

theorem taken_year (fmt : DateFormat) :
    (dt.taken fmt).year = dt.year - 1900 ∧ (dt.taken fmt).month = dt.month - 1 - 1 := by
  obtain ⟨hyear, hmonth⟩ := dt.meant_year fmt
  exact ⟨by simp only [taken, hyear], by simp only [taken, hmonth]⟩

theorem taken_early (fmt : DateFormat) (h : dt.year ≤ 1976) : timegm (dt.taken fmt) ≤ -1000 := by
  obtain ⟨hyear, hmonth⟩ := dt.taken_year fmt
  obtain ⟨hlow, hhigh⟩ := timegm_bounds (dt.taken_plain fmt) rfl
  obtain ⟨hmonths, hmonths'⟩ := dt.month_range
  rw [hyear, hmonth] at hhigh
  unfold daysBefore epoch at hhigh
  omega

theorem taken_lt_meant (fmt : DateFormat) : timegm (dt.taken fmt) < timegm (dt.meant fmt) := by
  obtain ⟨hyear, hmonth⟩ := dt.taken_year fmt
  obtain ⟨hyear', hmonth'⟩ := dt.meant_year fmt
  obtain ⟨-, hhigh⟩ := timegm_bounds (dt.taken_plain fmt) rfl
  obtain ⟨hlow, -⟩ := timegm_bounds (dt.meant_plain fmt) rfl
  obtain ⟨hmonths, hmonths'⟩ := dt.month_range
  rw [hyear, hmonth] at hhigh
  rw [hyear', hmonth'] at hlow
  unfold daysBefore epoch at hhigh hlow
  omega

end CivilTime

namespace DateTime

variable (dt : DateTime)

theorem one_day_le_meant (fmt : DateFormat) : 86400 ≤ timegm (dt.meant fmt) := by
  obtain ⟨hyear, hmonth⟩ := dt.meant_year fmt
  obtain ⟨hday, hhour, hminute, hsecond⟩ := dt.meant_plain fmt
  have hyears := dt.le_year
  obtain ⟨hmonths, hmonths'⟩ := dt.month_range
  have hfirst := dt.not_epoch
  have hdays : (dt.meant fmt).day = dt.day := by cases fmt <;> rfl
  have hin : (dt.month - 1 : Int) / 12 = 0 := by omega
  have hof : ((dt.month - 1 : Int) % 12).toNat = dt.month - 1 := by omega
  have hmore := le_daysBeforeMonth dt.year (m := dt.month - 1) (by omega)
  unfold timegm epochDay
  rw [hyear, hmonth, hin, hof, hdays, Int.add_zero]
  rw [hdays] at hday
  unfold daysBefore epoch
  omega

/-- It is more than 1899 years before, and before the year 8100. -/
theorem taken_bounds (fmt : DateFormat) :
    -70000000000 ≤ timegm (dt.taken fmt) ∧ timegm (dt.taken fmt) < 200000000000 := by
  obtain ⟨hyear, hmonth⟩ := dt.taken_year fmt
  obtain ⟨hlow, hhigh⟩ := timegm_bounds (dt.taken_plain fmt) rfl
  have hyears := dt.le_year
  have hyears' := dt.year_le
  obtain ⟨hmonths, hmonths'⟩ := dt.month_range
  rw [hyear, hmonth] at hlow hhigh
  unfold daysBefore epoch at hlow hhigh
  omega

end DateTime

/-! ## Formatting it -/

theorem natDecimal_isDigit {n : Nat} : ∀ c ∈ natDecimal n, isDigit c = true := by
  intro c hc
  obtain ⟨d, hd, rfl⟩ := mem_natDecimal hc
  exact isDigit_digitByte hd

/-- A text that starts with the year of a date has that year. -/
theorem year_of_isPrefix {y : Nat} (hy : y < 10000) {z : Int} {a b : Bytes}
    (h : fourDigits y ++ 45 :: a <+: decimal z ++ 45 :: b) : z = y := by
  obtain ⟨rest, heq⟩ := h
  have hfour : (fourDigits y ++ 45 :: a ++ rest).takeWhile isDigit = fourDigits y := by
    rw [List.append_assoc, List.takeWhile_append_of_pos (fourDigits_isDigit hy), List.cons_append,
      List.takeWhile_cons_of_neg (by decide), List.append_nil]
  rw [heq] at hfour
  unfold decimal at hfour
  split at hfour
  case isTrue =>
    rw [List.cons_append, List.takeWhile_cons_of_neg (by decide)] at hfour
    exact absurd hfour (by simp [fourDigits])
  case isFalse hz =>
    rw [List.takeWhile_append_of_pos natDecimal_isDigit, List.takeWhile_cons_of_neg (by decide),
      List.append_nil] at hfour
    have hvalue := congrArg digitsValue hfour
    rw [digitsValue_natDecimal, digitsValue_fourDigits hy] at hvalue
    omega

theorem toInt_ofInt_mul {e : Int} (he : -70000000000 ≤ e ∧ e < 200000000000) :
    (Int64.ofInt e * 1000).toInt = e * 1000 := by
  have hthousand : (1000 : Int64) = Int64.ofInt 1000 := rfl
  rw [hthousand, ← Int64.ofInt_mul, Int64.toInt_ofInt_of_le (by omega) (by omega)]

/-- `/` of C++ goes towards 0. -/
theorem tdiv_bounds (e : Int) : e.tdiv 1000 * 1000 < e + 1000 ∧ e < e.tdiv 1000 * 1000 + 1000 := by
  have hsplit := Int.tmod_add_mul_tdiv e 1000
  have hlow := Int.lt_tmod_of_pos e (b := 1000) (by decide)
  have hhigh := Int.tmod_lt_of_pos e (b := 1000) (by decide)
  omega

/-- The year of the text. -/
theorem formatTimestamp_year {e : Int} (he : -70000000000 ≤ e ∧ e < 200000000000)
    (hne : Int64.ofInt e * 1000 ≠ 0) :
    ∃ rest, formatTimestamp (Int64.ofInt e * 1000)
      = decimal (yearOf (e.tdiv 1000 / 86400)) ++ 45 :: rest := by
  have hints : (Int64.ofInt e * 1000).toInt = e * 1000 := toInt_ofInt_mul he
  have hsec : (Int64.ofInt e * 1000 / 1000000).toInt = e.tdiv 1000 := by
    rw [Int64.toInt_div_of_ne_right _ _ (by decide), hints]
    exact Int.mul_tdiv_mul_of_pos_left e 1000 (by decide)
  rw [formatTimestamp, if_neg hne, hsec]
  exact ⟨_, by simp only [strftime, List.append_assoc, List.cons_append]; rfl⟩

/-- **No date comes back**: what is parsed is not in microseconds, and its text has another date. -/
theorem formatTimestamp_parseTimeString (dt : DateTime) (fmt : DateFormat) :
    ∃ ts, parseTimeString (dt.text fmt) = some ts ∧ ¬ dt.dateText <+: formatTimestamp ts ∧
      ts.toInt ≠ 1000000 * timegm (dt.meant fmt) := by
  have hbounds := dt.taken_bounds fmt
  have hlt := dt.taken_lt_meant fmt
  have hpos := dt.one_day_le_meant fmt
  have hyear := dt.le_year
  have hyear' := dt.year_le
  refine ⟨_, dt.parseTimeString_text fmt, ?_⟩
  have hzero : ¬ dt.dateText <+: formatTimestamp 0 ∧
      (0 : Int64).toInt ≠ 1000000 * timegm (dt.meant fmt) := by
    constructor
    · intro h
      have hlen := h.length_le
      simp [CivilTime.dateText, fourDigits, twoDigits, formatTimestamp, ascii] at hlen
    · show (0 : Int) ≠ _
      omega
  split
  case isTrue => exact hzero
  case isFalse =>
    by_cases hts : Int64.ofInt (timegm (dt.taken fmt)) * 1000 = 0
    · rw [hts]
      exact hzero
    refine ⟨?_, by rw [toInt_ofInt_mul hbounds]; omega⟩
    intro h
    obtain ⟨rest, htext⟩ := formatTimestamp_year hbounds hts
    rw [htext] at h
    have hsame := year_of_isPrefix (by omega) h
    obtain ⟨hdiv, hdiv'⟩ := tdiv_bounds (timegm (dt.taken fmt))
    have hend : yearOf ((timegm (dt.taken fmt)).tdiv 1000 / 86400) < 1977 := by
      rw [yearOf_lt_iff]
      unfold daysBefore epoch
      omega
    have hearly : dt.year ≤ 1976 → yearOf ((timegm (dt.taken fmt)).tdiv 1000 / 86400) < 1970 := by
      intro hle
      have hago := dt.taken_early fmt hle
      rw [yearOf_lt_iff]
      unfold daysBefore epoch
      omega
    omega

/-- 2026-05-23 does not come back; and the 31st of March, the 3rd to the code, is later than the
1st of April. -/
theorem formatTimestamp_march_and_may :
    (¬ ∀ (dt : DateTime) (fmt : DateFormat), ∃ ts, parseTimeString (dt.text fmt) = some ts ∧
        strftime (dt.meant fmt) <+: formatTimestamp ts) ∧
      ¬ ∀ (dt dt' : DateTime) (fmt : DateFormat), timegm (dt.meant fmt) < timegm (dt'.meant fmt) →
        ∃ ts ts', parseTimeString (dt.text fmt) = some ts ∧
          parseTimeString (dt'.text fmt) = some ts' ∧ ts < ts' := by
  constructor
  · intro h
    obtain ⟨ts, hparse, hstarts⟩ := h
      { year := 2026, month := 5, day := 23, hour := 10, minute := 30, second := 0,
        year_le := by decide, month_range := by decide, day_range := by decide,
        hour_lt := by decide, minute_lt := by decide, second_lt := by decide,
        le_year := by decide, not_epoch := by decide } .iso
    have hts : parseTimeString (ascii "2026-05-23T10:30:00Z") = some (-58181290200000) := by
      decide
    rw [show CivilTime.text _ _ = ascii "2026-05-23T10:30:00Z" from by decide, hts] at hparse
    cases hparse
    revert hstarts
    decide
  · intro h
    obtain ⟨ts, ts', hparse, hparse', hlt⟩ := h
      { year := 2026, month := 3, day := 31, hour := 0, minute := 0, second := 0,
        year_le := by decide, month_range := by decide, day_range := by decide,
        hour_lt := by decide, minute_lt := by decide, second_lt := by decide,
        le_year := by decide, not_epoch := by decide }
      { year := 2026, month := 4, day := 1, hour := 0, minute := 0, second := 0,
        year_le := by decide, month_range := by decide, day_range := by decide,
        hour_lt := by decide, minute_lt := by decide, second_lt := by decide,
        le_year := by decide, not_epoch := by decide } .date (by decide)
    have hmarch : parseTimeString (ascii "2026-03-31") = some (-58185734400000) := by
      decide
    have hapril : parseTimeString (ascii "2026-04-01") = some (-58185907200000) := by
      decide
    rw [show CivilTime.text _ _ = ascii "2026-03-31" from by decide, hmarch] at hparse
    rw [show CivilTime.text _ _ = ascii "2026-04-01" from by decide, hapril] at hparse'
    cases hparse
    cases hparse'
    exact absurd hlt (by decide)

end Sql
end MiniTSDB
