import MiniTSDB.Sql.InsertRun
import MiniTSDB.Sql.TimeText

/-!
# What an `INSERT` makes of its literals

`std::stod` and `std::stoll` convert what a literal starts with. A value that is not wholly a
numeral is stored as the number in front, if there is one, and else the write throws; a date under
`ts` is stored as its year, and a column `timestamp` is not looked at at all. So the rows are
stored as they say only if no literal is of such a kind (`insert_says_iff`).
-/

namespace MiniTSDB
namespace Sql

open Lib Os Storage Calendar

variable {Loc : Type} [DecidableEq Loc]

/-! ## What literals say -/

/-- `std::stod`: the longest numeral in front is converted; `value` has none for one that is out of
range. -/
def stod (value : Bytes → Option UInt64) (text : Bytes) : Option UInt64 :=
  (Numeral.numericPrefix text).bind value

abbrev conversions (value : Bytes → Option UInt64) (parse : Bytes → Timestamp) : Conversions where
  stod := stod value
  parseTimeString := parse

/-- The number that digits with a sign stand for. -/
def integerValue (w : Bytes) : Int :=
  if w.head? = some 45 then -digitsValue (Numeral.dropSign w) else digitsValue (Numeral.dropSign w)

/-- The unit of `ParseTimeString`, and the one of `Timestamp`. -/
inductive EpochUnit
  | millisecond
  | microsecond

def EpochUnit.perSecond : EpochUnit → Int
  | .millisecond => 1000
  | .microsecond => 1000000

/-- The time that a literal denotes: an integer, or a date and a time of day. -/
inductive Denotes (unit : EpochUnit) : Bytes → Int → Prop
  | integer {w : Bytes} (h : Numeral.isExponent w = true) : Denotes unit w (integerValue w)
  | date (dt : CivilTime) (fmt : DateFormat) :
      Denotes unit (dt.text fmt) (unit.perSecond * timegm (dt.meant fmt))

def rowTimestamps (columns row : List Bytes) : List Bytes :=
  cellsUnder (ascii "timestamp") (columns.zip row)

/-- The write is the one that the row says: its tag; its value, a double if the whole literal is a
numeral and else the text; and its time, if it has a literal that denotes one. -/
structure RowSays (unit : EpochUnit) (value : Bytes → Option UInt64) (columns row : List Bytes)
    (call : WriteCall) : Prop where
  tag : ∀ x ∈ rowTags columns row, call.tag = x
  value : ∀ v ∈ rowValues columns row,
    if Numeral.isNumeral v then (value v).map Value.double = some call.point.value
    else call.point.value = .string v
  time : ∀ w ∈ rowTimes columns row ++ rowTimestamps columns row, ∀ t, Denotes unit w t →
    call.point.ts.toInt = t

/-- An `INSERT` that comes back with `ok` has written every row as the row says, and nothing else. -/
def StoresWhatItSays (env : Env Loc) (unit : EpochUnit) (value : Bytes → Option UInt64)
    (stmt : InsertStmt) (s : Backend Loc) (run : InsertRun Loc) : Prop :=
  ∀ result, run.outcome = .returned result → result.ok = true →
    result.affectedRows = Int64.ofNat stmt.rows.length ∧
      List.Forall₂ (RowSays unit value stmt.columns) stmt.rows run.writes ∧
        run.writes.foldlM (Backend.write env) s = some run.stores

/-- The columns have one tag, one value, and at most one time. -/
structure NamesColumns (columns : List Bytes) : Prop where
  tag : (columns.map toLower).count (ascii "tag") = 1
  value : (columns.map toLower).count (ascii "value") = 1
  time : (columns.map toLower).count (ascii "ts")
    + (columns.map toLower).count (ascii "timestamp") ≤ 1

/-- No literal of the row is of a kind that the code takes for something else. -/
structure LiteralsMeant (columns row : List Bytes) : Prop where
  value : ∀ v ∈ rowValues columns row, Numeral.isNumeral v = true
  integer : ∀ w ∈ rowTimes columns row, Numeral.isExponent w = true →
    -2 ^ 63 ≤ integerValue w ∧ integerValue w < 2 ^ 63
  date : ∀ w ∈ rowTimes columns row, ∀ (dt : CivilTime) (fmt : DateFormat), w ≠ dt.text fmt
  timestamp : ∀ w ∈ rowTimestamps columns row, Numeral.isExponent w = false ∧
    ∀ (dt : CivilTime) (fmt : DateFormat), w ≠ dt.text fmt

/-! ## `std::stoll` -/

theorem foldl_digits (digits : Bytes) (k : Nat) :
    digits.foldl (fun (n : Int) c => 10 * n + (c.toNat - 48 : Nat)) (k : Int)
      = (digits.foldl (fun n c => 10 * n + (c.toNat - 48)) k : Nat) := by
  induction digits generalizing k with
  | nil => rfl
  | cons c digits ih =>
    rw [List.foldl_cons, List.foldl_cons, ← ih]
    push_cast
    rfl

/-- Its sign, its digits and what is behind them are told apart. -/
theorem parts_of_isExponent {w : Bytes} (h : Numeral.isExponent w = true) (rest : Bytes) :
    (w ++ rest).dropWhile isSpaceChar = w ++ rest ∧ (w ++ rest).head? = w.head? ∧
      (if w.head? = some 43 ∨ w.head? = some 45 then (w ++ rest).tail else w ++ rest)
        = Numeral.dropSign w ++ rest := by
  rcases w with _ | ⟨c, s⟩
  · cases h
  rw [Numeral.isExponent, Bool.and_eq_true, List.all_eq_true] at h
  refine ⟨?_, rfl, ?_⟩
  · by_cases hsign : c = 43 ∨ c = 45
    · rcases hsign with rfl | rfl <;> rfl
    · have hdrop : Numeral.dropSign (c :: s) = c :: s := if_neg hsign
      rw [hdrop] at h
      exact dropWhile_isSpaceChar (List.cons_ne_nil c s) h.2 rest
  · rw [Numeral.dropSign]
    simp only [List.head?_cons, Option.some_inj]
    split
    case isTrue => rfl
    case isFalse => rfl

/-- **Digits with a sign are converted up to what is no digit.** -/
theorem stoll_append {w rest : Bytes} (h : Numeral.isExponent w = true)
    (hrest : ∀ c ∈ rest.head?, isDigit c = false) :
    stoll (w ++ rest) = if integerValue w < -2 ^ 63 ∨ 2 ^ 63 ≤ integerValue w then none
      else some (.ofInt (integerValue w)) := by
  obtain ⟨hspace, hhead, hsign⟩ := parts_of_isExponent h rest
  rw [Numeral.isExponent, Bool.and_eq_true, List.all_eq_true] at h
  have hne : Numeral.dropSign w ≠ [] := by simpa using h.1
  have hall : ∀ c ∈ Numeral.dropSign w, isDigit c = true := h.2
  have hdigits : (Numeral.dropSign w ++ rest).takeWhile isDigit = Numeral.dropSign w := by
    rw [List.takeWhile_append_of_pos hall]
    cases rest with
    | nil => simp
    | cons c rest => simp [hrest c rfl]
  have hvalue := foldl_digits (Numeral.dropSign w) 0
  rw [Nat.cast_zero] at hvalue
  unfold stoll
  simp only [hspace, hhead, hsign, hdigits, hne, false_or, hvalue]
  rfl

theorem isExponent_of_digits {w : Bytes} (hne : w ≠ []) (h : ∀ c ∈ w, isDigit c = true) :
    Numeral.isExponent w = true ∧ integerValue w = digitsValue w := by
  obtain ⟨c, s, rfl⟩ := List.exists_cons_of_ne_nil hne
  have hc : c ≠ 43 ∧ c ≠ 45 := by
    have hdigit := h c List.mem_cons_self
    constructor <;> (rintro rfl; exact absurd hdigit (by decide))
  have hdrop : Numeral.dropSign (c :: s) = c :: s := if_neg (not_or.mpr hc)
  refine ⟨?_, ?_⟩
  · rw [Numeral.isExponent, hdrop, Bool.and_eq_true]
    exact ⟨rfl, List.all_eq_true.mpr h⟩
  · rw [integerValue, hdrop, if_neg (by simpa using hc.2)]

/-- A date is converted to its year. -/
theorem stoll_text (dt : CivilTime) (fmt : DateFormat) :
    stoll (dt.text fmt) = some (.ofInt dt.year) := by
  have hyear := dt.year_le
  obtain ⟨rest, htext⟩ : ∃ rest, dt.text fmt = fourDigits dt.year ++ 45 :: rest := by
    cases fmt <;> simp [CivilTime.text, CivilTime.dateText]
  have hdigits : ∀ c ∈ fourDigits dt.year, isDigit c = true := fourDigits_isDigit (by omega)
  obtain ⟨hinteger, hvalue⟩ := isExponent_of_digits (by simp [fourDigits]) hdigits
  rw [digitsValue_fourDigits (by omega)] at hvalue
  rw [htext, stoll_append hinteger (by simp [isDigit]), hvalue, if_neg (by omega)]

/-- No date has its year for its time. -/
theorem year_ne_time (unit : EpochUnit) (dt : CivilTime) (fmt : DateFormat) :
    (dt.year : Int) ≠ unit.perSecond * timegm (dt.meant fmt) := by
  obtain ⟨hyear, hmonth⟩ := dt.meant_year fmt
  obtain ⟨hlow, hhigh⟩ := timegm_bounds (dt.meant_plain fmt) rfl
  obtain ⟨hmonths, hmonths'⟩ := dt.month_range
  have hyears := dt.year_le
  rw [hyear, hmonth] at hlow hhigh
  unfold daysBefore epoch at hlow hhigh
  -- a year that is so many thousands is not within an hour of 1970
  cases unit with
  | millisecond =>
    show _ ≠ 1000 * _
    omega
  | microsecond =>
    show _ ≠ 1000000 * _
    omega

/-! ## The literals of a row -/

theorem length_cellsUnder {columns row : List Bytes} (h : row.length = columns.length)
    (name : Bytes) :
    (cellsUnder name (columns.zip row)).length = (columns.map toLower).count name := by
  have hfst : (columns.zip row).map Prod.fst = columns := List.map_fst_zip h.ge
  rw [cellsUnder, List.length_map, ← List.countP_eq_length_filter, List.count_eq_countP,
    List.countP_map]
  conv_rhs => rw [← hfst, List.countP_map]
  exact List.countP_congr fun c _ => by simp

/-- A row has one tag and one value. -/
theorem NamesColumns.cells {columns row : List Bytes} (hcolumns : NamesColumns columns)
    (h : row.length = columns.length) : ∃ tag v, rowTags columns row = [tag] ∧
      rowValues columns row = [v] ∧
      (rowTimes columns row).length + (rowTimestamps columns row).length ≤ 1 := by
  have htag : (rowTags columns row).length = 1 := (length_cellsUnder h _).trans hcolumns.tag
  have hvalue : (rowValues columns row).length = 1 := (length_cellsUnder h _).trans hcolumns.value
  obtain ⟨tag, htag⟩ := List.length_eq_one_iff.mp htag
  obtain ⟨v, hv⟩ := List.length_eq_one_iff.mp hvalue
  refine ⟨tag, v, htag, hv, ?_⟩
  rw [rowTimes, rowTimestamps, length_cellsUnder h, length_cellsUnder h]
  exact hcolumns.time

theorem value_iff {value : Bytes → Option UInt64} {v : Bytes} {bits : UInt64}
    (h : stod value v = some bits) :
    (if Numeral.isNumeral v then (value v).map Value.double = some (.double bits)
      else Value.double bits = .string v) ↔ Numeral.isNumeral v = true := by
  cases hnumeral : Numeral.isNumeral v with
  | true =>
    rw [stod, Numeral.numericPrefix_of_isNumeral hnumeral, Option.bind_some] at h
    simp [h]
  | false => simp

theorem time_iff (unit : EpochUnit) (w : Bytes) :
    (∀ (now : Timestamp) (t : Int), Denotes unit w t → ((stoll w).getD now).toInt = t) ↔
      (Numeral.isExponent w = true → -2 ^ 63 ≤ integerValue w ∧ integerValue w < 2 ^ 63) ∧
        ∀ (dt : CivilTime) (fmt : DateFormat), w ≠ dt.text fmt := by
  constructor
  · intro h
    refine ⟨fun hinteger => ?_, ?_⟩
    · rw [← h 0 _ (.integer hinteger)]
      exact ⟨Int64.le_toInt _, Int64.toInt_lt _⟩
    · rintro dt fmt rfl
      have hyear := dt.year_le
      have hstored := h 0 _ (.date dt fmt)
      rw [stoll_text, Option.getD_some, Int64.toInt_ofInt_of_le (by omega) (by omega)] at hstored
      exact year_ne_time unit dt fmt hstored
  · intro h now t ht
    cases ht with
    | integer hinteger =>
      obtain ⟨hlow, hhigh⟩ := h.1 hinteger
      have hstored : stoll (w ++ []) = _ := stoll_append hinteger (by simp)
      rw [List.append_nil, if_neg (by omega)] at hstored
      rw [hstored, Option.getD_some, Int64.toInt_ofInt_of_le hlow hhigh]
    | date dt fmt => exact absurd rfl (h.2 dt fmt)

/-- Whatever the clock says. -/
theorem timestamp_iff (unit : EpochUnit) (w : Bytes) :
    (∀ (now : Timestamp) (t : Int), Denotes unit w t → now.toInt = t) ↔
      Numeral.isExponent w = false ∧ ∀ (dt : CivilTime) (fmt : DateFormat), w ≠ dt.text fmt := by
  constructor
  · intro h
    have hnone : ∀ t, ¬ Denotes unit w t := by
      intro t ht
      have hzero := h 0 t ht
      have hone := h 1 t ht
      exact absurd (hzero.trans hone.symm) (by decide)
    refine ⟨?_, ?_⟩
    · rw [← Bool.not_eq_true]
      exact fun hinteger => hnone _ (.integer hinteger)
    · rintro dt fmt rfl
      exact hnone _ (.date dt fmt)
  · intro h now t ht
    cases ht with
    | integer hinteger =>
      rw [h.1] at hinteger
      cases hinteger
    | date dt fmt => exact absurd rfl (h.2 dt fmt)

section
variable {unit : EpochUnit} {value : Bytes → Option UInt64} {columns row : List Bytes}
  {tag v : Bytes} {bits : UInt64}

/-- The time of the row, whatever the clock says. -/
theorem rowTime_iff (unit : EpochUnit)
    (htimes : (rowTimes columns row).length + (rowTimestamps columns row).length ≤ 1) :
    (∀ now : Timestamp, ∀ w ∈ rowTimes columns row ++ rowTimestamps columns row,
        ∀ t, Denotes unit w t → (timeOf now (rowTimes columns row)).toInt = t) ↔
      (∀ w ∈ rowTimes columns row, (Numeral.isExponent w = true →
          -2 ^ 63 ≤ integerValue w ∧ integerValue w < 2 ^ 63) ∧
        ∀ (dt : CivilTime) (fmt : DateFormat), w ≠ dt.text fmt) ∧
      ∀ w ∈ rowTimestamps columns row, Numeral.isExponent w = false ∧
        ∀ (dt : CivilTime) (fmt : DateFormat), w ≠ dt.text fmt := by
  match hts : rowTimes columns row with
  | [] =>
    -- the clock is kept
    show (∀ now : Timestamp, ∀ w ∈ rowTimestamps columns row, ∀ t, Denotes unit w t →
      now.toInt = t) ↔ _
    simp only [List.not_mem_nil, false_imp_iff, implies_true, true_and, ← timestamp_iff unit]
    exact ⟨fun h w hw now => h now w hw, fun h now w hw => h w hw now⟩
  | [w] =>
    have hnone : rowTimestamps columns row = [] := by
      rw [hts, List.length_singleton] at htimes
      exact List.length_eq_zero_iff.mp (by omega)
    rw [hnone]
    simp only [List.append_nil, List.mem_singleton, forall_eq, List.not_mem_nil, false_imp_iff,
      implies_true, and_true]
    exact time_iff unit w
  | w :: w' :: ws =>
    rw [hts, List.length_cons, List.length_cons] at htimes
    omega

/-- **A row is stored as it says if its literals are what the code takes them for.** -/
theorem rowSays_iff (unit : EpochUnit) (htag : rowTags columns row = [tag])
    (hv : rowValues columns row = [v]) (hbits : stod value v = some bits)
    (htimes : (rowTimes columns row).length + (rowTimestamps columns row).length ≤ 1) :
    (∀ context : RowContext,
        RowSays unit value columns row (rowCall context columns row tag (.double bits))) ↔
      LiteralsMeant columns row := by
  have htime := rowTime_iff unit htimes
  have hvalue := value_iff hbits
  constructor
  · intro h
    obtain ⟨hinteger, htimestamp⟩ := htime.mp fun now => (h ⟨now, .replicate 3 0⟩).time
    refine ⟨?_, fun w hw => (hinteger w hw).1, fun w hw => (hinteger w hw).2, htimestamp⟩
    intro v' hv'
    obtain rfl := List.mem_singleton.mp (hv ▸ hv')
    exact hvalue.mp ((h ⟨0, .replicate 3 0⟩).value v' hv')
  · intro h context
    refine ⟨?_, ?_, htime.mpr ⟨fun w hw => ⟨h.integer w hw, h.date w hw⟩, h.timestamp⟩ context.now⟩
    · intro x hx
      exact (List.mem_singleton.mp (htag ▸ hx)).symm
    · intro v' hv'
      obtain rfl := List.mem_singleton.mp (hv ▸ hv')
      exact hvalue.mpr (h.value v' hv')

end

/-! ## The whole statement -/

theorem exists_of_forall₂ {α β : Type} {R S : α → β → Prop} {l : List α} {u : List β}
    (hR : List.Forall₂ R l u) (hS : List.Forall₂ S l u) {a : α} (h : a ∈ l) :
    ∃ b, R a b ∧ S a b := by
  rw [← List.map_fst_zip hR.length_eq.le] at h
  obtain ⟨⟨a', b⟩, hpair, rfl⟩ := List.mem_map.mp h
  exact ⟨b, List.forall₂_zip hR hpair, List.forall₂_zip hS hpair⟩

section
variable {value : Bytes → Option UInt64} (parse : Bytes → Timestamp)

/-- A row whose value has no number in front ends the statement. -/
theorem stops_of_stod_eq_none {registered : Bytes → Bool} {columns row : List Bytes}
    (hcolumns : NamesColumns columns) (hrow : row.length = columns.length)
    (h : ∃ v ∈ rowValues columns row, stod value v = none) :
    stops (conversions value parse) registered columns row = true := by
  obtain ⟨tag, v, htag, hv, -⟩ := hcolumns.cells hrow
  obtain ⟨v', hv', hnone⟩ := h
  obtain rfl := List.mem_singleton.mp (hv ▸ hv')
  simp [stops, htag, hv, hnone]

/-- With a number in front of every value, every row is written. -/
theorem insert_all (env : Env Loc) (context : Nat → RowContext) (s : Backend Loc) {stmt : InsertStmt}
    (hcolumns : NamesColumns stmt.columns)
    (hrows : ∀ row ∈ stmt.rows, row.length = stmt.columns.length)
    (hregistered : ∀ row ∈ stmt.rows, ∀ tag ∈ rowTags stmt.columns row,
      s.registered stmt tag = true)
    (hvalues : ∀ row ∈ stmt.rows, ∀ v ∈ rowValues stmt.columns row, stod value v ≠ none)
    (hne : stmt.rows ≠ []) :
    (s.insert env (conversions value parse) context stmt).outcome
        = .returned { ok := true, affectedRows := Int64.ofNat stmt.rows.length } ∧
      List.Forall₂ (WritesRow (conversions value parse) context stmt.columns) stmt.rows
        (s.insert env (conversions value parse) context stmt).writes := by
  have hgo : ∀ row ∈ stmt.rows, stops (conversions value parse)
      (s.registered stmt) stmt.columns row = false := by
    intro row hrow
    obtain ⟨tag, v, htag, hv, -⟩ := hcolumns.cells (hrows row hrow)
    have hthere := hregistered row hrow tag (by simp [htag])
    have hnumber := Option.isSome_iff_ne_none.mpr (hvalues row hrow v (by simp [hv]))
    simp [stops, htag, hv, hthere, Option.isNone_eq_false_iff.mpr hnumber]
  have hboth : ∀ row ∈ stmt.rows, incomplete stmt.columns row = false := by
    intro row hrow
    obtain ⟨tag, v, htag, hv, -⟩ := hcolumns.cells (hrows row hrow)
    simp [incomplete, htag, hv]
  have htable : s.executor.tiers.tableExists s.executor.currentDb stmt.tableName = true := by
    obtain ⟨row, hrow⟩ := List.exists_mem_of_ne_nil stmt.rows hne
    obtain ⟨tag, v, htag, -⟩ := hcolumns.cells (hrows row hrow)
    exact tableExists_of_tagExists (hregistered row hrow tag (by simp [htag]))
  have hrun : s.insert env (conversions value parse) context stmt
      = Backend.insertRows env (conversions value parse) context stmt stmt.rows 0 0 s := by
    rw [Backend.insert, if_neg (by simpa using hne), if_pos htable]
  have hall := Backend.insertRows_all env context hgo hboth 0 0 s rfl
  rw [Int64.zero_add] at hall
  rwa [hrun]

end

/-- **An `INSERT` stores what it says if it throws, since a value has no number in front, or if
every literal is what the code takes it for.** -/
theorem insert_says_iff (env : Env Loc) (unit : EpochUnit) (value : Bytes → Option UInt64)
    (parse : Bytes → Timestamp) (s : Backend Loc) (stmt : InsertStmt)
    (hcolumns : NamesColumns stmt.columns)
    (hrows : ∀ row ∈ stmt.rows, row.length = stmt.columns.length)
    (hregistered : ∀ row ∈ stmt.rows, ∀ tag ∈ rowTags stmt.columns row,
      s.registered stmt tag = true) :
    (∀ context : Nat → RowContext, StoresWhatItSays env unit value stmt s
        (s.insert env (conversions value parse) context stmt)) ↔
      (∃ row ∈ stmt.rows, ∃ v ∈ rowValues stmt.columns row, stod value v = none) ∨
        ∀ row ∈ stmt.rows, LiteralsMeant stmt.columns row := by
  by_cases hraises : ∃ row ∈ stmt.rows, ∃ v ∈ rowValues stmt.columns row, stod value v = none
  · refine ⟨fun _ => .inl hraises, fun _ context result hresult hok => ?_⟩
    obtain ⟨row, hrow, hnone⟩ := hraises
    have hfailed := s.insert_failed_of_stops env context
      ⟨row, hrow, stops_of_stod_eq_none parse hcolumns (hrows row hrow) hnone⟩
    rw [hresult, InsertOutcome.failed, hok] at hfailed
    cases hfailed
  have hvalues : ∀ row ∈ stmt.rows, ∀ v ∈ rowValues stmt.columns row, stod value v ≠ none :=
    fun row hrow v hv hnone => hraises ⟨row, hrow, v, hv, hnone⟩
  simp only [hraises, false_or]
  by_cases hne : stmt.rows = []
  · rw [hne]
    refine ⟨fun _ row hrow => absurd hrow List.not_mem_nil, fun _ context result hresult hok => ?_⟩
    rw [Backend.insert, hne, List.isEmpty_nil, if_pos rfl] at hresult
    cases hresult
    cases hok
  have hwritten := fun context =>
    insert_all parse env context s hcolumns hrows hregistered hvalues hne
  constructor
  · intro h row hrow
    obtain ⟨tag, v, htag, hv, htimes⟩ := hcolumns.cells (hrows row hrow)
    obtain ⟨bits, hbits⟩ := Option.ne_none_iff_exists'.mp (hvalues row hrow v (by simp [hv]))
    refine (rowSays_iff unit htag hv hbits htimes).mp fun context => ?_
    -- the clock and the padding are the same for every row
    obtain ⟨houtcome, hwrites⟩ := hwritten fun _ => context
    obtain ⟨-, hsays, -⟩ := h (fun _ => context) _ houtcome rfl
    obtain ⟨call, ⟨i, tag', v', bits', htag', hv', hbits', rfl⟩, hcall⟩ :=
      exists_of_forall₂ hwrites hsays hrow
    rw [htag] at htag'
    rw [hv] at hv'
    cases htag'
    cases hv'
    cases hbits.symm.trans hbits'
    exact hcall
  · intro h context result hresult hok
    obtain ⟨houtcome, hwrites⟩ := hwritten context
    rw [houtcome] at hresult
    cases hresult
    refine ⟨rfl, ?_, s.insert_writes env (conversions value parse) context stmt⟩
    refine ((List.forall₂_and_left _ _).mpr ⟨fun row hrow => hrow, hwrites⟩).imp ?_
    rintro row call ⟨hrow, i, tag', v', bits, htag', hv', hbits, rfl⟩
    obtain ⟨tag, v, htag, hv, htimes⟩ := hcolumns.cells (hrows row hrow)
    rw [htag] at htag'
    rw [hv] at hv'
    cases htag'
    cases hv'
    exact (rowSays_iff unit htag hv hbits htimes).mpr (h row hrow) (context i)

/-- What the two numerals of the examples convert to. -/
def smallNumerals (w : Bytes) : Option UInt64 :=
  if w = ascii "1" then some 0x3ff0000000000000
  else if w = ascii "12" then some 0x4028000000000000 else none

/-- `INSERT INTO t (Value, TAG) VALUES ('12', 'x'), ('1', 'x')` -/
def numberInsert : InsertStmt where
  tableName := ascii "t"
  columns := [ascii "Value", ascii "TAG"]
  rows := [[ascii "12", ascii "x"], [ascii "1", ascii "x"]]

theorem insert_says_numerals :
    StoresWhatItSays plainEnv .microsecond smallNumerals numberInsert Backend.ofOneTag
      (Backend.ofOneTag.insert plainEnv (conversions smallNumerals fun _ => 0)
        (fun _ => ⟨0, .replicate 3 0⟩) numberInsert) := by
  refine (insert_says_iff plainEnv .microsecond smallNumerals (fun _ => 0) Backend.ofOneTag
    numberInsert ⟨by decide, by decide, by decide⟩ (by decide) (by decide)).mpr (.inr ?_) _
  have hliterals : ∀ row ∈ numberInsert.rows, rowTimes numberInsert.columns row = [] ∧
      rowTimestamps numberInsert.columns row = [] ∧
        ∀ v ∈ rowValues numberInsert.columns row, Numeral.isNumeral v = true := by
    decide
  intro row hrow
  obtain ⟨htimes, htimestamps, hvalue⟩ := hliterals row hrow
  exact ⟨hvalue, by simp [htimes], by simp [htimes], by simp [htimestamps]⟩

/-- `INSERT INTO t (tag, value, ts) VALUES ('x', '1', '2026-05-24T10:30:00Z')` -/
def datedInsert : InsertStmt where
  tableName := ascii "t"
  columns := [ascii "tag", ascii "value", ascii "ts"]
  rows := [[ascii "x", ascii "1", ascii "2026-05-24T10:30:00Z"]]

/-- 2026-05-24 10:30:00 -/
def mayMorning : CivilTime where
  year := 2026
  month := 5
  day := 24
  hour := 10
  minute := 30
  second := 0
  year_le := by decide
  month_range := by decide
  day_range := by decide
  hour_lt := by decide
  minute_lt := by decide
  second_lt := by decide

/-- It is stored at the time 2026. -/
theorem insert_iso_stored_as_year : ¬ ∀ (env : Env Bytes) (unit : EpochUnit)
    (value : Bytes → Option UInt64) (parse : Bytes → Timestamp) (s : Backend Bytes)
    (stmt : InsertStmt), NamesColumns stmt.columns →
      (∀ row ∈ stmt.rows, row.length = stmt.columns.length) →
      (∀ row ∈ stmt.rows, ∀ tag ∈ rowTags stmt.columns row, s.registered stmt tag = true) →
        ∀ context : Nat → RowContext, StoresWhatItSays env unit value stmt s
          (s.insert env (conversions value parse) context stmt) := by
  intro h
  have hcolumns : NamesColumns datedInsert.columns := ⟨by decide, by decide, by decide⟩
  have hvalues : ∀ row ∈ datedInsert.rows, ∀ v ∈ rowValues datedInsert.columns row,
      stod smallNumerals v ≠ none := by decide
  have hsays := h plainEnv .microsecond smallNumerals (fun _ => 0) Backend.ofOneTag datedInsert
    hcolumns (by decide) (by decide) fun _ => ⟨0, .replicate 3 0⟩
  obtain ⟨houtcome, hwrites⟩ := insert_all (fun _ => 0) plainEnv (fun _ => ⟨0, .replicate 3 0⟩)
    Backend.ofOneTag hcolumns (by decide) (by decide) hvalues (by decide)
  obtain ⟨-, hrows, -⟩ := hsays _ houtcome rfl
  obtain ⟨call, ⟨i, tag, v, bits, -, -, -, rfl⟩, hcall⟩ :=
    exists_of_forall₂ hwrites hrows List.mem_cons_self
  have htext : mayMorning.text .iso = ascii "2026-05-24T10:30:00Z" := by decide
  have hdate : Denotes .microsecond (mayMorning.text .iso) _ := .date mayMorning .iso
  rw [htext] at hdate
  have htime := hcall.time (ascii "2026-05-24T10:30:00Z") (by decide) _ hdate
  have hyear : (timeOf 0 [ascii "2026-05-24T10:30:00Z"]).toInt
      = 1000000 * timegm (mayMorning.meant .iso) := htime
  exact absurd hyear (by decide)

end Sql
end MiniTSDB
