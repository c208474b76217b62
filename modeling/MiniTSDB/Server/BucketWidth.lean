import MiniTSDB.Lib.Decimal
import MiniTSDB.Server.Treatment
import MiniTSDB.Sql.ClauseEnds
import MiniTSDB.Storage.Aggregate

/-!
# `ExecuteSelectAggregate` (`executor.cpp`)

The width of the buckets is read from what is quoted behind the `GROUP BY`: its digits, and its
last letter for the unit. What is not quoted there has the default width. So a `TIME_BUCKET` among
the columns that `GROUP BY` goes by under its name does not reach the engine
(`width_of_columns_iff`), and one behind the `GROUP BY` does, in thousandths (`bucketMsOf_literal`):
the factors are milliseconds, and timestamps are microseconds.
-/

namespace MiniTSDB
namespace Server

open Lib Os Storage Sql

/-! ## The width -/

/-- `std::isdigit` and `std::isalpha` in the C locale. -/
def isDigit (c : UInt8) : Bool := 48 ≤ c && c ≤ 57

def isAlpha (c : UInt8) : Bool := (65 ≤ c && c ≤ 90) || (97 ≤ c && c ≤ 122)

/-- `std::stoll` of digits, `none` where it throws. -/
def stoll (digits : Bytes) : Option Nat :=
  if digitsValue digits < 2 ^ 63 then some (digitsValue digits) else none

/-- Five minutes, in milliseconds. -/
def defaultBucketMs : Int64 := 300000

/-- What the number is multiplied with. -/
def unitFactor (unit : UInt8) : Nat :=
  if unit = 115 then 1000
  else if unit = 109 then 60000
  else if unit = 104 then 3600000
  else if unit = 100 then 86400000
  else 1

/-- The width as it is read. `none` where the product is out of the range of `int64_t`, which is
undefined. -/
def parsedBucketMs (bucket : Bytes) : Option Int64 :=
  let numPart := bucket.filter isDigit
  match bucket.getLast? with
  | none => some defaultBucketMs
  | some unit =>
    if isAlpha unit && !numPart.isEmpty then
      match stoll numPart with
      | none => some defaultBucketMs
      | some val =>
        if val * unitFactor unit < 2 ^ 63 then some (Int64.ofNat (val * unitFactor unit)) else none
    else some defaultBucketMs

/-- The width, which is positive. -/
def bucketMsOf (bucket : Bytes) : Option Int64 := do
  let bucketMs ← parsedBucketMs bucket
  return if bucketMs ≤ 0 then defaultBucketMs else bucketMs

/-! ## The query -/

/-- A call of `ReadAggregated`. -/
structure AggregateCall where
  tag : Bytes
  range : TimeRange
  bucketMs : Int64
  aggType : AggType
  deriving DecidableEq, Repr

def aggregateCall (stmt : SelectStmt) (bucket : Bytes) : Option AggregateCall := do
  let bucketMs ← bucketMsOf bucket
  return { tag := stmt.where_.tagFilter, range := stmt.where_.timeRange, bucketMs := bucketMs,
           aggType := aggTypeOf stmt.columns }

/-- `std::to_string` of a double, and `std::sqrt`. -/
structure DoubleFunctions (V : Type) where
  toText : V → Bytes
  sqrt : V → V

section
variable {V : Type} [LinearOrder V] [Zero V] [Add V] [Mul V] [Div V] [NatCast V] [Sub V]

/-- The value of a row. -/
def aggText (doubles : DoubleFunctions V) (aggType : AggType) (b : AggResult V) : Bytes :=
  match aggType with
  | .avg => doubles.toText b.avg
  | .max => doubles.toText b.max
  | .min => doubles.toText b.min
  | .sum => doubles.toText b.sum
  | .count => decimal b.count
  | .first => doubles.toText b.firstVal
  | .last => doubles.toText b.lastVal
  | .stddev =>
    if b.count > 1 then
      let variance := (b.sumSq - b.sum * b.sum / b.count) / b.count
      doubles.toText (doubles.sqrt (if variance > 0 then variance else 0))
    else ascii "0"
  | .none => doubles.toText b.avg

variable {Loc : Type} [DecidableEq Loc]

/-- `ExecuteSelectAggregate`; `none` where the width overflows. -/
def executeSelectAggregate (env : Env Loc) (sorts : Sorts) (sort : KeySort (bucketKey (V := V)))
    (ofBits : UInt64 → V) (formats : Formats) (doubles : DoubleFunctions V) (ex : Executor Loc)
    (stmt : SelectStmt) (entries : List DirEntry) : Option QueryResult :=
  match stmt.groupBy with
  | none => some { ok := true, columnNames := [ascii "bucket", ascii "value"] }
  | some bucket => do
    let call ← aggregateCall stmt bucket
    let results := ex.engine.readAggregated env sorts.asc sort ofBits call.tag call.range entries
      call.bucketMs
    return { ok := true, columnNames := [ascii "bucket", ascii "value"],
             rows := results.map fun b =>
               [formats.timestamp b.bucketTs, aggText doubles call.aggType b] }

end

/-- Executing the text gets to this call, or to `none` if its width overflows. -/
def Asks (conv : Conversions) (sql : Bytes) (asked : Option AggregateCall) : Prop :=
  ∃ stmt bucket, Accepts conv sql (.select stmt) ∧ selectKind stmt = .aggregate ∧
    stmt.groupBy = some bucket ∧ asked = aggregateCall stmt bucket

/-! ## Literals -/

/-- The units of a literal. -/
inductive TimeUnit
  | second
  | minute
  | hour
  | day
  deriving DecidableEq, Repr

def TimeUnit.letter : TimeUnit → UInt8
  | .second => 115
  | .minute => 109
  | .hour => 104
  | .day => 100

/-- In microseconds, as timestamps are. -/
def TimeUnit.micros : TimeUnit → Nat
  | .second => 1000000
  | .minute => 60000000
  | .hour => 3600000000
  | .day => 86400000000

/-- `5m`. -/
def literalText (n : Nat) (u : TimeUnit) : Bytes := natDecimal n ++ [u.letter]

/-- The factors are thousandths of it. -/
theorem micros_eq (u : TimeUnit) : u.micros = 1000 * unitFactor u.letter := by
  cases u with
  | second => rfl
  | minute => rfl
  | hour => rfl
  | day => rfl

theorem million_dvd_micros (u : TimeUnit) : 1000000 ∣ u.micros := by
  cases u with
  | second => decide
  | minute => decide
  | hour => decide
  | day => decide

/-- A letter that is no digit and has a factor. -/
theorem letter_spec (u : TimeUnit) :
    isDigit u.letter = false ∧ isAlpha u.letter = true ∧ 0 < unitFactor u.letter := by
  cases u with
  | second => decide
  | minute => decide
  | hour => decide
  | day => decide

theorem isDigit_of_mem_natDecimal {n : Nat} {c : UInt8} (h : c ∈ natDecimal n) : isDigit c = true := by
  obtain ⟨d, hd, rfl⟩ := mem_natDecimal h
  have hall : ∀ d < 10, isDigit (digitByte d) = true := by decide
  exact hall d hd

theorem filter_literalText (n : Nat) (u : TimeUnit) :
    (literalText n u).filter isDigit = natDecimal n := by
  rw [literalText, List.filter_append, List.filter_singleton, (letter_spec u).1, cond_false,
    List.append_nil, List.filter_eq_self]
  exact fun c hc => isDigit_of_mem_natDecimal hc

/-- **A literal behind the `GROUP BY`** is read as milliseconds; it overflows if it is a number of
`int64_t` that its unit makes too large, and a number that is none has the default width. -/
theorem bucketMsOf_literal {n : Nat} (hn : 0 < n) (u : TimeUnit) :
    bucketMsOf (literalText n u) =
      if n * unitFactor u.letter < 2 ^ 63 then some (Int64.ofNat (n * unitFactor u.letter))
      else if n < 2 ^ 63 then none
      else some defaultBucketMs := by
  have hlast : (literalText n u).getLast? = some u.letter := by
    rw [literalText, List.getLast?_append]
    rfl
  obtain ⟨-, halpha, hfactor⟩ := letter_spec u
  have hle : n ≤ n * unitFactor u.letter := Nat.le_mul_of_pos_right n hfactor
  have hdigits : (natDecimal n).isEmpty = false := by
    rw [List.isEmpty_eq_false_iff]
    exact natDecimal_ne_nil n
  rw [bucketMsOf, parsedBucketMs]
  simp only [hlast, filter_literalText, halpha, hdigits, Bool.not_false, Bool.and_self, if_true]
  rw [stoll, digitsValue_natDecimal]
  by_cases hnum : n < 2 ^ 63
  · rw [if_pos hnum]
    by_cases hprod : n * unitFactor u.letter < 2 ^ 63
    · have hpos : ¬ Int64.ofNat (n * unitFactor u.letter) ≤ 0 := by
        rw [Int64.le_iff_toInt_le, Int64.toInt_ofNat_of_lt hprod]
        change ¬ ((n * unitFactor u.letter : Nat) : Int) ≤ 0
        omega
      rw [if_pos hprod]
      dsimp only
      rw [if_pos hprod]
      show some (if Int64.ofNat (n * unitFactor u.letter) ≤ 0 then _ else _) = _
      rw [if_neg hpos]
    · rw [if_neg hprod, if_pos hnum]
      dsimp only
      rw [if_neg hprod]
      rfl
  · have hprod : ¬ n * unitFactor u.letter < 2 ^ 63 := fun h => hnum (Nat.lt_of_le_of_lt hle h)
    rw [if_neg hnum, if_neg hprod, if_neg hnum]
    rfl

/-- So a duration that fits is divided by a thousand. -/
theorem bucketMsOf_fits {n : Nat} (hn : 0 < n) (u : TimeUnit) (hfits : n * u.micros < 2 ^ 63) :
    ∃ bucketMs, bucketMsOf (literalText n u) = some bucketMs ∧
      1000 * bucketMs.toInt = (n * u.micros : Nat) := by
  rw [micros_eq, Nat.mul_left_comm] at hfits ⊢
  have hprod : n * unitFactor u.letter < 2 ^ 63 := by omega
  refine ⟨Int64.ofNat (n * unitFactor u.letter), ?_, ?_⟩
  · rw [bucketMsOf_literal hn, if_pos hprod]
  · rw [Int64.toInt_ofNat_of_lt hprod]
    omega

/-! ## A `TIME_BUCKET` among the columns -/

/-- `TIME_BUCKET('5m', ts) AS bucket, AVG(value)`. -/
def bucketColumns (n : Nat) (u : TimeUnit) : Bytes :=
  ascii "TIME_BUCKET(" ++ quote :: (literalText n u ++ quote :: ascii ", ts) AS bucket, AVG(value)")

/-- `SELECT TIME_BUCKET('5m', ts) AS bucket, AVG(value) FROM t WHERE tag='x' GROUP BY bucket`, with
the quotes of the tag doubled. -/
def bucketText (n : Nat) (u : TimeUnit) (t x : Bytes) : Bytes :=
  ascii "SELECT " ++ bucketColumns n u ++ ascii " FROM " ++ t ++ ascii " WHERE tag=" ++ [quote]
    ++ doubleQuotes x ++ [quote] ++ ascii " GROUP BY bucket"

/-- The engine is asked for the width that the literal says. If that is no `int64_t`, for the
default width if for any, and nothing overflows. -/
structure WidthKept (conv : Conversions) (n : Nat) (u : TimeUnit) (t x : Bytes) : Prop where
  fits : n * u.micros < 2 ^ 63 → ∃ call, Asks conv (bucketText n u t x) (some call) ∧
    call.bucketMs.toInt = (n * u.micros : Nat)
  tooLong : ¬ n * u.micros < 2 ^ 63 → ∀ asked, Asks conv (bucketText n u t x) asked →
    ∃ call, asked = some call ∧ call.bucketMs = defaultBucketMs

/-- The text in front of the last quote. -/
def bucketHead (x : Bytes) : Bytes := ascii "tag=" ++ quote :: doubleQuotes x

theorem bucketText_eq (n : Nat) (u : TimeUnit) (t x : Bytes) :
    bucketText n u t x
      = selectOf (bucketColumns n u) t (bucketHead x ++ quote :: ascii " GROUP BY bucket") := by
  simp only [bucketText, selectOf, behindFrom, bucketHead, List.append_assoc, List.cons_append,
    List.nil_append]
  rfl

theorem isColumns_bucketColumns (n : Nat) (u : TimeUnit) : IsColumns (bucketColumns n u) := by
  refine ⟨rfl, ?_⟩
  have hliteral : ¬ Mentions (literalText n u) (ascii "FROM") := by
    intro h
    have hmem : (70 : UInt8) ∈ toUpper (literalText n u) := h.subset (by decide)
    rw [literalText, toUpper_append, List.mem_append] at hmem
    cases hmem with
    | inl hdigits =>
      obtain ⟨c, hc, hupper⟩ := List.mem_map.mp hdigits
      obtain ⟨d, hd, rfl⟩ := mem_natDecimal hc
      have hall : ∀ d < 10, upperChar (digitByte d) ≠ 70 := by decide
      exact hall d hd hupper
    | inr hletter =>
      revert hletter
      cases u with
      | second => decide
      | minute => decide
      | hour => decide
      | day => decide
  rw [bucketColumns, mentions_append_quote_iff (by decide), mentions_append_quote_iff (by decide)]
  exact not_or.mpr ⟨by decide, not_or.mpr ⟨hliteral, by decide⟩⟩

section
variable {conv : Conversions} {n : Nat} {u : TimeUnit} {t x : Bytes}

/-- Neither the name nor the tag brings a `GROUP BY` of its own. -/
theorem not_mentions_bucketHead (ht : IsTableName t) (hx : ¬ Mentions x (ascii "GROUP BY")) :
    ¬ Mentions (behindFrom t (bucketHead x)) (ascii "GROUP BY") := by
  have hkw : ascii "GROUP BY" ∈ clauseEnds := by decide
  have hname : ¬ Mentions (t ++ []) (ascii "GROUP BY") :=
    not_mentions_by ht (ascii "GROUP") (by decide)
  rw [List.append_nil] at hname
  have hsplit : behindFrom t (bucketHead x)
      = (t ++ space :: ascii "WHERE tag=") ++ quote :: doubleQuotes x := by
    simp only [behindFrom, bucketHead, List.append_assoc, List.cons_append]
    rfl
  have hliteral : ¬ Mentions (doubleQuotes x) (ascii "GROUP BY") := fun h =>
    hx ((infix_doubleQuotes_iff (by decide) (by decide) x).mp h)
  have hfront : ¬ Mentions (t ++ space :: ascii "WHERE tag=") (ascii "GROUP BY") := fun h =>
    hname ((mentions_behind_iff ht hkw (by decide) (by decide)).mp h)
  rw [hsplit, mentions_append_quote_iff (by decide)]
  exact not_or.mpr ⟨hfront, hliteral⟩

/-- The `GROUP BY` that is found is the one behind the tag, and there is no `(` behind it. -/
theorem groupBucket_bucketText (ht : IsTableName t) (hx : ¬ Mentions x (ascii "GROUP BY")) :
    (findKeyword (bucketText n u t x) (ascii "GROUP BY") ((bucketColumns n u).length + 13)).map
      (groupBucket (bucketText n u t x)) = some [] := by
  have hkw : ascii "GROUP BY" ∈ clauseEnds := by decide
  have hfind : find (ascii "GROUP BY") (toUpper (ascii " GROUP BY bucket")) = some 1 := by decide
  rw [bucketText_eq, findKeyword_behind hkw (not_mentions_bucketHead ht hx), hfind, Option.map_some, Option.map_some]
  -- the text up to the `GROUP BY` and with it
  have hbefore : ∃ before : Bytes, selectOf (bucketColumns n u) t
      (bucketHead x ++ quote :: ascii " GROUP BY bucket") = before ++ space :: ascii "bucket" ∧
      before.length = 1 + ((bucketColumns n u).length + t.length + (bucketHead x).length + 21) + 8 := by
    refine ⟨selectOf (bucketColumns n u) t (bucketHead x ++ quote :: ascii " GROUP BY"), ?_, ?_⟩
    · simp only [selectOf, behindFrom, List.append_assoc, List.cons_append]
      rfl
    · have hnine : (ascii " GROUP BY").length = 9 := rfl
      rw [length_selectOf_closed, hnine]
      omega
  obtain ⟨before, hsplit, hlen⟩ := hbefore
  have hskip : skipWhitespace (before ++ space :: ascii "bucket")
      (1 + ((bucketColumns n u).length + t.length + (bucketHead x).length + 21) + 8)
      = 1 + ((bucketColumns n u).length + t.length + (bucketHead x).length + 21) + 8 + 1 :=
    skipWhitespace_next hlen rfl
  have hparen : findChar (before ++ space :: ascii "bucket") openParen
      (1 + ((bucketColumns n u).length + t.length + (bucketHead x).length + 21) + 8 + 1) = none := by
    rw [findChar, findFrom, ← hlen, ← List.drop_drop, List.drop_left]
    rfl
  rw [hsplit, groupBucket, hskip, hparen]

/-- **Nothing of the literal is in the statement**: what it groups by is nothing. -/
theorem parse_bucketText (conv : Conversions) (n : Nat) (u : TimeUnit) (ht : IsTableName t)
    (hx : ¬ Mentions x (ascii "GROUP BY")) :
    Returns (parseSql conv (bucketText n u t x)) fun r => ∃ stmt : SelectStmt,
      r = .success (.select stmt) ∧ stmt.groupBy = some [] := by
  have hsql : trim (bucketText n u t x) = selectOf (bucketColumns n u) t
      (bucketHead x ++ quote :: ascii " GROUP BY bucket") := by
    rw [bucketText_eq, trim_eq]
    apply tight_append rfl
    simp only [behindFrom, List.getLast?_append, List.getLast?_cons]
    rfl
  obtain ⟨i, hwhere⟩ : ∃ i, find (ascii "WHERE") (toUpper (behindFrom t
      (bucketHead x ++ quote :: ascii " GROUP BY bucket"))) = some i := by
    apply exists_find
    rw [behindFrom, toUpper_append, toUpper_cons, toUpper_append]
    refine List.IsInfix.trans ?_ (List.suffix_append _ _).isInfix
    refine List.IsInfix.trans ?_ (List.suffix_cons _ _).isInfix
    exact List.IsInfix.trans (by decide) (List.prefix_append _ _).isInfix
  have hin := (find_eq_some hwhere).2
  rw [length_toUpper] at hin
  have hlen : (bucketText n u t x).length = (bucketColumns n u).length + 13 + (behindFrom t
      (bucketHead x ++ quote :: ascii " GROUP BY bucket")).length := by
    rw [bucketText_eq, selectOf_eq, List.length_append, length_beforeName]
  rw [parseSql, parse_selectOf _ _ hsql (isColumns_bucketColumns n u) ht hwhere, ← bucketText_eq,
    groupBucket_bucketText ht hx]
  refine Returns.bind (selectColumns_returns ?_) fun columns _ => ?_
  · rw [List.length_append, hlen]
    change (bucketColumns n u).length + 1 - 0 < _
    omega
  · refine Returns.bind (whereClause_returns (Nat.lt_succ_self _) ?_) fun where_ _ =>
      Returns.pure ⟨_, rfl, rfl⟩
    intro pos hpos
    cases hpos
    have hword : (ascii "WHERE").length = 5 := rfl
    omega

theorem groupBy_of_accepts {stmt : SelectStmt} (ht : IsTableName t)
    (hx : ¬ Mentions x (ascii "GROUP BY"))
    (h : Accepts conv (bucketText n u t x) (.select stmt)) : stmt.groupBy = some [] := by
  obtain ⟨r, hparse, stmt', rfl, hgroup⟩ := parse_bucketText conv n u ht hx
  have hsame : stmt = stmt' := SQLStmt.select.inj (h.unique ⟨_, hparse, rfl⟩)
  rw [hsame, hgroup]

/-- Whatever is asked of the engine is asked with the default width. -/
theorem bucketMs_of_asks {asked : Option AggregateCall} (ht : IsTableName t)
    (hx : ¬ Mentions x (ascii "GROUP BY")) (h : Asks conv (bucketText n u t x) asked) :
    ∃ call, asked = some call ∧ call.bucketMs = defaultBucketMs := by
  obtain ⟨stmt, bucket, haccepts, -, hbucket, rfl⟩ := h
  rw [groupBy_of_accepts ht hx haccepts] at hbucket
  cases hbucket
  exact ⟨_, rfl, rfl⟩

/-- The rows are those of the default width, whatever the literal is. -/
theorem executeSelectAggregate_bucketText {V Loc : Type} [LinearOrder V] [Zero V] [Add V] [Mul V]
    [Div V] [NatCast V] [Sub V] [DecidableEq Loc] (env : Env Loc) (sorts : Sorts)
    (sort : KeySort (bucketKey (V := V))) (ofBits : UInt64 → V) (formats : Formats)
    (doubles : DoubleFunctions V) (ex : Executor Loc) (entries : List DirEntry) {stmt : SelectStmt}
    (ht : IsTableName t) (hx : ¬ Mentions x (ascii "GROUP BY"))
    (h : Accepts conv (bucketText n u t x) (.select stmt)) :
    executeSelectAggregate env sorts sort ofBits formats doubles ex stmt entries = some
      { ok := true
        columnNames := [ascii "bucket", ascii "value"]
        rows := (ex.engine.readAggregated env sorts.asc sort ofBits stmt.where_.tagFilter
          stmt.where_.timeRange entries defaultBucketMs).map fun b =>
            [formats.timestamp b.bucketTs, aggText doubles (aggTypeOf stmt.columns) b] } := by
  rw [executeSelectAggregate, groupBy_of_accepts ht hx h]
  rfl

/-- **The width is never the literal's**: the default one is no number of seconds. What is kept is
that a literal which is too long does no harm. -/
theorem width_of_columns_iff (conv : Conversions) (n : Nat) (u : TimeUnit) {t x : Bytes}
    (ht : IsTableName t) (hx : ¬ Mentions x (ascii "GROUP BY")) :
    WidthKept conv n u t x ↔ ¬ n * u.micros < 2 ^ 63 := by
  constructor
  · intro h hfits
    obtain ⟨call, hasks, hwidth⟩ := h.fits hfits
    obtain ⟨call', hcall, hdefault⟩ := bucketMs_of_asks ht hx hasks
    cases hcall
    have hms : defaultBucketMs.toInt = 300000 := rfl
    rw [hdefault, hms] at hwidth
    -- a width in whole seconds
    obtain ⟨k, hk⟩ := million_dvd_micros u
    have hseconds : n * u.micros = 1000000 * (n * k) := by
      rw [hk, Nat.mul_left_comm]
    rw [hseconds] at hwidth
    generalize n * k = m at hwidth
    omega
  · intro htoo
    exact ⟨fun hfits => absurd hfits htoo, fun _ _ hasks => bucketMs_of_asks ht hx hasks⟩

end

/-- A hundred million days and more are no `int64_t` of microseconds. -/
theorem width_of_columns_days : WidthKept noConversions 106751992 .day (ascii "boiler_temp")
    (ascii "BOILER-001") :=
  (width_of_columns_iff noConversions 106751992 .day ⟨by decide, List.all_eq_true.mp rfl⟩
    (by decide)).mpr (by decide)

/-- The statement of the five minutes. -/
def fiveMinutes : SelectStmt where
  columns := [{ isAggregate := true }, { expr := ascii "ts) AS bucket" },
    { expr := ascii "AVG(value)", isAggregate := true, aggType := .avg }]
  tableName := ascii "boiler_temp"
  where_ := { tagFilter := ascii "BOILER-001" }
  groupBy := some []

/-- **Five minutes are asked for as three tenths of a second.** -/
theorem width_of_five_minutes :
    Asks noConversions (bucketText 5 .minute (ascii "boiler_temp") (ascii "BOILER-001"))
        (some { tag := ascii "BOILER-001", range := { start := 0, stop := 0 }, bucketMs := 300000,
                aggType := .avg }) ∧
      ¬ WidthKept noConversions 5 .minute (ascii "boiler_temp") (ascii "BOILER-001") := by
  constructor
  · refine ⟨fiveMinutes, [], ⟨.success (.select fiveMinutes), ?_, rfl⟩, by decide, rfl, rfl⟩
    decide +kernel
  · intro h
    obtain ⟨call, hasks, hwidth⟩ := h.fits (by decide)
    obtain ⟨call', hcall, hdefault⟩ :=
      bucketMs_of_asks ⟨by decide, List.all_eq_true.mp rfl⟩ (by decide) hasks
    cases hcall
    rw [hdefault] at hwidth
    exact absurd hwidth (by decide)

end Server
end MiniTSDB
