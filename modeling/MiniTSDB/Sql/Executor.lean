import MiniTSDB.Cache.LatestCache
import MiniTSDB.Sql.ParserTotal
import MiniTSDB.Storage.Namespace

/-!
# `Executor` (`executor.cpp`): reading, deleting and updating

An executor works on the current database of its session. It has the engine, the directories of
the databases, and a cache of latest values that is not the engine's own.

A `SELECT` reads the data under the name of the tag alone. A `DELETE` drops the directory of the
tag and does not look at the time. An `UPDATE` does the same and writes one point, under the name
of the database, of the table and of the tag.
-/

namespace MiniTSDB
namespace Sql

open Lib Os Storage

structure QueryResult where
  ok : Bool := false
  errorMsg : Bytes := []
  columnNames : List Bytes := []
  rows : List (List Bytes) := []
  affectedRows : Int64 := 0
  deriving DecidableEq, Repr

/-- `FormatTimestamp` and `FormatValue`. -/
structure Formats where
  timestamp : Timestamp → Bytes
  value : Value → Bytes

/-- `std::sort` by the timestamps, up and down. -/
structure Sorts where
  asc : KeySort tsKey
  desc : KeySort fun p => -tsKey p

/-- `Executor`, with an engine and a cache. -/
structure Executor (Loc : Type) where
  currentDb : Bytes := []
  engine : Engine Loc
  tiers : Tiers
  cache : LatestCache

/-- What a valid name is made of, for `CREATE DATABASE`, `CREATE TABLE` and `CREATE TAGS`. -/
def isValidName (name : Bytes) (maxLen : Nat) : Bool :=
  if name.isEmpty || name.length > maxLen then false
  else if name.head? = some 45 || name.head? = some 95 then false
  else name.all isNameChar

/-- `db:table:tag`. -/
def flatKey (db table tag : Bytes) : Bytes := db ++ ascii ":" ++ table ++ ascii ":" ++ tag

variable {Loc : Type} [DecidableEq Loc]

namespace Executor

omit [DecidableEq Loc] in
/-- `ExecuteDelete`. -/
def executeDelete (ex : Executor Loc) (stmt : DeleteStmt) : QueryResult × Executor Loc :=
  ({ ok := true, affectedRows := 1 },
    { ex with tiers := ex.tiers.dropTag ex.currentDb stmt.tableName stmt.tagFilter })

/-- `ExecuteUpdate`; `none` where the write throws. -/
def executeUpdate (env : Env Loc) (pad : HeaderPad) (ex : Executor Loc) (stmt : UpdateStmt) :
    Option (QueryResult × Executor Loc) := do
  let tiers := ex.tiers.dropTag ex.currentDb stmt.tableName stmt.tagFilter
  let engine ← ex.engine.write env pad (flatKey ex.currentDb stmt.tableName stmt.tagFilter)
    { ts := stmt.exactTime, value := .double stmt.newValue }
  return ({ ok := true, affectedRows := 1 }, { ex with tiers := tiers, engine := engine })

/-- What an `ORDER BY` makes of the points. -/
def ordered (sorts : Sorts) (stmt : SelectStmt) (points : List DataPoint) : List DataPoint :=
  if stmt.orderBy = ascii "timestamp" ∨ stmt.orderBy = ascii "ts" then
    if stmt.orderAsc then sorts.asc.sort points else sorts.desc.sort points
  else points

/-- What a `LIMIT` leaves of the points. -/
def limited (stmt : SelectStmt) (points : List DataPoint) : List DataPoint :=
  if stmt.limit > 0 ∧ stmt.limit < points.length then points.take stmt.limit.toNat else points

/-- The points of `ExecuteSelectRaw`. -/
def rawPoints (env : Env Loc) (sorts : Sorts) (ex : Executor Loc) (stmt : SelectStmt)
    (entries : List DirEntry) : List DataPoint :=
  limited stmt (ordered sorts stmt
    (ex.engine.readRaw env sorts.asc stmt.where_.tagFilter stmt.where_.timeRange entries))

/-- `ExecuteSelectRaw`. -/
def executeSelectRaw (env : Env Loc) (sorts : Sorts) (formats : Formats) (ex : Executor Loc)
    (stmt : SelectStmt) (entries : List DirEntry) : QueryResult where
  ok := true
  columnNames := [ascii "ts", ascii "value"]
  rows := (ex.rawPoints env sorts stmt entries).map fun p =>
    [formats.timestamp p.ts, formats.value p.value]

omit [DecidableEq Loc] in
/-- The tags and points of `ExecuteSelectLatest`. -/
def latestData (ex : Executor Loc) (stmt : SelectStmt) (order : List (Bytes × DataPoint)) :
    List (Bytes × DataPoint) :=
  if stmt.where_.tagFilter ≠ [] then
    (ex.cache.lookup stmt.where_.tagFilter).toList.map fun p => (stmt.where_.tagFilter, p)
  else if stmt.where_.tagPattern ≠ [] then getByPattern order stmt.where_.tagPattern
  else order

omit [DecidableEq Loc] in
/-- `ExecuteSelectLatest`. -/
def executeSelectLatest (formats : Formats) (ex : Executor Loc) (stmt : SelectStmt)
    (order : List (Bytes × DataPoint)) : QueryResult where
  ok := true
  columnNames := [ascii "tag", ascii "value", ascii "ts"]
  rows := (ex.latestData stmt order).map fun e =>
    [e.1, formats.value e.2.value, formats.timestamp e.2.ts]

end Executor

/-! ## Texts that are executed -/

omit [DecidableEq Loc] in
/-- `ExecuteSQL` of a text that is a `DELETE`. -/
def DeleteRuns (conv : Conversions) (ex : Executor Loc) (sql : Bytes) (ex' : Executor Loc) : Prop :=
  ∃ stmt, Accepts conv sql (.delete stmt) ∧ ex' = (ex.executeDelete stmt).2

/-- `ExecuteSQL` of a text that is an `UPDATE`, and that succeeds. -/
def UpdateRuns (conv : Conversions) (env : Env Loc) (pad : HeaderPad) (ex : Executor Loc)
    (sql : Bytes) (ex' : Executor Loc) : Prop :=
  ∃ stmt result, Accepts conv sql (.update stmt) ∧
    ex.executeUpdate env pad stmt = some (result, ex') ∧ result.ok = true

/-! ## Names -/

theorem chars_of_isValidName {name : Bytes} {maxLen : Nat} (h : isValidName name maxLen = true) :
    name ≠ [] ∧ ∀ c ∈ name, isNameChar c = true := by
  unfold isValidName at h
  split at h
  case isTrue => cases h
  case isFalse hlen =>
    split at h
    case isTrue => cases h
    case isFalse =>
      refine ⟨?_, List.all_eq_true.mp h⟩
      intro hnil
      rw [hnil] at hlen
      exact hlen rfl

theorem isName_of_chars {name : Bytes} (hne : name ≠ [])
    (h : ∀ c ∈ name, isNameChar c = true) : IsName name := by
  refine ⟨?_, hne, ?_, ?_⟩
  · exact fun hmem => absurd (h slash hmem) (by decide)
  · intro heq
    rw [heq] at h
    exact absurd (h 46 (by decide)) (by decide)
  · intro heq
    rw [heq] at h
    exact absurd (h 46 (by decide)) (by decide)

theorem isName_of_isValidName {name : Bytes} {maxLen : Nat} (h : isValidName name maxLen = true) :
    IsName name := isName_of_chars (chars_of_isValidName h).1 (chars_of_isValidName h).2

/-! ## Keys -/

/-- A valid name has no colon. -/
theorem colon_notMem_of_isValidName {name : Bytes} {maxLen : Nat}
    (h : isValidName name maxLen = true) : (58 : UInt8) ∉ name := by
  intro hmem
  have hchar := (chars_of_isValidName h).2 58 hmem
  exact absurd hchar (by decide)

/-- **A key is read from its end**: the database may have colons, the table and the tag not. -/
theorem flatKey_inj {db table tag db' table' tag' : Bytes} (htable : (58 : UInt8) ∉ table)
    (htag : (58 : UInt8) ∉ tag) (htable' : (58 : UInt8) ∉ table') (htag' : (58 : UInt8) ∉ tag')
    (h : flatKey db table tag = flatKey db' table' tag') :
    db = db' ∧ table = table' ∧ tag = tag' := by
  have hreverse : ∀ a b c : Bytes, (flatKey a b c).reverse
      = c.reverse ++ 58 :: (b.reverse ++ 58 :: a.reverse) := by
    intro a b c
    have hcolon : ascii ":" = [58] := rfl
    unfold flatKey
    rw [hcolon]
    simp only [List.reverse_append, List.reverse_cons, List.append_assoc, List.cons_append,
      List.nil_append]
  have hrev := congrArg List.reverse h
  rw [hreverse, hreverse] at hrev
  rw [← List.mem_reverse] at htable htag htable' htag'
  obtain ⟨heq, hrest⟩ := eq_of_append_cons_eq htag htag' hrev
  obtain ⟨heq', hrest'⟩ := eq_of_append_cons_eq htable htable' hrest
  exact ⟨List.reverse_inj.mp hrest', List.reverse_inj.mp heq', List.reverse_inj.mp heq⟩

theorem colon_mem_flatKey (db table tag : Bytes) : (58 : UInt8) ∈ flatKey db table tag := by
  unfold flatKey
  simp [ascii]

/-- What has no slashes makes one name. -/
theorem isName_flatKey {db table tag : Bytes} (hdb : slash ∉ db) (htable : slash ∉ table)
    (htag : slash ∉ tag) : IsName (flatKey db table tag) := by
  have hne : ∀ other : Bytes, (58 : UInt8) ∉ other → flatKey db table tag ≠ other := by
    intro other hother heq
    exact hother (heq ▸ colon_mem_flatKey db table tag)
  refine ⟨?_, hne [] List.not_mem_nil, hne Os.dot (by decide), hne dotDot (by decide)⟩
  unfold flatKey
  simp only [List.mem_append, not_or]
  exact ⟨⟨⟨⟨hdb, by decide⟩, htable⟩, by decide⟩, htag⟩

end Sql
end MiniTSDB
