import MiniTSDB.Sql.Executor

/-!
# `ExecuteInsert` and `ExecuteSelect` (`executor.cpp`)

An `INSERT` goes through its rows and writes each before it looks at the next. The table and the
tag of a row have to be registered in the current database; the point is then written under the
name of the tag alone. What a `SELECT` reads depends on the name of its table only where that is
`SNAPSHOT`.
-/

namespace MiniTSDB
namespace Sql

open Lib Os Storage

/-! ## INSERT -/

/-- The white space of `isspace`. -/
def isSpaceChar (c : UInt8) : Bool := c = 32 || (9 ≤ c && c ≤ 13)

def isDigit (c : UInt8) : Bool := 48 ≤ c && c ≤ 57

/-- `std::stoll`; `none` where it throws. Behind the digits there may be anything. -/
def stoll (text : Bytes) : Option Int64 :=
  let body := text.dropWhile isSpaceChar
  let signed := body.head? = some 43 ∨ body.head? = some 45
  let digits := (if signed then body.tail else body).takeWhile isDigit
  let n : Int := digits.foldl (fun n c => 10 * n + (c.toNat - 48 : Nat)) 0
  let i := if body.head? = some 45 then -n else n
  if digits = [] ∨ i < -2 ^ 63 ∨ 2 ^ 63 ≤ i then none else some (.ofInt i)

/-- What the columns of a row have said so far. -/
structure RowScan where
  tag : Option Bytes := none
  value : Option Value := none
  ts : Timestamp
  deriving DecidableEq, Repr

/-- One column of a row; the tag, where it is not registered. -/
def scanColumn (conv : Conversions) (registered : Bytes → Bool) (scan : RowScan) :
    Bytes × Bytes → Except Bytes RowScan
  | (column, val) =>
    let col := toLower column
    if col = ascii "tag" then
      if registered val then .ok { scan with tag := some val } else .error val
    else if col = ascii "value" then
      match conv.stod val with
      | some bits => .ok { scan with value := some (.double bits) }
      | none => .ok { scan with value := some (.string val) }
    else if col = ascii "ts" then .ok { scan with ts := (stoll val).getD scan.ts }
    else .ok scan

/-- The columns of a row, as many as it has values. -/
def scanRow (conv : Conversions) (registered : Bytes → Bool) (now : Timestamp)
    (columns row : List Bytes) : Except Bytes RowScan :=
  (columns.zip row).foldlM (scanColumn conv registered) { ts := now }

def tableNotFound (table : Bytes) : QueryResult where
  errorMsg := ascii "Table not found: " ++ table ++ ascii ". Use CREATE TABLE first."

def tagNotFound (table tag : Bytes) : QueryResult where
  errorMsg := ascii "Tag not found: " ++ tag ++ ascii " in table " ++ table
    ++ ascii ". Use CREATE TAGS first."

/-- What the system gives to a row: the time, and the padding of the record in the log. -/
structure RowContext where
  now : Timestamp
  pad : HeaderPad

/-! ## The columns of a row -/

/-- The tags that a row names. -/
def rowTags (columns row : List Bytes) : List Bytes :=
  ((columns.zip row).filter fun c => toLower c.1 = ascii "tag").map Prod.snd

theorem scanColumn_isOk (conv : Conversions) (registered : Bytes → Bool) (scan : RowScan)
    (c : Bytes × Bytes) : (∃ scan', scanColumn conv registered scan c = .ok scan') ↔
      (toLower c.1 = ascii "tag" → registered c.2 = true) := by
  obtain ⟨column, val⟩ := c
  unfold scanColumn
  dsimp only
  by_cases htag : toLower column = ascii "tag"
  · rw [if_pos htag]
    by_cases hthere : registered val = true
    · rw [if_pos hthere]
      exact ⟨fun _ _ => hthere, fun _ => ⟨_, rfl⟩⟩
    · rw [if_neg hthere]
      refine ⟨?_, fun h => absurd (h htag) hthere⟩
      rintro ⟨scan', h⟩
      cases h
  · rw [if_neg htag]
    refine ⟨fun _ h => absurd h htag, fun _ => ?_⟩
    split
    · split
      · exact ⟨_, rfl⟩
      · exact ⟨_, rfl⟩
    · split
      · exact ⟨_, rfl⟩
      · exact ⟨_, rfl⟩

/-- **A row is gone through to its end if every tag that it names is registered.** -/
theorem scanRow_isOk (conv : Conversions) (registered : Bytes → Bool) (now : Timestamp)
    (columns row : List Bytes) : (∃ scan, scanRow conv registered now columns row = .ok scan) ↔
      ∀ tag ∈ rowTags columns row, registered tag = true := by
  unfold scanRow rowTags
  generalize columns.zip row = cells
  generalize ({ ts := now } : RowScan) = scan
  induction cells generalizing scan with
  | nil =>
    refine ⟨fun _ tag htag => ?_, fun _ => ⟨scan, rfl⟩⟩
    cases htag
  | cons c cells ih =>
    have hhere := scanColumn_isOk conv registered scan c
    rw [List.foldlM_cons]
    by_cases htag : toLower c.1 = ascii "tag"
    · have hfilter : (c :: cells).filter (fun c => toLower c.1 = ascii "tag")
          = c :: cells.filter fun c => toLower c.1 = ascii "tag" :=
        List.filter_cons_of_pos (decide_eq_true htag)
      rw [hfilter, List.map_cons, List.forall_mem_cons]
      cases hscan : scanColumn conv registered scan c with
      | error tag =>
        rw [hscan] at hhere
        refine ⟨?_, fun h => ?_⟩
        · rintro ⟨scan', h⟩
          cases h
        · obtain ⟨scan', h⟩ := hhere.mpr fun _ => h.1
          cases h
      | ok scan' =>
        have hthere := hhere.mp ⟨scan', hscan⟩ htag
        exact (ih scan').trans ⟨fun h => ⟨hthere, h⟩, fun h => h.2⟩
    · have hfilter : (c :: cells).filter (fun c => toLower c.1 = ascii "tag")
          = cells.filter fun c => toLower c.1 = ascii "tag" :=
        List.filter_cons_of_neg fun h => htag (of_decide_eq_true h)
      obtain ⟨scan', hscan⟩ := hhere.mpr fun h => absurd h htag
      rw [hfilter, hscan]
      exact ih scan'

variable {Loc : Type} [DecidableEq Loc]

namespace Executor

/-- The loop over the rows; `none` where a write throws. -/
def insertLoop (env : Env Loc) (conv : Conversions) (context : Nat → RowContext)
    (stmt : InsertStmt) : List (List Bytes) → Nat → Int64 → Executor Loc →
      Option (QueryResult × Executor Loc)
  | [], _, count, ex => some ({ ok := true, affectedRows := count }, ex)
  | row :: rows, i, count, ex =>
    match scanRow conv (ex.tiers.tagExists ex.currentDb stmt.tableName) (context i).now
        stmt.columns row with
    | .error tag => some (tagNotFound stmt.tableName tag, ex)
    | .ok { tag := some tag, value := some value, ts := ts } => do
      let engine ← ex.engine.write env (context i).pad tag { ts := ts, value := value }
      insertLoop env conv context stmt rows (i + 1) (count + 1)
        { ex with engine := engine, cache := ex.cache.update tag { ts := ts, value := value } }
    | .ok _ => insertLoop env conv context stmt rows (i + 1) count ex

/-- `ExecuteInsert`. -/
def executeInsert (env : Env Loc) (conv : Conversions) (context : Nat → RowContext)
    (ex : Executor Loc) (stmt : InsertStmt) : Option (QueryResult × Executor Loc) :=
  if stmt.rows.isEmpty then some ({ errorMsg := ascii "No values to insert" }, ex)
  else if ex.tiers.tableExists ex.currentDb stmt.tableName then
    insertLoop env conv context stmt stmt.rows 0 0 ex
  else some (tableNotFound stmt.tableName, ex)

/-- One row that has a tag and a value. -/
theorem executeInsert_row {env : Env Loc} {conv : Conversions} {context : Nat → RowContext}
    {ex : Executor Loc} {stmt : InsertStmt} {row : List Bytes} {tag : Bytes} {value : Value}
    {ts : Timestamp} {engine : Engine Loc} (hrows : stmt.rows = [row])
    (htable : ex.tiers.tableExists ex.currentDb stmt.tableName = true)
    (hscan : scanRow conv (ex.tiers.tagExists ex.currentDb stmt.tableName) (context 0).now
      stmt.columns row = .ok { tag := some tag, value := some value, ts := ts })
    (hwrite : ex.engine.write env (context 0).pad tag { ts := ts, value := value } = some engine) :
    ex.executeInsert env conv context stmt = some ({ ok := true, affectedRows := 1 },
      { ex with engine := engine, cache := ex.cache.update tag { ts := ts, value := value } }) := by
  have hne : stmt.rows.isEmpty = false := by rw [hrows]; rfl
  rw [executeInsert, hne, if_neg (by decide), if_pos htable, hrows, insertLoop, hscan]
  dsimp only
  rw [hwrite]
  rfl

end Executor

/-! ## SELECT -/

/-- The data that a `SELECT` reads. -/
inductive SelectKind
  | snapshot
  | latest
  | aggregate
  | raw
  deriving DecidableEq, Repr

/-- The dispatch of `ExecuteSelect`. -/
def selectKind (stmt : SelectStmt) : SelectKind :=
  if toUpper stmt.tableName = ascii "SNAPSHOT" then .snapshot
  else if stmt.latest then .latest
  else if stmt.groupBy.isSome then .aggregate
  else .raw

end Sql
end MiniTSDB
