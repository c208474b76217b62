import MiniTSDB.Alarm.RateLimit
import MiniTSDB.Snapshot.SnapshotStore
import MiniTSDB.Sql.Isolation
import MiniTSDB.Storage.Recovery

/-!
# What an `INSERT` has written when it ends

`executeInsert` gives the state of an `INSERT` that comes back. Here is the same loop with all that
it writes to, and with what has been written when a write throws. The rows in front of the one that
ends it stay written, so a failed `INSERT` leaves everything as it was only if none of them has both
a tag and a value (`insert_failed_iff`).
-/

namespace MiniTSDB
namespace Sql

open Lib Os Storage Alarm Snapshot

/-! ## What is written -/

/-- One call of `Write`. -/
structure WriteCall where
  pad : HeaderPad
  tag : Bytes
  point : DataPoint

/-- The executor with its engine and its cache, and the other two that a write of the engine goes
to. -/
structure Backend (Loc : Type) where
  executor : Executor Loc
  alarms : AlarmEngine
  snapshot : SnapshotMap

/-- How an `INSERT` ends. -/
inductive InsertOutcome
  | returned (result : QueryResult)
  | raised

def InsertOutcome.failed : InsertOutcome → Bool
  | .returned result => !result.ok
  | .raised => true

/-- An `INSERT` at its end: the writes it has made, in their order, and what they have left. -/
structure InsertRun (Loc : Type) where
  outcome : InsertOutcome
  writes : List WriteCall
  stores : Backend Loc

variable {Loc : Type} [DecidableEq Loc]

namespace Backend

omit [DecidableEq Loc] in
def registered (s : Backend Loc) (stmt : InsertStmt) : Bytes → Bool :=
  s.executor.tiers.tagExists s.executor.currentDb stmt.tableName

omit [DecidableEq Loc] in
/-- Everything behind a write that has left the engine so. -/
def after (s : Backend Loc) (call : WriteCall) (engine : Engine Loc) : Backend Loc where
  executor :=
    { s.executor with engine := engine, cache := s.executor.cache.update call.tag call.point }
  alarms := (s.alarms.evaluate call.tag call.point).1
  snapshot := s.snapshot.onWrite call.tag call.point

/-- `engine_->Write` and `cache_->Update`; `none` where the log throws, and nothing is written
then. -/
def write (env : Env Loc) (s : Backend Loc) (call : WriteCall) : Option (Backend Loc) :=
  (s.executor.engine.write env call.pad call.tag call.point).map (s.after call)

/-- The loop over the rows. -/
def insertRows (env : Env Loc) (conv : Conversions) (context : Nat → RowContext)
    (stmt : InsertStmt) : List (List Bytes) → Nat → Int64 → Backend Loc → InsertRun Loc
  | [], _, count, s =>
    { outcome := .returned { ok := true, affectedRows := count }, writes := [], stores := s }
  | row :: rows, i, count, s =>
    match scanRow conv (s.registered stmt) (context i).now stmt.columns row with
    | .error tag =>
      { outcome := .returned (tagNotFound stmt.tableName tag), writes := [], stores := s }
    | .ok { tag := some tag, value := some value, ts := ts } =>
      let call : WriteCall :=
        { pad := (context i).pad, tag := tag, point := { ts := ts, value := value } }
      match s.write env call with
      | none => { outcome := .raised, writes := [], stores := s }
      | some s' =>
        let run := insertRows env conv context stmt rows (i + 1) (count + 1) s'
        { run with writes := call :: run.writes }
    | .ok _ => insertRows env conv context stmt rows (i + 1) count s

/-- `ExecuteInsert`. -/
def insert (env : Env Loc) (conv : Conversions) (context : Nat → RowContext)
    (s : Backend Loc) (stmt : InsertStmt) : InsertRun Loc :=
  if stmt.rows.isEmpty then
    { outcome := .returned { errorMsg := ascii "No values to insert" }, writes := [], stores := s }
  else if s.executor.tiers.tableExists s.executor.currentDb stmt.tableName then
    insertRows env conv context stmt stmt.rows 0 0 s
  else { outcome := .returned (tableNotFound stmt.tableName), writes := [], stores := s }

/-! ## It is the `INSERT` of the executor -/

theorem insertRows_executor (env : Env Loc) (conv : Conversions) (context : Nat → RowContext)
    (stmt : InsertStmt) (rows : List (List Bytes)) (i : Nat) (count : Int64) (s : Backend Loc) :
    s.executor.insertLoop env conv context stmt rows i count =
      match (insertRows env conv context stmt rows i count s).outcome with
      | .returned result =>
        some (result, (insertRows env conv context stmt rows i count s).stores.executor)
      | .raised => none := by
  induction rows generalizing i count s with
  | nil => rfl
  | cons row rows ih =>
    simp only [Executor.insertLoop, insertRows, registered]
    cases scanRow conv (s.executor.tiers.tagExists s.executor.currentDb stmt.tableName)
      (context i).now stmt.columns row with
    | error tag => rfl
    | ok scan =>
      obtain ⟨tag, value, ts⟩ := scan
      rcases tag with _ | tag
      · exact ih (i + 1) count s
      rcases value with _ | value
      · exact ih (i + 1) count s
      simp only [write]
      cases hwrite : s.executor.engine.write env (context i).pad tag { ts := ts, value := value } with
      | none => rfl
      | some engine =>
        exact ih (i + 1) (count + 1) (s.after { pad := (context i).pad, tag, point := _ } engine)

/-- **An `INSERT` of the executor comes back where this one does, with this result and state.** -/
theorem insert_executor (env : Env Loc) (conv : Conversions) (context : Nat → RowContext)
    (s : Backend Loc) (stmt : InsertStmt) :
    s.executor.executeInsert env conv context stmt =
      match (s.insert env conv context stmt).outcome with
      | .returned result => some (result, (s.insert env conv context stmt).stores.executor)
      | .raised => none := by
  unfold Executor.executeInsert insert
  split
  case isTrue => rfl
  case isFalse =>
    split
    case isTrue => exact insertRows_executor env conv context stmt stmt.rows 0 0 s
    case isFalse => rfl

end Backend

/-! ## What a row asks for -/

/-- The literals under the columns of that name. -/
def cellsUnder (name : Bytes) (cells : List (Bytes × Bytes)) : List Bytes :=
  (cells.filter fun c => toLower c.1 = name).map Prod.snd

def rowValues (columns row : List Bytes) : List Bytes := cellsUnder (ascii "value") (columns.zip row)

def rowTimes (columns row : List Bytes) : List Bytes := cellsUnder (ascii "ts") (columns.zip row)

/-- What a literal is stored as. -/
def valueOf (conv : Conversions) (text : Bytes) : Value :=
  match conv.stod text with
  | some bits => .double bits
  | none => .string text

/-- The time after these literals. -/
def timeOf (now : Timestamp) (times : List Bytes) : Timestamp :=
  times.foldl (fun ts w => (stoll w).getD ts) now

theorem cellsUnder_cons_self {name column : Bytes} (h : toLower column = name) (val : Bytes)
    (cells : List (Bytes × Bytes)) :
    cellsUnder name ((column, val) :: cells) = val :: cellsUnder name cells := by
  rw [cellsUnder, List.filter_cons_of_pos (by simpa using h)]
  rfl

theorem cellsUnder_cons_other {name column : Bytes} (h : toLower column ≠ name) (val : Bytes)
    (cells : List (Bytes × Bytes)) :
    cellsUnder name ((column, val) :: cells) = cellsUnder name cells := by
  rw [cellsUnder, List.filter_cons_of_neg (by simpa using h)]
  rfl

theorem or_getLast?_cons {α : Type} (x : α) (xs : List α) (o : Option α) :
    (x :: xs).getLast?.or o = xs.getLast?.or (some x) := by
  rw [List.getLast?_cons]
  cases xs.getLast? <;> rfl

/-- The columns from some point on. -/
theorem foldlM_scanColumn {conv : Conversions} {registered : Bytes → Bool}
    {cells : List (Bytes × Bytes)} (scan : RowScan)
    (h : ∀ tag ∈ cellsUnder (ascii "tag") cells, registered tag = true) :
    cells.foldlM (scanColumn conv registered) scan = .ok {
      tag := (cellsUnder (ascii "tag") cells).getLast?.or scan.tag
      value := ((cellsUnder (ascii "value") cells).map (valueOf conv)).getLast?.or scan.value
      ts := timeOf scan.ts (cellsUnder (ascii "ts") cells) } := by
  induction cells generalizing scan with
  | nil => rfl
  | cons c cells ih =>
    obtain ⟨column, val⟩ := c
    rw [List.foldlM_cons, scanColumn]
    have hnames : ascii "value" ≠ ascii "tag" ∧ ascii "ts" ≠ ascii "tag" ∧
        ascii "ts" ≠ ascii "value" := by decide
    obtain ⟨hvalue, htime, hother⟩ := hnames
    by_cases htag : toLower column = ascii "tag"
    · have hhere := cellsUnder_cons_self htag val cells
      rw [hhere, List.forall_mem_cons] at h
      rw [if_pos htag, if_pos h.1, hhere, or_getLast?_cons,
        cellsUnder_cons_other (by rw [htag]; exact hvalue.symm),
        cellsUnder_cons_other (by rw [htag]; exact htime.symm)]
      exact ih { scan with tag := some val } h.2
    have hthere := cellsUnder_cons_other htag val cells
    rw [hthere] at h
    rw [if_neg htag, hthere]
    by_cases hval : toLower column = ascii "value"
    · rw [if_pos hval, cellsUnder_cons_self hval,
        cellsUnder_cons_other (by rw [hval]; exact hother.symm), List.map_cons, or_getLast?_cons,
        valueOf]
      cases conv.stod val with
      | none => exact ih { scan with value := some (.string val) } h
      | some bits => exact ih { scan with value := some (.double bits) } h
    rw [if_neg hval, cellsUnder_cons_other hval]
    by_cases hts : toLower column = ascii "ts"
    · rw [if_pos hts, cellsUnder_cons_self hts]
      exact ih { scan with ts := (stoll val).getD scan.ts } h
    · rw [if_neg hts, cellsUnder_cons_other hts]
      exact ih scan h

/-- **The last tag and the last value of a row count, and of the times the last that is one.** -/
theorem scanRow_eq {conv : Conversions} {registered : Bytes → Bool} {now : Timestamp}
    {columns row : List Bytes} (h : ∀ tag ∈ rowTags columns row, registered tag = true) :
    scanRow conv registered now columns row = .ok {
      tag := (rowTags columns row).getLast?
      value := ((rowValues columns row).map (valueOf conv)).getLast?
      ts := timeOf now (rowTimes columns row) } := by
  refine (foldlM_scanColumn { ts := now } h).trans ?_
  simp only [Option.or_none]
  rfl

/-- It has no tag or no value, and is left out. -/
def incomplete (columns row : List Bytes) : Bool :=
  (rowTags columns row).isEmpty || (rowValues columns row).isEmpty

/-- It ends the statement: it names a tag that is not registered, or what it would write is not
a number. -/
def stops (conv : Conversions) (registered : Bytes → Bool) (columns row : List Bytes) : Bool :=
  (rowTags columns row).any (fun tag => !registered tag) ||
    (!(rowTags columns row).isEmpty &&
      (rowValues columns row).getLast?.any fun v => (conv.stod v).isNone)

/-- The write of a row that has both. -/
def rowCall (context : RowContext) (columns row : List Bytes) (tag : Bytes) (value : Value) :
    WriteCall where
  pad := context.pad
  tag := tag
  point := { ts := timeOf context.now (rowTimes columns row), value := value }

/-- The call writes the row. -/
def WritesRow (conv : Conversions) (context : Nat → RowContext) (columns row : List Bytes)
    (call : WriteCall) : Prop :=
  ∃ i tag v bits, (rowTags columns row).getLast? = some tag ∧
    (rowValues columns row).getLast? = some v ∧ conv.stod v = some bits ∧
    call = rowCall (context i) columns row tag (.double bits)

theorem registered_of_not_stops {conv : Conversions} {registered : Bytes → Bool}
    {columns row : List Bytes} (h : stops conv registered columns row = false) :
    ∀ tag ∈ rowTags columns row, registered tag = true := by
  intro tag htag
  rw [stops, Bool.or_eq_false_iff, List.any_eq_false] at h
  simpa using h.1 tag htag

theorem incomplete_eq_false {columns row : List Bytes} :
    incomplete columns row = false ↔ ∃ tag v, (rowTags columns row).getLast? = some tag ∧
      (rowValues columns row).getLast? = some v := by
  simp only [incomplete, Bool.or_eq_false_iff, List.isEmpty_eq_false_iff, ← List.getLast?_isSome,
    Option.isSome_iff_exists, exists_and_left, exists_and_right]

namespace Backend

variable {env : Env Loc} {s s' : Backend Loc}

theorem write_double {call : WriteCall} {bits : UInt64} (h : call.point.value = .double bits) :
    ∃ s', s.write env call = some s' := by
  obtain ⟨pad, tag, ts, value⟩ := call
  cases h
  exact ⟨_, congrArg (Option.map _) (s.executor.engine.write_double env pad tag ts bits)⟩

/-- The log throws before anything is written. -/
theorem write_string {call : WriteCall} {text : Bytes} (h : call.point.value = .string text) :
    s.write env call = none := by
  rw [write, Engine.write, appendWrite, h]
  rfl

/-- A write leaves the tags as they are, and the log is longer. -/
theorem of_write {call : WriteCall} (h : s.write env call = some s') (stmt : InsertStmt) :
    s'.registered stmt = s.registered stmt ∧
      s.executor.engine.wal.data.length < s'.executor.engine.wal.data.length := by
  obtain ⟨engine, hengine, rfl⟩ := Option.map_eq_some_iff.mp h
  refine ⟨rfl, ?_⟩
  show _ < engine.wal.data.length
  obtain ⟨pad, tag, ts, value⟩ := call
  cases value with
  | double bits =>
    rw [Engine.write_double] at hengine
    cases hengine
    rw [data_setData, List.length_append, WalRecord.bytes, List.length_append, length_walHeader]
    omega
  | int64 i => cases hengine
  | string text => cases hengine

/-! ## The loop row by row -/

section
variable {conv : Conversions} {stmt : InsertStmt} {row : List Bytes}
variable (env) (context : Nat → RowContext) (rows : List (List Bytes)) (i : Nat) (count : Int64)

theorem insertRows_stops (h : stops conv (s.registered stmt) stmt.columns row = true) :
    ∃ outcome, outcome.failed = true ∧ insertRows env conv context stmt (row :: rows) i count s
      = { outcome := outcome, writes := [], stores := s } := by
  cases hscan : scanRow conv (s.registered stmt) (context i).now stmt.columns row with
  | error tag =>
    refine ⟨.returned (tagNotFound stmt.tableName tag), rfl, ?_⟩
    rw [insertRows, hscan]
  | ok scan =>
    -- every tag is registered, so it is the value
    have hall := (scanRow_isOk conv _ (context i).now stmt.columns row).mp ⟨scan, hscan⟩
    have hnone : (rowTags stmt.columns row).any (fun tag => !s.registered stmt tag) = false := by
      simpa using hall
    rw [stops, hnone, Bool.false_or, Bool.and_eq_true, Option.any_eq_true] at h
    obtain ⟨htags, v, hv, hstring⟩ := h
    have hvalue : valueOf conv v = .string v := by rw [valueOf, Option.isNone_iff_eq_none.mp hstring]
    refine ⟨.raised, rfl, ?_⟩
    rw [insertRows, scanRow_eq hall, List.getLast?_map, hv]
    cases htag : (rowTags stmt.columns row).getLast? with
    | none =>
      rw [List.getLast?_eq_none_iff.mp htag] at htags
      cases htags
    | some tag =>
      simp only [Option.map_some, hvalue]
      rw [write_string rfl]

theorem insertRows_incomplete (hgo : stops conv (s.registered stmt) stmt.columns row = false)
    (h : incomplete stmt.columns row = true) :
    insertRows env conv context stmt (row :: rows) i count s
      = insertRows env conv context stmt rows (i + 1) count s := by
  rw [insertRows, scanRow_eq (registered_of_not_stops hgo), List.getLast?_map]
  rw [incomplete, Bool.or_eq_true, List.isEmpty_iff, List.isEmpty_iff] at h
  rcases h with h | h
  · rw [h]
    rfl
  · rw [h]
    cases (rowTags stmt.columns row).getLast? <;> rfl

theorem insertRows_complete (hgo : stops conv (s.registered stmt) stmt.columns row = false)
    (h : incomplete stmt.columns row = false) :
    ∃ tag v bits s', (rowTags stmt.columns row).getLast? = some tag ∧
      (rowValues stmt.columns row).getLast? = some v ∧ conv.stod v = some bits ∧
      s.write env (rowCall (context i) stmt.columns row tag (.double bits)) = some s' ∧
      insertRows env conv context stmt (row :: rows) i count s =
        { insertRows env conv context stmt rows (i + 1) (count + 1) s' with
          writes := rowCall (context i) stmt.columns row tag (.double bits) ::
            (insertRows env conv context stmt rows (i + 1) (count + 1) s').writes } := by
  obtain ⟨tag, v, htag, hv⟩ := incomplete_eq_false.mp h
  have htags : (rowTags stmt.columns row).isEmpty = false := by
    rw [List.isEmpty_eq_false_iff, ← List.getLast?_isSome, htag]
    rfl
  have hnumber : ∃ bits, conv.stod v = some bits := by
    rw [stops, htags, hv, Bool.or_eq_false_iff] at hgo
    exact Option.isSome_iff_exists.mp (by simpa using hgo.2)
  obtain ⟨bits, hbits⟩ := hnumber
  have hvalue : valueOf conv v = .double bits := by rw [valueOf, hbits]
  obtain ⟨s', hwrite⟩ :
      ∃ s', s.write env (rowCall (context i) stmt.columns row tag (.double bits)) = some s' :=
    write_double rfl
  refine ⟨tag, v, bits, s', htag, hv, hbits, hwrite, ?_⟩
  rw [insertRows, scanRow_eq (registered_of_not_stops hgo), List.getLast?_map, htag, hv]
  simp only [Option.map_some, hvalue]
  unfold rowCall at hwrite ⊢
  rw [hwrite]

end

/-! ## The whole run -/

/-- **What is left is what the writes have left.** -/
theorem insertRows_writes (env : Env Loc) (conv : Conversions) (context : Nat → RowContext)
    (stmt : InsertStmt) (rows : List (List Bytes)) (i : Nat) (count : Int64) (s : Backend Loc) :
    (insertRows env conv context stmt rows i count s).writes.foldlM (write env) s
      = some (insertRows env conv context stmt rows i count s).stores := by
  induction rows generalizing i count s with
  | nil => rfl
  | cons row rows ih =>
    cases hstops : stops conv (s.registered stmt) stmt.columns row with
    | true =>
      obtain ⟨outcome, -, hrun⟩ := insertRows_stops env context rows i count hstops
      rw [hrun]
      rfl
    | false =>
      cases hrow : incomplete stmt.columns row with
      | true =>
        rw [insertRows_incomplete env context rows i count hstops hrow]
        exact ih (i + 1) count s
      | false =>
        obtain ⟨tag, v, bits, s', -, -, -, hwrite, hrun⟩ :=
          insertRows_complete env context rows i count hstops hrow
        rw [hrun]
        dsimp only
        rw [List.foldlM_cons, hwrite]
        exact ih (i + 1) (count + 1) s'

theorem insert_writes (env : Env Loc) (conv : Conversions) (context : Nat → RowContext)
    (s : Backend Loc) (stmt : InsertStmt) :
    (s.insert env conv context stmt).writes.foldlM (write env) s
      = some (s.insert env conv context stmt).stores := by
  rw [insert]
  split
  case isTrue => rfl
  case isFalse =>
    split
    case isTrue => exact insertRows_writes env conv context stmt stmt.rows 0 0 s
    case isFalse => rfl

theorem foldlM_write_length {writes : List WriteCall} {s s' : Backend Loc} (stmt : InsertStmt)
    (h : writes.foldlM (write env) s = some s') :
    s.executor.engine.wal.data.length + writes.length ≤ s'.executor.engine.wal.data.length := by
  induction writes generalizing s with
  | nil =>
    cases h
    exact le_rfl
  | cons call writes ih =>
    rw [List.foldlM_cons] at h
    obtain ⟨s₁, hfirst, hrest⟩ := Option.bind_eq_some_iff.mp h
    have hlonger := (of_write hfirst stmt).2
    have hmore := ih hrest
    rw [List.length_cons]
    omega

/-- **Only a run without a write leaves everything as it was**, since the log gets longer. -/
theorem insertRows_backend_eq_iff {conv : Conversions} {context : Nat → RowContext}
    {stmt : InsertStmt} {rows : List (List Bytes)} {i : Nat} {count : Int64} :
    (insertRows env conv context stmt rows i count s).stores = s ↔
      (insertRows env conv context stmt rows i count s).writes = [] := by
  have hwrites := insertRows_writes env conv context stmt rows i count s
  constructor
  · intro h
    rw [h] at hwrites
    have hlength := foldlM_write_length stmt hwrites
    exact List.length_eq_zero_iff.mp (by omega)
  · intro h
    rw [h] at hwrites
    exact (Option.some_inj.mp hwrites).symm

/-- **It fails if a row ends it, and has written nothing by then if the rows in front have left it
nothing to write.** -/
theorem insertRows_spec (env : Env Loc) {conv : Conversions} (context : Nat → RowContext)
    {stmt : InsertStmt} {registered : Bytes → Bool} (rows : List (List Bytes)) (i : Nat) (count : Int64)
    (s : Backend Loc) (hs : s.registered stmt = registered) :
    ((insertRows env conv context stmt rows i count s).outcome.failed = true ↔
        ∃ row ∈ rows, stops conv registered stmt.columns row = true) ∧
      ((insertRows env conv context stmt rows i count s).writes = [] ↔
        ∀ row ∈ rows.takeWhile fun row => !stops conv registered stmt.columns row,
          incomplete stmt.columns row = true) := by
  induction rows generalizing i count s with
  | nil => simp [insertRows, InsertOutcome.failed]
  | cons row rows ih =>
    rw [List.exists_mem_cons_iff]
    cases hstops : stops conv registered stmt.columns row with
    | true =>
      obtain ⟨outcome, hfailed, hrun⟩ := 
        insertRows_stops env context rows i count (hs ▸ hstops)
      rw [hrun, List.takeWhile_cons_of_neg (by simp [hstops])]
      simp [hfailed]
    | false =>
      rw [List.takeWhile_cons_of_pos (by simp [hstops]), List.forall_mem_cons]
      cases hrow : incomplete stmt.columns row with
      | true =>
        rw [insertRows_incomplete env context rows i count (hs ▸ hstops) hrow]
        simpa using ih (i + 1) count s hs
      | false =>
        obtain ⟨tag, v, bits, s', -, -, -, hwrite, hrun⟩ :=
          insertRows_complete env context rows i count (hs ▸ hstops) hrow
        rw [hrun]
        have hthere := (ih (i + 1) (count + 1) s' ((of_write hwrite stmt).1.trans hs)).1
        simpa using hthere

/-- **Rows that have both and none of which ends the statement are written one by one.** -/
theorem insertRows_all (env : Env Loc) {conv : Conversions} (context : Nat → RowContext)
    {stmt : InsertStmt} {registered : Bytes → Bool} {rows : List (List Bytes)}
    (hgo : ∀ row ∈ rows, stops conv registered stmt.columns row = false)
    (hboth : ∀ row ∈ rows, incomplete stmt.columns row = false) (i : Nat) (count : Int64)
    (s : Backend Loc) (hs : s.registered stmt = registered) :
    (insertRows env conv context stmt rows i count s).outcome
        = .returned { ok := true, affectedRows := count + Int64.ofNat rows.length } ∧
      List.Forall₂ (WritesRow conv context stmt.columns) rows
        (insertRows env conv context stmt rows i count s).writes := by
  induction rows generalizing i count s with
  | nil => exact ⟨by simp [insertRows], .nil⟩
  | cons row rows ih =>
    obtain ⟨hfirst, hgo⟩ := List.forall_mem_cons.mp hgo
    obtain ⟨hrow, hboth⟩ := List.forall_mem_cons.mp hboth
    obtain ⟨tag, v, bits, s', htag, hv, hbits, hwrite, hrun⟩ :=
      insertRows_complete env context rows i count (hs ▸ hfirst) hrow
    obtain ⟨houtcome, hwrites⟩ :=
      ih hgo hboth (i + 1) (count + 1) s' ((of_write hwrite stmt).1.trans hs)
    have hcount : count + 1 + Int64.ofNat rows.length = count + Int64.ofNat (rows.length + 1) := by
      rw [Int64.ofNat_add, Int64.add_assoc, Int64.add_comm 1]
      rfl
    rw [hcount] at houtcome
    rw [hrun]
    exact ⟨houtcome, .cons ⟨i, tag, v, bits, htag, hv, hbits, rfl⟩ hwrites⟩

theorem insert_failed_of_stops (env : Env Loc) {conv : Conversions} (context : Nat → RowContext)
    {s : Backend Loc} {stmt : InsertStmt}
    (h : ∃ row ∈ stmt.rows, stops conv (s.registered stmt) stmt.columns row = true) :
    (s.insert env conv context stmt).outcome.failed = true := by
  rw [insert]
  split
  case isTrue => rfl
  case isFalse =>
    split
    case isTrue => exact (insertRows_spec env context stmt.rows 0 0 s rfl).1.mpr h
    case isFalse => rfl

/-- **A failed `INSERT` leaves everything as it was if no row in front of the one that ends it has
both a tag and a value.** Nothing is undone. -/
theorem insert_failed_iff (env : Env Loc) (conv : Conversions) (context : Nat → RowContext)
    (s : Backend Loc) (stmt : InsertStmt) :
    ((s.insert env conv context stmt).outcome.failed = true →
        (s.insert env conv context stmt).stores = s) ↔
      (s.executor.tiers.tableExists s.executor.currentDb stmt.tableName = true →
        (∃ row ∈ stmt.rows, stops conv (s.registered stmt) stmt.columns row = true) →
          ∀ row ∈ stmt.rows.takeWhile fun row => !stops conv (s.registered stmt) stmt.columns row,
            incomplete stmt.columns row = true) := by
  obtain ⟨hfailed, hwrites⟩ :=
    insertRows_spec env context stmt.rows 0 0 s (Eq.refl (s.registered stmt))
  rw [insert]
  split
  case isTrue hempty =>
    rw [List.isEmpty_iff.mp hempty]
    simp
  case isFalse =>
    split
    case isTrue htable =>
      rw [insertRows_backend_eq_iff, hfailed, hwrites]
      simp only [htable, true_imp_iff]
    case isFalse htable => simp [htable]

/-- The tag `x` of the table `t`, with nothing written. -/
def ofOneTag : Backend Bytes where
  executor := executorOn [[ascii "d", ascii "tables", ascii "t", ascii "tags", ascii "x"]]
  alarms := { rules := [], distinct := List.nodup_nil }
  snapshot := .empty

/-- `INSERT INTO t (tag, value) VALUES ('x', '1'), ('y', '1')`, with no tag `y`: the statement has
failed, and the point of `x` is there. -/
theorem insert_failed_has_written : ¬ ∀ (env : Env Bytes) (conv : Conversions)
    (context : Nat → RowContext) (s : Backend Bytes) (stmt : InsertStmt),
    (s.insert env conv context stmt).outcome.failed = true →
      (s.insert env conv context stmt).stores = s := by
  intro h
  have hkept := h plainSetting.env plainSetting.conv plainSetting.context ofOneTag
    { tableName := ascii "t", columns := [ascii "tag", ascii "value"]
      rows := [[ascii "x", ascii "1"], [ascii "y", ascii "1"]] }
  have hrun : ∀ stmt : InsertStmt, stmt.rows ≠ [] → stmt.tableName = ascii "t" →
      ofOneTag.insert plainSetting.env plainSetting.conv plainSetting.context stmt
        = insertRows plainSetting.env plainSetting.conv plainSetting.context stmt stmt.rows 0 0
          ofOneTag := by
    intro stmt hrows htable
    rw [insert, if_neg (by simpa using hrows), htable, if_pos (by decide)]
  rw [hrun _ (by simp) rfl, insertRows_backend_eq_iff,
    (insertRows_spec _ _ _ _ _ _ rfl).1, (insertRows_spec _ _ _ _ _ _ rfl).2] at hkept
  exact absurd hkept (by decide)

end Backend

end Sql
end MiniTSDB
