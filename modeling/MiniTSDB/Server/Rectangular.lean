import MiniTSDB.Server.WriteLog

/-!
# Every row has a value for each column

Whatever is asked of the service, the rows of a response are as long as its list of columns
(`rectangular_of_serve`). The statements are gone through one by one; those with nothing to say have
no rows.
-/

namespace MiniTSDB
namespace Server

open Lib Os Storage Sql Auth Alarm Snapshot

/-- Every row has a value for each column. -/
def Rectangular (columns : List Bytes) (rows : List (List Bytes)) : Prop :=
  ∀ row ∈ rows, row.length = columns.length

theorem rectangular_nil (columns : List Bytes) : Rectangular columns [] :=
  fun _ hrow => absurd hrow List.not_mem_nil

theorem rectangular_singleton {columns row : List Bytes} (h : row.length = columns.length) :
    Rectangular columns [row] := by
  intro other hother
  rw [List.mem_singleton.mp hother]
  exact h

theorem rectangular_map {α : Type} {columns : List Bytes} {row : α → List Bytes} (xs : List α)
    (h : ∀ x, (row x).length = columns.length) : Rectangular columns (xs.map row) := by
  rintro _ hmem
  obtain ⟨x, -, rfl⟩ := List.mem_map.mp hmem
  exact h x

/-- What a statement returns is rectangular. -/
def Squared (ending : InsertOutcome) : Prop :=
  ∀ result, ending = .returned result → Rectangular result.columnNames result.rows

theorem squared_raised : Squared .raised := fun _ h => nomatch h

theorem squared_returned {result : QueryResult} (h : Rectangular result.columnNames result.rows) :
    Squared (.returned result) := by
  rintro _ ⟨⟩
  exact h

theorem rectangular_snapshotRows (toText : UInt64 → Bytes) (sel : SnapshotColumns)
    (entries : List CachedSnapshot) :
    Rectangular (snapshotRows toText sel entries).columnNames
      (snapshotRows toText sel entries).rows := by
  show Rectangular (snapshotColumnNames sel) (entries.map (snapshotRow toText sel))
  apply rectangular_map
  intro entry
  unfold snapshotRow snapshotColumnNames
  rw [List.length_append, List.length_append, List.length_append, List.length_append]
  congr 1
  · congr 1
    · split
      · rfl
      · rfl
    · split
      · rfl
      · rfl
  · split
    · rfl
    · rfl

theorem rectangular_executeSnapshot (toText : UInt64 → Bytes) (store : SnapshotMap)
    (order : List CachedSnapshot) (stmt : SelectStmt) :
    Rectangular (executeSnapshot toText (some (some store)) order stmt).columnNames
      (executeSnapshot toText (some (some store)) order stmt).rows := by
  unfold executeSnapshot
  dsimp only
  split
  · exact rectangular_snapshotRows toText _ _
  · split
    · exact rectangular_snapshotRows toText _ _
    · split
      · exact rectangular_singleton rfl
      · exact rectangular_snapshotRows toText _ _

section

variable {Loc V : Type} [DecidableEq Loc]
variable [LinearOrder V] [Zero V] [Add V] [Mul V] [Div V] [NatCast V] [Sub V]

theorem squared_executeSelect (w : World Loc V) (env : CallEnv) (d : Data Loc) (stmt : SelectStmt) :
    Squared (d.executeSelect w env stmt) := by
  unfold Data.executeSelect
  cases selectKind stmt with
  | snapshot => exact squared_returned (rectangular_executeSnapshot _ _ _ _)
  | latest => exact squared_returned (rectangular_map _ fun _ => rfl)
  | aggregate =>
    dsimp only
    unfold executeSelectAggregate
    cases stmt.groupBy with
    | none => exact squared_returned (rectangular_nil _)
    | some bucket =>
      dsimp only
      cases aggregateCall stmt bucket with
      | none => exact squared_raised
      | some call => exact squared_returned (rectangular_map _ fun _ => rfl)
  | raw => exact squared_returned (rectangular_map _ fun _ => rfl)

/-- A statement that has no rows to return. -/
theorem squared_of_nil {result : QueryResult} (h : result.rows = []) :
    Squared (.returned result) := by
  apply squared_returned
  rw [h]
  exact rectangular_nil _

omit [LinearOrder V] [Zero V] [Add V] [Mul V] [Div V] [NatCast V] [Sub V] in
theorem squared_insertRows (w : World Loc V) (env : CallEnv) (db : Bytes) (stmt : InsertStmt)
    (rows : List (List Bytes)) (i : Nat) (count : Int64) (d : Data Loc) :
    Squared (d.insertRows w env db stmt rows i count).1 := by
  induction rows generalizing i count d with
  | nil => exact squared_of_nil rfl
  | cons row rows ih =>
    unfold Data.insertRows
    split
    · exact squared_of_nil rfl
    · split
      · exact squared_raised
      · exact ih _ _ _
    · exact ih _ _ _

omit [LinearOrder V] [Zero V] [Add V] [Mul V] [Div V] [NatCast V] [Sub V] in
theorem squared_executeInsert (w : World Loc V) (env : CallEnv) (db : Bytes) (d : Data Loc)
    (stmt : InsertStmt) : Squared (d.executeInsert w env db stmt).1 := by
  unfold Data.executeInsert
  split
  · exact squared_of_nil rfl
  · split
    · exact squared_insertRows w env db stmt stmt.rows 0 0 d
    · exact squared_of_nil rfl

omit [LinearOrder V] [Zero V] [Add V] [Mul V] [Div V] [NatCast V] [Sub V] in
theorem squared_executeUpdate (w : World Loc V) (env : CallEnv) (db : Bytes) (d : Data Loc)
    (stmt : UpdateStmt) : Squared (d.executeUpdate w env db stmt).1 := by
  unfold Data.executeUpdate
  dsimp only
  split
  · exact squared_raised
  · exact squared_of_nil rfl

/-- Done or not, there are no rows. -/
theorem rows_done_or {c : Prop} [Decidable c] (n : Int64) (errorMsg : Bytes) :
    (if c then done n else { errorMsg := errorMsg } : QueryResult).rows = [] := by
  split
  · rfl
  · rfl

/-- And so with a check in front. -/
theorem rows_fst_or {c : Prop} [Decidable c] {α : Type} (n : Int64) {errors : QueryResult}
    (herrors : errors.rows = []) (x y : α) :
    (if c then (done n, x) else (errors, y)).1.rows = [] := by
  split
  · rfl
  · exact herrors

theorem rows_executeCreateTags (paths : DataPaths) (db : Bytes) (stmt : CreateTagsStmt) :
    (executeCreateTags paths db stmt).1.rows = [] := by
  unfold executeCreateTags
  split
  · rfl
  · rfl

theorem squared_executeShow (rules : List AlarmRule) (a : AuthManager) (now : Timestamp)
    (token : Bytes) (listing : Option (List DirEntry)) (stmt : ShowStmt) :
    Squared (.returned (executeShow rules a now token listing stmt).1) := by
  have hlisting : ∀ name, Rectangular [name] (directoryRows listing) :=
    fun name => rectangular_map _ fun _ => rfl
  unfold executeShow
  cases stmt.type with
  | databases =>
    dsimp only
    split
    · exact squared_returned (rectangular_singleton rfl)
    · exact squared_returned (hlisting _)
  | tables => exact squared_returned (hlisting _)
  | tags =>
    dsimp only
    split
    · exact squared_of_nil rfl
    · exact squared_returned (hlisting _)
  | users => exact squared_returned (rectangular_map _ fun _ => rfl)
  | alarms => exact squared_returned (rectangular_map _ fun _ => rfl)

/-- **What a statement returns is rectangular.** -/
theorem squared_dispatch (w : World Loc V) (env : CallEnv) (db token : Bytes) (s : Service Loc)
    (stmt : SQLStmt) : Squared (dispatch w env db token s stmt).1 := by
  cases stmt with
  | insert stmt => exact squared_executeInsert w env db s.data stmt
  | select stmt => exact squared_executeSelect w env s.data stmt
  | update stmt => exact squared_executeUpdate w env db s.data stmt
  | show_ stmt => exact squared_executeShow _ _ _ _ _ stmt
  | use name => exact squared_returned (rectangular_singleton rfl)
  | alterTag stmt =>
    show Squared (.returned (executeAlterTag stmt))
    unfold executeAlterTag
    split
    · exact squared_of_nil rfl
    · exact squared_returned (rectangular_singleton rfl)
  | createTag stmt => exact squared_of_nil rfl
  | createAlarm stmt => exact squared_of_nil (rows_done_or _ _)
  | alterSystem stmt => exact squared_of_nil rfl
  | createUser stmt => exact squared_of_nil (rows_done_or _ _)
  | dropTag stmt => exact squared_of_nil rfl
  | dropAlarm name => exact squared_of_nil rfl
  | dropUser username => exact squared_of_nil (rows_done_or _ _)
  | dropTable name => exact squared_of_nil rfl
  | dropDatabase name => exact squared_of_nil rfl
  | createDatabase name => exact squared_of_nil (rows_fst_or _ rfl _ _)
  | createTable stmt => exact squared_of_nil (rows_fst_or _ rfl _ _)
  | createTags stmt => exact squared_of_nil (rows_executeCreateTags _ _ _)
  | alterAlarm stmt => exact squared_of_nil (rows_done_or _ _)
  | alterUser stmt => exact squared_of_nil (rows_done_or _ _)
  | delete stmt => exact squared_of_nil rfl

omit [LinearOrder V] [Zero V] [Add V] [Mul V] [Div V] [NatCast V] [Sub V] in
theorem insertPoints_ne_query (w : World Loc V) (env : CallEnv) (points : List TagValue) (i : Nat)
    (count : Int64) (d : Data Loc) (res : QueryResponse) :
    (d.insertPoints w env points i count).1 ≠ .query res := by
  induction points generalizing i count d with
  | nil => exact fun h => nomatch h
  | cons p points ih =>
    unfold Data.insertPoints
    split
    · exact fun h => nomatch h
    · exact ih _ _ _

theorem adminResponse_ne_query (ending : InsertOutcome) (res : QueryResponse) :
    adminResponse ending ≠ .query res := by
  cases ending with
  | raised => exact fun h => nomatch h
  | returned result => exact fun h => nomatch h

theorem squared_runSQL (w : World Loc V) (env : CallEnv) (s : Service Loc) (sql : Bytes) :
    Squared (runSQL w env s sql).1 := by
  unfold runSQL
  cases parseSql w.conv sql with
  | error fault => exact squared_raised
  | ok parsed =>
    dsimp only
    cases parsed.stmt with
    | none => exact squared_of_nil rfl
    | some stmt =>
      dsimp only
      rw [execute_nil]
      exact squared_dispatch w env [] [] s stmt

theorem rectangular_queryResponse {ending : InsertOutcome} (h : Squared ending)
    {res : QueryResponse} (hres : queryResponse ending = .query res) :
    Rectangular res.columns res.rows := by
  cases ending with
  | raised => cases hres
  | returned result =>
    unfold queryResponse at hres
    dsimp only at hres
    split at hres
    · cases hres
      exact h result rfl
    · cases hres
      exact rectangular_nil _

/-- **Every row that is sent has a value for each column.** -/
theorem rectangular_of_serve {w : World Loc V} {s : Service Loc} {call : CallEnv × Request}
    {res : QueryResponse} (h : (serve w s call).1 = .query res) :
    Rectangular res.columns res.rows := by
  obtain ⟨env, request⟩ := call
  unfold serve handle at h
  cases request with
  | query token sql =>
    dsimp only [guarded] at h
    generalize s.auth.checkPermission env.auth.now token sql = checked at h
    obtain ⟨permitted, a⟩ := checked
    cases permitted with
    | false =>
      cases h
      exact rectangular_nil _
    | true => exact rectangular_queryResponse (squared_runSQL w env _ sql) h
  | insert request =>
    dsimp only [guarded] at h
    split at h
    · cases h
    · exact absurd h (insertPoints_ne_query w env request.points 0 0 _ res)
  | auth username password =>
    dsimp only at h
    split at h
    · cases h
    · cases h
  | admin token command =>
    dsimp only [guarded] at h
    split at h
    · cases h
    · exact absurd h (adminResponse_ne_query _ _)
  | snapshot request =>
    dsimp only at h
    split at h
    · cases h
    · cases h

end

end Server
end MiniTSDB
