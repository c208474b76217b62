import MiniTSDB.Server.BucketWidth
import MiniTSDB.Server.Insert
import MiniTSDB.Server.SnapshotCount
import MiniTSDB.Sql.InsertRun

/-!
# The service (`grpc_server.cpp`, `executor.cpp`)

Five calls over one engine, one cache of latest values and one `AuthManager`. A `Query` and an
`Admin` make an executor for their statement, so it has no database of a `USE` before it, and no
token: what it asks of the accounts it asks with the empty one.

Here is the whole of `Execute`, and the calls with their responses. What going over a map or a
directory gives is in no particular order, and so comes with the call.
-/

namespace MiniTSDB
namespace Server

open Lib Os Storage Sql Auth Alarm Snapshot

/-! ## What the service has -/

/-- What the calls read and write, apart from the accounts. The engine keeps its files in one
directory of the tree; they are in `engine`, and how they show in the tree is part of `World`. -/
structure Data (Loc : Type) where
  engine : Engine Loc
  alarms : AlarmEngine := { rules := [], distinct := List.nodup_nil }
  snapshot : SnapshotMap := .empty
  cache : LatestCache := ∅
  tree : Tree

structure Service (Loc : Type) where
  data : Data Loc
  auth : AuthManager

/-- What the service is built on: the paths, the functions of the library, and what a file of the
engine is in the tree (`shown`) and a call of the file system for these files (`swept`). -/
structure World (Loc V : Type) where
  env : Env Loc
  paths : DataPaths
  conv : Conversions
  sorts : Sorts
  bucketSort : KeySort (bucketKey (V := V))
  ofBits : UInt64 → V
  formats : Formats
  doubles : DoubleFunctions V
  toText : UInt64 → Bytes
  shown : Disk Loc → Tree → Tree
  swept : List FsOp → Disk Loc → Disk Loc

/-- What a call gets from outside while it runs. -/
structure CallEnv where
  auth : AuthEnv
  rows : Nat → RowContext
  points : Nat → PointContext
  pad : HeaderPad
  listing : Option (List DirEntry)
  tagFiles : List DirEntry
  cacheOrder : List (Bytes × DataPoint)
  snapshotOrder : List CachedSnapshot

variable {Loc : Type} [DecidableEq Loc] {V : Type}

namespace Data

/-- `StorageEngine::Write`; `none` where the log throws. -/
def engineWrite (w : World Loc V) (d : Data Loc) (call : WriteCall) : Option (Data Loc) :=
  (d.engine.write w.env call.pad call.tag call.point).map fun engine =>
    { d with
      engine := engine
      alarms := (d.alarms.evaluate call.tag call.point).1
      snapshot := d.snapshot.onWrite call.tag call.point
      tree := w.shown engine.disk d.tree }

/-- `engine_->Write` and `cache_->Update`. -/
def write (w : World Loc V) (d : Data Loc) (call : WriteCall) : Option (Data Loc) :=
  (d.engineWrite w call).map fun d => { d with cache := d.cache.update call.tag call.point }

omit [DecidableEq Loc] in
/-- Calls of the file system. -/
def runOps (w : World Loc V) (d : Data Loc) (ops : List FsOp) : Data Loc :=
  { d with
    tree := Storage.runOps d.tree ops
    engine := { d.engine with disk := w.swept ops d.engine.disk } }

omit [DecidableEq Loc] in
/-- What the executor reads. -/
def executor (d : Data Loc) : Executor Loc :=
  { engine := d.engine, tiers := { hot := d.tree, cold := d.tree }, cache := d.cache }

/-! ## Statements -/

/-- The loop of `ExecuteInsert`. -/
def insertRows (w : World Loc V) (env : CallEnv) (db : Bytes) (stmt : InsertStmt) :
    List (List Bytes) → Nat → Int64 → Data Loc → InsertOutcome × Data Loc
  | [], _, count, d => (.returned (done count), d)
  | row :: rows, i, count, d =>
    match scanRow w.conv (w.paths.tagExists d.tree db stmt.tableName) (env.rows i).now stmt.columns
      row with
    | .error tag => (.returned (tagNotFound stmt.tableName tag), d)
    | .ok { tag := some tag, value := some value, ts := ts } =>
      match d.write w { pad := (env.rows i).pad, tag := tag, point := { ts := ts, value := value } }
      with
      | none => (.raised, d)
      | some d => insertRows w env db stmt rows (i + 1) (count + 1) d
    | .ok _ => insertRows w env db stmt rows (i + 1) count d

/-- `ExecuteInsert`. -/
def executeInsert (w : World Loc V) (env : CallEnv) (db : Bytes) (d : Data Loc)
    (stmt : InsertStmt) : InsertOutcome × Data Loc :=
  if stmt.rows.isEmpty then (.returned { errorMsg := ascii "No values to insert" }, d)
  else if w.paths.tableExists d.tree db stmt.tableName then
    insertRows w env db stmt stmt.rows 0 0 d
  else (.returned (tableNotFound stmt.tableName), d)

/-- `ExecuteUpdate`. -/
def executeUpdate (w : World Loc V) (env : CallEnv) (db : Bytes) (d : Data Loc)
    (stmt : UpdateStmt) : InsertOutcome × Data Loc :=
  let d := d.runOps w (w.paths.dropTag db stmt.tableName stmt.tagFilter)
  match d.engineWrite w
    { pad := env.pad, tag := flatKey db stmt.tableName stmt.tagFilter
      point := { ts := stmt.exactTime, value := .double stmt.newValue } } with
  | none => (.raised, d)
  | some d => (.returned (done 1), d)

section
variable [LinearOrder V] [Zero V] [Add V] [Mul V] [Div V] [NatCast V] [Sub V]

/-- `ExecuteSelect`; it raises nothing, but what it answers is undefined where the width of the
buckets overflows. -/
def executeSelect (w : World Loc V) (env : CallEnv) (d : Data Loc) (stmt : SelectStmt) :
    InsertOutcome :=
  match selectKind stmt with
  | .snapshot => .returned (executeSnapshot w.toText (some (some d.snapshot)) env.snapshotOrder stmt)
  | .latest => .returned (d.executor.executeSelectLatest w.formats stmt env.cacheOrder)
  | .aggregate =>
    match executeSelectAggregate w.env w.sorts w.bucketSort w.ofBits w.formats w.doubles d.executor
      stmt env.tagFiles with
    | none => .raised
    | some result => .returned result
  | .raw => .returned (d.executor.executeSelectRaw w.env w.sorts w.formats stmt env.tagFiles)

end

end Data

/-- What `SHOW USERS` writes for a role. -/
def roleText (role : UserRole) : Bytes :=
  if role = .admin then ascii "admin"
  else if role = .operator then ascii "operator"
  else ascii "viewer"

/-- The actions of a rule, with commas between them. -/
def joinActions (actions : List Bytes) : Bytes := [comma].intercalate actions

/-- The rows of the directories among the entries, which are none where the path cannot be
listed. -/
def directoryRows (listing : Option (List DirEntry)) : List (List Bytes) :=
  ((listing.getD []).filter (·.isDirectory)).map fun entry => [entry.name]

/-- The directory that `ExecuteShow` lists. `GetTablePath` of a table without a name ends in a
slash, which is taken off. -/
def showPath (paths : DataPaths) (db : Bytes) (stmt : ShowStmt) : Option Bytes :=
  match stmt.type with
  | .databases => some (ascii "./data/hot")
  | .tables =>
    let dir := paths.getTablePath (if stmt.filterDb = [] then db else stmt.filterDb) []
    some (if dir.getLast? = some slash then dir.dropLast else dir)
  | .tags => if stmt.filterTable = [] then none else some (paths.getTagPath db stmt.filterTable [])
  | .users => none
  | .alarms => none

/-- What a `SHOW` says: the rows under their columns. -/
def listed (columns : List Bytes) (rows : List (List Bytes)) : QueryResult :=
  { ok := true, columnNames := columns, rows := rows }

/-- `ExecuteShow`. -/
def executeShow (rules : List AlarmRule) (a : AuthManager) (now : Timestamp) (token : Bytes)
    (listing : Option (List DirEntry)) (stmt : ShowStmt) : QueryResult × AuthManager :=
  match stmt.type with
  | .databases =>
    let rows := directoryRows listing
    (listed [ascii "Database"] (if rows.isEmpty then [[ascii "default"]] else rows), a)
  | .tables => (listed [ascii "Table"] (directoryRows listing), a)
  | .tags =>
    if stmt.filterTable = [] then ({ errorMsg := ascii "SHOW TAGS requires FROM <table>" }, a)
    else (listed [ascii "Tag"] (directoryRows listing), a)
  | .users =>
    let (users, a) := a.getUsers now token
    (listed [ascii "username", ascii "role"] (users.map fun u => [u.name, roleText u.role]), a)
  | .alarms =>
    (listed [ascii "name", ascii "tag", ascii "condition", ascii "actions"]
      (rules.map fun r => [r.name, r.tagName, r.condition, joinActions r.actions]), a)

/-- `ExecuteCreateAlarm`. -/
def executeCreateAlarm (conv : Conversions) (e : AlarmEngine) (stmt : CreateAlarmStmt) :
    QueryResult × AlarmEngine :=
  let (added, e) := e.addRule conv.stod
    { name := stmt.alarmName, tagName := stmt.tagName, condition := stmt.condition
      actions := stmt.actions }
  (if added then done 1
    else { errorMsg := ascii "Failed to add alarm rule (may duplicate name)" }, e)

/-- `ExecuteAlterAlarm`, of the engine. -/
def alterAlarm (conv : Conversions) (e : AlarmEngine) (stmt : AlterStmt) :
    QueryResult × AlarmEngine :=
  ((executeAlterAlarm conv e.rules stmt).1,
    (e.alterRule conv.stod stmt.name stmt.property stmt.value).2)

/-- `ExecuteDropUser`. -/
def executeDropUser (env : AuthEnv) (token : Bytes) (a : AuthManager) (username : Bytes) :
    QueryResult × AuthManager :=
  let (dropped, a) := a.dropUser env token username
  (if dropped then done 1
    else { errorMsg := ascii "Failed to drop user (admin only / last admin / not found)" }, a)

/-- What `ExecuteCreateUser` answers. -/
def createUserResult (created : Bool) : QueryResult :=
  if created then done 1 else { errorMsg := ascii "Failed to create user (may already exist)" }

/-- What a statement answers that has nothing to do but to say so. -/
def okMessage : QueryResult :=
  { ok := true, columnNames := [ascii "message"], rows := [[ascii "OK"]], affectedRows := 1 }

section
variable [LinearOrder V] [Zero V] [Add V] [Mul V] [Div V] [NatCast V] [Sub V]

/-- What `Execute` does with a statement. The executor has the database `db` and the token. -/
def dispatch (w : World Loc V) (env : CallEnv) (db token : Bytes) (s : Service Loc) :
    SQLStmt → InsertOutcome × Service Loc
  | .insert stmt =>
    let (ending, d) := s.data.executeInsert w env db stmt
    (ending, { s with data := d })
  | .select stmt => (s.data.executeSelect w env stmt, s)
  | .createTag stmt => (.returned (executeCreateTag stmt).1, s)
  | .createAlarm stmt =>
    let (result, alarms) := executeCreateAlarm w.conv s.data.alarms stmt
    (.returned result, { s with data := { s.data with alarms := alarms } })
  | .alterSystem _ => (.returned (done 1), s)
  | .createUser stmt =>
    let (created, a) := executeCreateUser s.auth env.auth stmt
    (.returned (createUserResult created), { s with auth := a })
  | .dropTag stmt =>
    let (result, ops) := executeDropTag w.paths db stmt
    (.returned result, { s with data := s.data.runOps w ops })
  | .dropAlarm name =>
    (.returned (done 1),
      { s with data := { s.data with alarms := (s.data.alarms.removeRule name).2 } })
  | .dropUser username =>
    let (result, a) := executeDropUser env.auth token s.auth username
    (.returned result, { s with auth := a })
  | .dropTable name =>
    let (result, ops) := executeDropTable w.paths db name
    (.returned result, { s with data := s.data.runOps w ops })
  | .dropDatabase name =>
    let (result, ops) := executeDropDatabase w.paths db name
    (.returned result, { s with data := s.data.runOps w ops })
  | .createDatabase name =>
    let (result, ops) := executeCreateDatabase w.paths name
    (.returned result, { s with data := s.data.runOps w ops })
  | .use _ => (.returned okMessage, s)
  | .createTable stmt =>
    let (result, ops) := executeCreateTable w.paths db stmt
    (.returned result, { s with data := s.data.runOps w ops })
  | .createTags stmt =>
    let (result, ops) := executeCreateTags w.paths db stmt
    (.returned result, { s with data := s.data.runOps w ops })
  | .alterTag stmt => (.returned (executeAlterTag stmt), s)
  | .alterAlarm stmt =>
    let (result, alarms) := alterAlarm w.conv s.data.alarms stmt
    (.returned result, { s with data := { s.data with alarms := alarms } })
  | .alterUser stmt =>
    let (result, a) := executeAlterUser env.auth token s.auth stmt
    (.returned result, { s with auth := a })
  | .delete stmt =>
    let ops := w.paths.dropTag db stmt.tableName stmt.tagFilter
    (.returned (done 1), { s with data := s.data.runOps w ops })
  | .update stmt =>
    let (ending, d) := s.data.executeUpdate w env db stmt
    (ending, { s with data := d })
  | .show_ stmt =>
    let (result, a) :=
      executeShow s.data.alarms.rules s.auth env.auth.now token env.listing stmt
    (.returned result, { s with auth := a })

/-- `Executor::Execute`. -/
def execute (w : World Loc V) (env : CallEnv) (db token : Bytes) (s : Service Loc)
    (stmt : SQLStmt) : InsertOutcome × Service Loc :=
  let (permitted, a) := executorPermits s.auth env.auth.now token stmt
  if permitted then dispatch w env db token { s with auth := a } stmt
  else
    (.returned { errorMsg := ascii "Permission denied: " ++ getOperationName stmt },
      { s with auth := a })

/-- `ExecuteSQL` of an executor that has just been made. -/
def runSQL (w : World Loc V) (env : CallEnv) (s : Service Loc) (sql : Bytes) :
    InsertOutcome × Service Loc :=
  match parseSql w.conv sql with
  | .error _ => (.raised, s)
  | .ok parsed =>
    match parsed.stmt with
    | none => (.returned { errorMsg := parsed.errorMsg }, s)
    | some stmt => execute w env [] [] s stmt

end

/-! ## The calls -/

structure QueryResponse where
  ok : Bool
  error : Bytes := []
  columns : List Bytes := []
  rows : List (List Bytes) := []
  deriving DecidableEq, Repr

structure AuthResponse where
  ok : Bool
  error : Bytes := []
  token : Bytes := []
  role : Bytes := []
  deriving DecidableEq, Repr

structure AdminResponse where
  ok : Bool
  error : Bytes := []
  result : Bytes := []
  deriving DecidableEq, Repr

/-- `SnapshotQueryType`. An enumeration of a message may have any number. -/
inductive SnapshotQueryType
  | get
  | getMany
  | getAll
  | count
  | other (n : Int32)
  deriving DecidableEq, Repr

structure SnapshotRequest where
  token : Bytes
  type : SnapshotQueryType
  tag : Bytes := []
  pattern : Bytes := []
  deriving DecidableEq, Repr

structure SnapshotResponse where
  ok : Bool
  error : Bytes := []
  count : Int64 := 0
  entries : List CachedSnapshot := []
  deriving DecidableEq, Repr

inductive Request
  | query (token sql : Bytes)
  | insert (request : InsertRequest)
  | auth (username password : Bytes)
  | admin (token command : Bytes)
  | snapshot (request : SnapshotRequest)
  deriving DecidableEq, Repr

/-- What comes back. Where the handler raises, gRPC answers with an error of its own. -/
inductive Response
  | query (response : QueryResponse)
  | insert (response : InsertResponse)
  | auth (response : AuthResponse)
  | admin (response : AdminResponse)
  | snapshot (response : SnapshotResponse)
  | raised
  deriving DecidableEq, Repr

/-- What `Query` makes of a result. -/
def queryResponse : InsertOutcome → Response
  | .raised => .raised
  | .returned result =>
    .query (if result.ok then { ok := true, columns := result.columnNames, rows := result.rows }
      else { ok := false, error := result.errorMsg })

/-- What `Admin` makes of one. -/
def adminResponse : InsertOutcome → Response
  | .raised => .raised
  | .returned result =>
    .admin (if result.ok then
        { ok := true, result := decimal result.affectedRows.toInt ++ ascii " rows affected" }
      else { ok := false, error := result.errorMsg })

/-- The name of the role in an `AuthResponse`; a byte that is no role sets none. -/
def roleName : UserRole → Bytes
  | .admin => ascii "admin"
  | .operator => ascii "operator"
  | .viewer => ascii "viewer"
  | .other _ => []

/-- The loop of `Insert`. -/
def Data.insertPoints (w : World Loc V) (env : CallEnv) :
    List TagValue → Nat → Int64 → Data Loc → Response × Data Loc
  | [], _, count, d => (.insert { ok := true, count := count }, d)
  | p :: points, i, count, d =>
    match d.write w
      { pad := (env.points i).pad, tag := p.tag, point := p.dataPoint (env.points i).now } with
    | none => (.raised, d)
    | some d => insertPoints w env points (i + 1) (count + 1) d

/-- What `Query`, `Insert` and `Admin` begin with: without the permission they go no further. -/
def guarded (s : Service Loc) (now : Timestamp) (token operation : Bytes) (denied : Response)
    (handler : Service Loc → Response × Service Loc) : Response × Service Loc :=
  match s.auth.checkPermission now token operation with
  | (false, a) => (denied, { s with auth := a })
  | (true, a) => handler { s with auth := a }

/-- What `Snapshot` answers to a valid token. -/
def snapshotResponse (m : SnapshotMap) (order : List CachedSnapshot) (r : SnapshotRequest) :
    SnapshotResponse :=
  match r.type with
  | .get => { ok := true, entries := (m.get r.tag).toList }
  | .getMany => { ok := true, entries := SnapshotMap.getByPattern order r.pattern }
  | .getAll => { ok := true, entries := order }
  | .count => { ok := true, count := .ofNat m.count }
  | .other _ => { ok := true }

section
variable [LinearOrder V] [Zero V] [Add V] [Mul V] [Div V] [NatCast V] [Sub V]

/-- One call. -/
def handle (w : World Loc V) (env : CallEnv) (s : Service Loc) :
    Request → Response × Service Loc
  | .query token sql =>
    guarded s env.auth.now token sql (.query { ok := false, error := ascii "Permission denied" })
      fun s =>
        let (ending, s) := runSQL w env s sql
        (queryResponse ending, s)
  | .insert request =>
    guarded s env.auth.now request.token (ascii "INSERT")
      (.insert { error := ascii "Permission denied" })
      fun s =>
        let (response, d) := s.data.insertPoints w env request.points 0 0
        (response, { s with data := d })
  | .auth username password =>
    match s.auth.login env.auth username password with
    | ([], a) =>
      (.auth { ok := false, error := ascii "Invalid credentials" }, { s with auth := a })
    | (token, a) =>
      let (user, a) := a.validateToken env.auth.now token
      (.auth { ok := true, token := token, role := (user.map fun u => roleName u.role).getD [] },
        { s with auth := a })
  | .admin token command =>
    guarded s env.auth.now token (ascii "CREATE TAG")
      (.admin { ok := false, error := ascii "Permission denied" })
      fun s =>
        let (ending, s) := runSQL w env s command
        (adminResponse ending, s)
  | .snapshot request =>
    match s.auth.validateToken env.auth.now request.token with
    | (none, a) => (.snapshot { ok := false, error := ascii "Unauthorized" }, { s with auth := a })
    | (some _, a) =>
      (.snapshot (snapshotResponse s.data.snapshot env.snapshotOrder request),
        { s with auth := a })

end

/-! ## A small service -/

/-- Every tag has a directory of its own, and nothing else is there. -/
def plainWorld : World Bytes Int where
  env := plainEnv
  paths := { hot := ascii "hot", cold := ascii "cold" }
  conv := noConversions
  sorts := { asc := .stable _, desc := .stable _ }
  bucketSort := .stable _
  ofBits bits := bits.toNat
  formats := { timestamp := fun ts => decimal ts.toInt, value := fun _ => [] }
  doubles := { toText := decimal, sqrt := id }
  toText _ := []
  shown _ t := t
  swept _ disk := disk

/-- The call comes at this second, and takes this token. -/
def callAt (now : Timestamp) (token : Bytes) : CallEnv where
  auth :=
    { now := now, token := token, salt := [], saves := true
      hashPassword := fun password salt => salt ++ password }
  rows _ := { now := 0, pad := .replicate 3 0 }
  points _ := { now := 0, pad := .replicate 3 0 }
  pad := .replicate 3 0
  listing := none
  tagFiles := []
  cacheOrder := []
  snapshotOrder := []

/-- A service that has just started. -/
def plainService : Service Bytes where
  data := { engine := freshSession.engine, tree := .ofDirs [] }
  auth := .initial (callAt 0 []).auth

/-- The administrator logs in, writes a point and creates an account, and somebody without a session
tries to drop a database. -/
def demoCalls : List (CallEnv × Request) :=
  [(callAt 1 (ascii "t"), .auth (ascii "admin") (ascii "admin123")),
    (callAt 2 (ascii "u"), .insert
      { token := ascii "t", points := [{ tag := ascii "x", timestamp := 5, value := 0 }] }),
    (callAt 3 (ascii "v"), .query (ascii "z") (ascii "DROP DATABASE d")),
    (callAt 4 (ascii "w"), .query (ascii "t") (ascii "CREATE USER bob ROLE viewer"))]

end Server
end MiniTSDB
