import MiniTSDB.Alarm.Triggers
import MiniTSDB.Server.Query
import MiniTSDB.Sql.Ddl
import MiniTSDB.Sql.LetterCase

/-!
# What the executor reads of a statement (`executor.cpp`)

Some words of a text are still words in the statement: the columns of an `INSERT` and a `SELECT`,
the role of a new user, the property of an `ALTER`. The executor compares the first two in one
case, whatever the text had, and the properties as they are. Its `ALTER`s are here too, with what
they hand on to the alarms and the users.
-/

namespace MiniTSDB
namespace Server

open Lib Os Storage Sql Alarm Auth

/-! ## ALTER -/

/-- `ExecuteAlterTag`, which keeps nothing. -/
def executeAlterTag (stmt : AlterTagStmt) : QueryResult :=
  if stmt.property = ascii "type" then
    { errorMsg := ascii "Cannot alter tag type. Data type is immutable after creation." }
  else
    { ok := true, columnNames := [ascii "message"], rows := [[ascii "OK"]], affectedRows := 1 }

/-- `ExecuteAlterAlarm`. -/
def executeAlterAlarm (conv : Conversions) (rules : List AlarmRule) (stmt : AlterStmt) :
    QueryResult × List AlarmRule :=
  let (altered, rules) := alterRule conv.stod stmt.name stmt.property stmt.value rules
  (if altered then done 1 else { errorMsg := ascii "Failed to alter alarm" }, rules)

/-- `ExecuteAlterUser`. -/
def executeAlterUser (env : AuthEnv) (token : Bytes) (a : AuthManager) (stmt : AlterStmt) :
    QueryResult × AuthManager :=
  let (altered, a) := a.alterUser env token stmt.name stmt.property stmt.value
  (if altered then done 1
    else { errorMsg := ascii "Failed to alter user (admin only / not found)" }, a)

/-! ## SELECT -/

/-- The aggregate of `ExecuteSelectAggregate`: that of the first column with one. -/
def aggTypeOf (columns : List SelectExpr) : AggType :=
  ((columns.find? fun col => col.isAggregate && col.aggType ≠ .none).map (·.aggType)).getD .avg

/-- What `ExecuteSnapshot` is asked for. -/
structure SnapshotColumns where
  all : Bool := false
  tag : Bool := false
  value : Bool := false
  ts : Bool := false
  count : Bool := false
  deriving DecidableEq, Repr

/-- One column of the loop in `ExecuteSnapshot`. -/
def snapshotColumn (sel : SnapshotColumns) (col : SelectExpr) : SnapshotColumns :=
  let upper := toUpper col.expr
  let count := (find (ascii "COUNT") upper).isSome
  { all := sel.all || upper = ascii "*" || count
    tag := sel.tag || upper = ascii "TAG"
    value := sel.value || upper = ascii "VALUE"
    ts := sel.ts || upper = ascii "TS" || upper = ascii "TIMESTAMP"
    count := sel.count || count }

def snapshotColumns (columns : List SelectExpr) : SnapshotColumns := columns.foldl snapshotColumn {}

/-! ## The statement as the executor compares it -/

local instance instLawfulBEqWord : LawfulBEq Bytes := inferInstance

/-- A word that is compared with some others as they are: one of them, or none. -/
def comparedWith (words : List Bytes) (word : Bytes) : Bytes := if word ∈ words then word else []

def tagProperties : List Bytes := [ascii "type"]

def alarmProperties : List Bytes := [ascii "condition", ascii "action"]

def userProperties : List Bytes := [ascii "password", ascii "role"]

def treatedAlter (properties : List Bytes) (stmt : AlterStmt) : AlterStmt :=
  { stmt with property := comparedWith properties stmt.property }

def treatedColumn (col : SelectExpr) : SelectExpr :=
  { col with expr := toUpper col.expr, alias_ := [] }

/-- What the executor makes of a statement: the names and values it goes by as they are, a word
that it compares as it compares it, and nothing where it does not look. -/
def treated : SQLStmt → SQLStmt
  | .insert stmt => .insert { stmt with columns := stmt.columns.map toLower }
  | .select stmt => .select
      { stmt with columns := stmt.columns.map treatedColumn }
  | .createTag stmt => .createTag { stmt with properties := [] }
  | .createUser stmt => .createUser { stmt with role := toLower stmt.role }
  | .createTable stmt => .createTable { stmt with properties := [] }
  | .createTags stmt => .createTags
      { stmt with tags := stmt.tags.map fun tag => { tag with props := [] } }
  | .alterTag stmt => .alterTag
      { stmt with property := comparedWith tagProperties stmt.property }
  | .alterAlarm stmt => .alterAlarm (treatedAlter alarmProperties stmt)
  | .alterUser stmt => .alterUser (treatedAlter userProperties stmt)
  | .delete stmt => .delete { stmt with timeRange := { start := 0, stop := 0 } }
  | stmt => stmt

/-! ## Nothing else is read -/

theorem comparedWith_eq_iff {words : List Bytes} (other word : Bytes) (hne : [] ∉ words)
    (hother : other ∈ words) : comparedWith words word = other ↔ word = other := by
  unfold comparedWith
  constructor
  · intro h
    split at h
    · exact h
    · exact absurd (h ▸ hother) hne
  · intro h
    rw [if_pos (h ▸ hother), h]

theorem executeAlterTag_treated (stmt : AlterTagStmt) :
    executeAlterTag { stmt with property := comparedWith tagProperties stmt.property }
      = executeAlterTag stmt := by
  have hcompare : comparedWith tagProperties stmt.property = ascii "type"
      ↔ stmt.property = ascii "type" := comparedWith_eq_iff _ _ (by decide) (by decide)
  simp only [executeAlterTag, hcompare]

theorem alter_treated (stod : Bytes → Option UInt64) (r : AlarmRule) (property value : Bytes) :
    r.alter stod (comparedWith alarmProperties property) value = r.alter stod property value := by
  have hcompare : ∀ other ∈ alarmProperties, comparedWith alarmProperties property = other
      ↔ property = other := fun other hother => comparedWith_eq_iff other property (by decide) hother
  simp only [AlarmRule.alter, hcompare (ascii "condition") (by decide),
    hcompare (ascii "action") (by decide)]

theorem alterRule_treated (stod : Bytes → Option UInt64) (name property value : Bytes)
    (rules : List AlarmRule) :
    alterRule stod name (comparedWith alarmProperties property) value rules
      = alterRule stod name property value rules := by
  induction rules with
  | nil => rfl
  | cons r rules ih => rw [alterRule, alterRule, alter_treated, ih]

theorem executeAlterAlarm_treated (conv : Conversions) (rules : List AlarmRule)
    (stmt : AlterStmt) : executeAlterAlarm conv rules (treatedAlter alarmProperties stmt)
      = executeAlterAlarm conv rules stmt := by
  simp only [executeAlterAlarm, treatedAlter, alterRule_treated]

theorem executeAlterUser_treated (env : AuthEnv) (token : Bytes) (a : AuthManager)
    (stmt : AlterStmt) : executeAlterUser env token a (treatedAlter userProperties stmt)
      = executeAlterUser env token a stmt := by
  have hcompare : ∀ other ∈ userProperties, comparedWith userProperties stmt.property = other
      ↔ stmt.property = other := fun other hother => comparedWith_eq_iff other _ (by decide) hother
  have halter : ∀ user : User, user.alter env (comparedWith userProperties stmt.property) stmt.value
      = user.alter env stmt.property stmt.value := by
    intro user
    simp only [User.alter, hcompare (ascii "password") (by decide),
      hcompare (ascii "role") (by decide)]
  have hcall : a.alterUser env token stmt.name (comparedWith userProperties stmt.property) stmt.value
      = a.alterUser env token stmt.name stmt.property stmt.value := by
    unfold AuthManager.alterUser
    simp only [halter]
  unfold executeAlterUser treatedAlter
  rw [hcall]

/-- **A property in another case is none**: the user is not altered. -/
theorem executeAlterUser_unknown (env : AuthEnv) (token : Bytes) (a : AuthManager)
    {stmt : AlterStmt} (h : stmt.property ∉ userProperties) :
    (executeAlterUser env token a stmt).1.ok = false := by
  have hnone : ∀ found : Option User,
      (found.bind fun user => user.alter env stmt.property stmt.value) = none := by
    intro found
    cases found with
    | none => rfl
    | some user =>
      show user.alter env stmt.property stmt.value = none
      unfold User.alter
      rw [if_neg, if_neg]
      · intro hrole
        exact h (by rw [hrole]; decide)
      · intro hpassword
        exact h (by rw [hpassword]; decide)
  have hrefused : (a.alterUser env token stmt.name stmt.property stmt.value).1 = false := by
    unfold AuthManager.alterUser
    simp only [hnone]
    split
    · rfl
    · split
      · rfl
      · rfl
  unfold executeAlterUser
  simp only [hrefused, Bool.false_eq_true, if_false]

theorem executeCreateUser_treated (a : AuthManager) (env : AuthEnv) (stmt : CreateUserStmt) :
    executeCreateUser a env { stmt with role := toLower stmt.role } = executeCreateUser a env stmt := by
  simp only [executeCreateUser, roleNamed, toLower_toLower]

theorem aggTypeOf_treated (columns : List SelectExpr) :
    aggTypeOf (columns.map treatedColumn) = aggTypeOf columns := by
  unfold aggTypeOf
  rw [List.find?_map, Option.map_map]
  rfl

theorem snapshotColumns_treated (columns : List SelectExpr) :
    snapshotColumns (columns.map treatedColumn) = snapshotColumns columns := by
  unfold snapshotColumns
  rw [List.foldl_map]
  congr 1
  funext sel col
  simp only [snapshotColumn, treatedColumn, toUpper_toUpper]

theorem createTagDirs_treated (paths : DataPaths) (currentDb table : Bytes) (tags : List TagDef) :
    createTagDirs paths currentDb table (tags.map fun tag => { tag with props := [] })
      = createTagDirs paths currentDb table tags := by
  induction tags with
  | nil => rfl
  | cons tag tags ih => simp only [List.map_cons, createTagDirs, ih]

theorem executeCreateTags_treated (paths : DataPaths) (currentDb : Bytes) (stmt : CreateTagsStmt) :
    executeCreateTags paths currentDb
        { stmt with tags := stmt.tags.map fun tag => { tag with props := [] } }
      = executeCreateTags paths currentDb stmt := by
  unfold executeCreateTags
  rw [createTagDirs_treated, List.length_map]

theorem scanRow_treated (conv : Conversions) (registered : Bytes → Bool) (now : Timestamp)
    (columns row : List Bytes) : scanRow conv registered now (columns.map toLower) row
      = scanRow conv registered now columns row := by
  unfold scanRow
  rw [List.zip_map_left, List.foldlM_map]
  congr 1
  funext scan c
  simp only [scanColumn, Prod.map, toLower_toLower]
  rfl

variable {Loc : Type} [DecidableEq Loc]

theorem executeInsert_treated (env : Env Loc) (conv : Conversions) (context : Nat → RowContext)
    (ex : Executor Loc) (stmt : InsertStmt) :
    ex.executeInsert env conv context { stmt with columns := stmt.columns.map toLower }
      = ex.executeInsert env conv context stmt := by
  have hloop : ∀ (rows : List (List Bytes)) (i : Nat) (count : Int64) (ex : Executor Loc),
      Executor.insertLoop env conv context { stmt with columns := stmt.columns.map toLower } rows i
        count ex = Executor.insertLoop env conv context stmt rows i count ex := by
    intro rows
    induction rows with
    | nil => exact fun _ _ _ => rfl
    | cons row rows ih =>
      intro i count ex
      simp only [Executor.insertLoop, scanRow_treated, ih]
  simp only [Executor.executeInsert, hloop]

end Server
end MiniTSDB
