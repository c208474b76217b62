import MiniTSDB.Common.Types

/-!
# Statements (`ast.h`)

What the parser makes of a text. A double that a statement holds is its bit pattern, as in
`Value`.
-/

namespace MiniTSDB
namespace Sql

inductive AggType
  | none
  | avg
  | max
  | min
  | sum
  | count
  | first
  | last
  | stddev
  deriving DecidableEq, Repr

structure InsertStmt where
  tableName : Bytes
  columns : List Bytes
  rows : List (List Bytes)
  deriving DecidableEq, Repr

structure SelectExpr where
  expr : Bytes := []
  alias_ : Bytes := []
  isAggregate : Bool := false
  aggType : AggType := .none
  deriving DecidableEq, Repr

structure WhereClause where
  tagFilter : Bytes := []
  tagPattern : Bytes := []
  timeRange : TimeRange := { start := 0, stop := 0 }
  deriving DecidableEq, Repr

/-- `SelectStmt`; `groupBy` is the bucket of the `GroupBy`, if there is one. -/
structure SelectStmt where
  columns : List SelectExpr := []
  tableName : Bytes := []
  where_ : WhereClause := {}
  latest : Bool := false
  orderBy : Bytes := []
  orderAsc : Bool := true
  limit : Int := -1
  groupBy : Option Bytes := none
  deriving DecidableEq, Repr

structure CreateTagStmt where
  tagName : Bytes
  properties : List (Bytes × Bytes)
  deriving DecidableEq, Repr

structure CreateAlarmStmt where
  alarmName : Bytes
  tagName : Bytes
  condition : Bytes
  actions : List Bytes
  deriving DecidableEq, Repr

structure AlterSystemStmt where
  key : Bytes
  value : Bytes
  deriving DecidableEq, Repr

structure CreateUserStmt where
  username : Bytes
  password : Bytes
  role : Bytes
  deriving DecidableEq, Repr

structure DropTagStmt where
  tableName : Bytes := []
  tagName : Bytes
  deriving DecidableEq, Repr

structure CreateTableStmt where
  tableName : Bytes
  properties : List (Bytes × Bytes)
  deriving DecidableEq, Repr

structure TagDef where
  name : Bytes
  props : List (Bytes × Bytes)
  deriving DecidableEq, Repr

structure CreateTagsStmt where
  tableName : Bytes
  tags : List TagDef
  deriving DecidableEq, Repr

structure AlterTagStmt where
  tableName : Bytes
  tagName : Bytes
  property : Bytes
  value : Bytes
  deriving DecidableEq, Repr

/-- `AlterAlarmStmt` and `AlterUserStmt`: a property of what has the name. -/
structure AlterStmt where
  name : Bytes
  property : Bytes := []
  value : Bytes := []
  deriving DecidableEq, Repr

structure DeleteStmt where
  tableName : Bytes := []
  tagFilter : Bytes := []
  timeRange : TimeRange := { start := 0, stop := 0 }
  deriving DecidableEq, Repr

structure UpdateStmt where
  tableName : Bytes := []
  tagFilter : Bytes := []
  exactTime : Timestamp := 0
  newValue : UInt64 := 0
  deriving DecidableEq, Repr

inductive ShowType
  | databases
  | tables
  | tags
  | users
  | alarms
  deriving DecidableEq, Repr

structure ShowStmt where
  type : ShowType
  filterDb : Bytes := []
  filterTable : Bytes := []
  pattern : Bytes := []
  deriving DecidableEq, Repr

/-- `SQLStmt`. A statement with nothing but a name has it as its argument. -/
inductive SQLStmt
  | insert (stmt : InsertStmt)
  | select (stmt : SelectStmt)
  | createTag (stmt : CreateTagStmt)
  | createAlarm (stmt : CreateAlarmStmt)
  | createUser (stmt : CreateUserStmt)
  | alterSystem (stmt : AlterSystemStmt)
  | dropTag (stmt : DropTagStmt)
  | dropAlarm (alarmName : Bytes)
  | dropUser (username : Bytes)
  | dropTable (tableName : Bytes)
  | dropDatabase (dbName : Bytes)
  | createDatabase (dbName : Bytes)
  | use (dbName : Bytes)
  | createTable (stmt : CreateTableStmt)
  | createTags (stmt : CreateTagsStmt)
  | alterTag (stmt : AlterTagStmt)
  | alterAlarm (stmt : AlterStmt)
  | alterUser (stmt : AlterStmt)
  | delete (stmt : DeleteStmt)
  | update (stmt : UpdateStmt)
  | show_ (stmt : ShowStmt)
  deriving DecidableEq, Repr

structure ParseResult where
  ok : Bool
  errorMsg : Bytes
  stmt : Option SQLStmt
  deriving DecidableEq, Repr

def ParseResult.success (stmt : SQLStmt) : ParseResult :=
  { ok := true, errorMsg := [], stmt := some stmt }

def ParseResult.fail (errorMsg : Bytes) : ParseResult :=
  { ok := false, errorMsg := errorMsg, stmt := none }

end Sql
end MiniTSDB
