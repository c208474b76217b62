import MiniTSDB.Sql.Executor
import MiniTSDB.Storage.DataPaths

/-!
# `Executor` (`executor.cpp`): databases, tables and tags

What a statement answers, and the calls it makes of the file system. `CREATE` validates the names
it makes directories of. The other statements take any, and so does `USE`.
-/

namespace MiniTSDB
namespace Sql

open Lib Os Storage

/-- `RETURN_IF_INVALID`. -/
def invalidName (label name maxLen : Bytes) : QueryResult where
  errorMsg := ascii "Invalid " ++ label ++ ascii ": " ++ name ++ ascii " (max " ++ maxLen
    ++ ascii " chars, alphanumeric/_/-, no leading -/_)"

/-- What a statement has to say when it changes what `n` rows stand for. -/
def done (n : Int64) : QueryResult := { ok := true, affectedRows := n }

section Execute

variable (paths : DataPaths) (currentDb : Bytes)

/-- `ExecuteDropTag`. -/
def executeDropTag (stmt : DropTagStmt) : QueryResult × List FsOp :=
  (done 1, paths.dropTag currentDb stmt.tableName stmt.tagName)

/-- `ExecuteDropTable`. -/
def executeDropTable (tableName : Bytes) : QueryResult × List FsOp :=
  (done 1, paths.dropTable currentDb tableName)

/-- The directory that `ExecuteDropDatabase` removes: what is in front of the first `db/tables/`,
and the name. -/
def databaseDir (dbName : Bytes) : Bytes :=
  let dbPath := paths.getTagPath dbName [] []
  dbPath.take ((find (dbName ++ ascii "/tables/") dbPath).getD dbPath.length) ++ dbName

/-- `ExecuteDropDatabase`. -/
def executeDropDatabase (dbName : Bytes) : QueryResult × List FsOp :=
  (done 1, paths.dropTable currentDb [] ++ [.removeAll (databaseDir paths dbName)])

/-- `ExecuteCreateDatabase`. -/
def executeCreateDatabase (dbName : Bytes) : QueryResult × List FsOp :=
  if isValidName dbName 64 then (done 1, [.createDirectories (paths.getTagPath dbName [] [])])
  else (invalidName (ascii "database name") dbName (ascii "64"), [])

/-- `ExecuteCreateTable`. -/
def executeCreateTable (stmt : CreateTableStmt) : QueryResult × List FsOp :=
  if isValidName stmt.tableName 64 then
    (done 1, [.createDirectories (paths.getTablePath currentDb stmt.tableName)])
  else (invalidName (ascii "table name") stmt.tableName (ascii "64"), [])

/-- `ExecuteCreateTag`. `RegisterTag` keeps nothing of the tag, so its properties are not read. -/
def executeCreateTag (_stmt : CreateTagStmt) : QueryResult × List FsOp := (done 1, [])

/-- The loop of `ExecuteCreateTags`: the name it ends at, if it does, and the calls so far. -/
def createTagDirs (table : Bytes) : List TagDef → Option Bytes × List FsOp
  | [] => (none, [])
  | tagDef :: tags =>
    if isValidName tagDef.name 128 then
      let (bad, ops) := createTagDirs table tags
      (bad, .createDirectories (paths.getTagPath currentDb table tagDef.name) :: ops)
    else (some tagDef.name, [])

/-- `ExecuteCreateTags`. -/
def executeCreateTags (stmt : CreateTagsStmt) : QueryResult × List FsOp :=
  match createTagDirs paths currentDb stmt.tableName stmt.tags with
  | (some name, ops) => (invalidName (ascii "tag name") name (ascii "128"), ops)
  | (none, ops) => (done (.ofNat stmt.tags.length), ops)

end Execute

end Sql
end MiniTSDB
