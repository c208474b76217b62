import MiniTSDB.Sql.Ast

/-!
# The names of the operations (`Executor::GetOperationName`)

A permission is asked for by the name of the operation. There is none for a `USE`.
-/

namespace MiniTSDB
namespace Sql

def getOperationName : SQLStmt → Bytes
  | .insert _ => ascii "INSERT"
  | .select _ => ascii "SELECT"
  | .createTag _ => ascii "CREATE TAG"
  | .createAlarm _ => ascii "CREATE ALARM"
  | .createUser _ => ascii "CREATE USER"
  | .alterSystem _ => ascii "ALTER SYSTEM"
  | .dropTag _ => ascii "DROP TAG"
  | .dropAlarm _ => ascii "DROP ALARM"
  | .dropUser _ => ascii "DROP USER"
  | .dropTable _ => ascii "DROP TABLE"
  | .dropDatabase _ => ascii "DROP DATABASE"
  | .createDatabase _ => ascii "CREATE DATABASE"
  | .createTable _ => ascii "CREATE TABLE"
  | .createTags _ => ascii "CREATE TAGS"
  | .alterTag _ => ascii "ALTER TAG"
  | .alterAlarm _ => ascii "ALTER ALARM"
  | .alterUser _ => ascii "ALTER USER"
  | .delete _ => ascii "DELETE"
  | .update _ => ascii "UPDATE"
  | .show_ _ => ascii "SHOW"
  | .use _ => []

end Sql
end MiniTSDB
