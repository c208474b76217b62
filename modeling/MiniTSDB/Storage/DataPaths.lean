import MiniTSDB.Os.Walk
import MiniTSDB.Storage.Namespace

/-!
# The paths of databases, tables and tags in the file system (`engine.cpp`)

`hot_path` and `cold_path` are any texts, and what lies below them need not be apart: a name with
`..` in it leads from the one to the other. Here there is one tree, and paths start at its root.
-/

namespace MiniTSDB
namespace Storage

open Os

/-- `hot_path` and `cold_path` of the `StorageConfig`. -/
structure DataPaths where
  hot : Bytes
  cold : Bytes
  deriving DecidableEq, Repr

/-- The two tiers. -/
def DataPaths.bases (paths : DataPaths) : List Bytes := [paths.hot, paths.cold]

/-- `GetTablePath`. -/
def DataPaths.getTablePath (paths : DataPaths) (db table : Bytes) : Bytes :=
  paths.hot ++ slash :: tablePath db table

/-- `GetTagPath`. -/
def DataPaths.getTagPath (paths : DataPaths) (db table tag : Bytes) : Bytes :=
  paths.hot ++ slash :: tagPath db table tag

/-- `cold_table` of `DropTable`. -/
def DataPaths.coldTable (paths : DataPaths) (db table : Bytes) : Bytes :=
  paths.cold ++ slash :: tablePath db table

/-- `cold_tag` of `DropTag`. -/
def DataPaths.coldTag (paths : DataPaths) (db table tag : Bytes) : Bytes :=
  paths.cold ++ slash :: tagPath db table tag

/-- A call that changes the file system. `drop` looks first whether the path exists. -/
inductive FsOp
  | createDirectories (path : Bytes)
  | drop (path : Bytes)
  | removeAll (path : Bytes)
  deriving DecidableEq, Repr

def FsOp.run (t : Tree) : FsOp → Tree
  | .createDirectories path => t.createDirectories path
  | .drop path => dropPath t path
  | .removeAll path => t.removeAll path

/-- The calls one after the other. -/
def runOps (t : Tree) (ops : List FsOp) : Tree := ops.foldl FsOp.run t

def FsOp.path : FsOp → Bytes
  | .createDirectories path => path
  | .drop path => path
  | .removeAll path => path

/-- `DropTable`. It always returns true. -/
def DataPaths.dropTable (paths : DataPaths) (db table : Bytes) : List FsOp :=
  [.drop (paths.getTablePath db table), .drop (paths.coldTable db table)]

/-- `DropTag`. It always returns true. -/
def DataPaths.dropTag (paths : DataPaths) (db table tag : Bytes) : List FsOp :=
  [.drop (paths.getTagPath db table tag), .drop (paths.coldTag db table tag)]

def DataPaths.tableExists (paths : DataPaths) (t : Tree) (db table : Bytes) : Bool :=
  t.pathExists (paths.getTablePath db table)

def DataPaths.tagExists (paths : DataPaths) (t : Tree) (db table tag : Bytes) : Bool :=
  t.pathExists (paths.getTagPath db table tag)

end Storage
end MiniTSDB
