import MiniTSDB.Lib.Runs
import MiniTSDB.Lib.SortedUnique
import MiniTSDB.Storage.Compaction
import MiniTSDB.Storage.Flush
import MiniTSDB.Storage.MemTable
import MiniTSDB.Storage.Wal

/-!
# `StorageEngine` (`engine.cpp`)

The engine ties the parts together: `Init` opens the log and replays it, `Write` appends to the
log, the write buffer and the cache of latest values, `Flush` empties the buffers and removes the
log, and `ReadRaw` reads the cache and the SSTables of the tag.

A point that has been written is buffered or stored (`Kept`), as long as every flush on the way
is clean: its file opens, the block can hold the points, and what the file replaces is in the new
file again. That is one invariant for any notion of a file holding a point (`Finding`), of which
reading your writes and surviving a crash use different ones.
-/

namespace MiniTSDB
namespace Storage

open Lib Os

variable {Loc : Type} [DecidableEq Loc]

/-! ## The world outside the engine -/

/-- What the operating system answers: the directory that the path of a tag leads to, and the day
at each flush. Paths may lead to one directory (`a` and `./a`), so nothing is assumed here. -/
structure Env (Loc : Type) where
  resolve : Bytes → Loc
  date : Nat → DateStr

/-- The directories under `hot_path/tags`, and how many flushes there have been. -/
structure Disk (Loc : Type) where
  dirs : Loc → Dir
  flushes : Nat := 0

def Disk.tagDir (env : Env Loc) (disk : Disk Loc) (tag : Bytes) : Dir := disk.dirs (env.resolve tag)

/-- The callback that `Init` sets. -/
def flushCallback (env : Env Loc) (disk : Disk Loc) (call : FlushCall) : Disk Loc :=
  { dirs := Function.update disk.dirs (env.resolve call.tag)
      (flushInto (disk.tagDir env call.tag) (env.date disk.flushes) call.points)
    flushes := disk.flushes + 1 }

def runCalls (env : Env Loc) (disk : Disk Loc) (calls : List FlushCall) : Disk Loc :=
  calls.foldl (flushCallback env) disk

/-- The log as the file system has it: the file of the name `wal.log`, and the file that the
writer has open once that name is gone. Until then the writer has the named file open. -/
structure WalFile where
  named : Option Bytes
  unlinked : Option Bytes := none
  deriving DecidableEq, Repr

/-- `WalWriter::Open`: the file is created if there is none. -/
def WalFile.open (named : Option Bytes) : WalFile := { named := some (named.getD []) }

def WalFile.data (wal : WalFile) : Bytes := wal.unlinked.getD (wal.named.getD [])

def WalFile.setData (wal : WalFile) (data : Bytes) : WalFile :=
  match wal.unlinked with
  | none => { wal with named := some data }
  | some _ => { wal with unlinked := some data }

/-- `WalReader::Truncate`: the name is removed, the open file is not. -/
def WalFile.truncate (wal : WalFile) : WalFile := { named := none, unlinked := some wal.data }

/-! ## The engine -/

/-- `StorageConfig`, as far as it is read here. -/
structure StorageConfig where
  memtableSize : Nat := 64 * 1024
  sizeofDataPoint : Nat := 48

abbrev LatestCache := AList fun _ : Bytes => DataPoint

def LatestCache.update (cache : LatestCache) (tag : Bytes) (point : DataPoint) : LatestCache :=
  match cache.lookup tag with
  | some old => if point.ts ≥ old.ts then cache.insert tag point else cache
  | none => cache.insert tag point

/-- `StorageEngine`, initialised. -/
structure Engine (Loc : Type) where
  memTable : MemTable
  disk : Disk Loc
  wal : WalFile
  latest : LatestCache

/-- The points that the recovery loop of `Init` adds, each with its tag. -/
def replayPoints (entries : List WalEntry) : List (Bytes × DataPoint) :=
  (entries.filter fun entry => entry.type = .dataPoint).flatMap fun entry =>
    entry.points.map fun p => (entry.tagName, p)

/-- `StorageEngine::Init` on this disk and this log. -/
def Engine.init (env : Env Loc) (config : StorageConfig) (disk : Disk Loc)
    (named : Option Bytes) : Engine Loc :=
  let wal := WalFile.open named
  let table : MemTable :=
    { flushThreshold := config.memtableSize, sizeofDataPoint := config.sizeofDataPoint }
  let added := table.addAll (replayPoints (walEntries wal.data))
  { memTable := added.1, disk := runCalls env disk added.2, wal := wal, latest := ∅ }

theorem Engine.init_none (env : Env Loc) (config : StorageConfig) (disk : Disk Loc) :
    Engine.init env config disk none = {
      memTable :=
        { flushThreshold := config.memtableSize, sizeofDataPoint := config.sizeofDataPoint }
      disk := disk, wal := { named := some [] }, latest := ∅ } := by
  have hdata : (WalFile.open none).data = [] := rfl
  rw [Engine.init]
  simp only [hdata, walEntries_nil]
  rfl

/-- `StorageEngine::Write`; `none` where it throws. -/
def Engine.write (env : Env Loc) (e : Engine Loc) (pad : HeaderPad) (tag : Bytes)
    (point : DataPoint) : Option (Engine Loc) := do
  let data ← appendWrite e.wal.data pad tag point
  let added := e.memTable.add tag point
  pure {
    memTable := added.1
    disk := runCalls env e.disk added.2
    wal := e.wal.setData data
    latest := LatestCache.update e.latest tag point }

theorem Engine.write_double (env : Env Loc) (e : Engine Loc) (pad : HeaderPad) (tag : Bytes)
    (ts : Timestamp) (bits : UInt64) :
    e.write env pad tag { ts := ts, value := .double bits } = some {
      memTable := (e.memTable.add tag { ts := ts, value := .double bits }).1
      disk := runCalls env e.disk (e.memTable.add tag { ts := ts, value := .double bits }).2
      wal := e.wal.setData (e.wal.data ++ (WalRecord.write pad tag ts bits).bytes)
      latest := LatestCache.update e.latest tag { ts := ts, value := .double bits } } := by
  have hlog : appendWrite e.wal.data pad tag { ts := ts, value := .double bits }
      = some (e.wal.data ++ (WalRecord.write pad tag ts bits).bytes) := by
    simp only [appendWrite, WalRecord.bytes, List.append_assoc]
  rw [Engine.write, hlog]
  rfl

/-- `StorageEngine::Flush`. -/
def Engine.flush (env : Env Loc) (e : Engine Loc) (order : List Bytes) : Engine Loc :=
  let flushed := e.memTable.flushAll order
  { e with
    memTable := flushed.1
    disk := runCalls env e.disk flushed.2
    wal := e.wal.truncate }

/-- The point `ReadRaw` takes from the cache. -/
def Engine.readCache (e : Engine Loc) (tag : Bytes) (range : TimeRange) : List DataPoint :=
  if tag = [] then []
  else (e.latest.lookup tag).toList.filter fun p => range.contains p.ts

/-- The points `ReadRaw` takes from the SSTables, given the entries of the tag's directory. -/
def readTables (d : Dir) (entries : List DirEntry) (range : TimeRange) : List DataPoint :=
  (entries.filter fun entry => isSst entry.name).flatMap fun entry =>
    ((openTable d entry.name).map (·.readRange range)).getD []

/-- `StorageEngine::ReadRaw`. -/
def Engine.readRaw (env : Env Loc) (s : KeySort tsKey) (e : Engine Loc) (tag : Bytes)
    (range : TimeRange) (entries : List DirEntry) : List DataPoint :=
  uniqueKeys tsKey
    (s.sort (e.readCache tag range ++ readTables (e.disk.tagDir env tag) entries range))

/-- `StorageEngine::ReadLatest`. The timestamp of a `DataPoint` is not initialised: of a tag that
is not in the cache it is what happens to be there. -/
def Engine.readLatest (e : Engine Loc) (unset : Timestamp) (tag : Bytes) : DataPoint :=
  (e.latest.lookup tag).getD { ts := unset, value := .double 0 }

/-! ## Runs -/

/-- A call of `Write` with a double, or of `Flush`. -/
inductive EngineOp
  | write (pad : HeaderPad) (tag : Bytes) (ts : Timestamp) (bits : UInt64)
  | flush (order : List Bytes)

/-- An engine, and the points whose `Write` has returned true. -/
structure Session (Loc : Type) where
  engine : Engine Loc
  acked : List (Bytes × DataPoint) := []

/-- An engine just initialised. -/
def Session.start (env : Env Loc) (config : StorageConfig) (disk : Disk Loc)
    (named : Option Bytes) : Session Loc :=
  { engine := Engine.init env config disk named }

/-- What the write buffer does in an operation. -/
def Session.table (s : Session Loc) : EngineOp → MemTable × List FlushCall
  | .write _ tag ts bits => s.engine.memTable.add tag { ts := ts, value := .double bits }
  | .flush order => s.engine.memTable.flushAll order

/-- The points acknowledged after an operation. -/
def Session.ackedBy (s : Session Loc) : EngineOp → List (Bytes × DataPoint)
  | .write _ tag ts bits => s.acked ++ [(tag, { ts := ts, value := .double bits })]
  | .flush _ => s.acked

/-- The session after an operation. -/
def Session.after (env : Env Loc) (s : Session Loc) (op : EngineOp) : Session Loc where
  engine := match op with
    | .write pad tag ts bits =>
      (s.engine.write env pad tag { ts := ts, value := .double bits }).getD s.engine
    | .flush order => s.engine.flush env order
  acked := s.ackedBy op

/-- One operation. `Flush` goes through the tags in some order. -/
inductive EngineStep (env : Env Loc) : Session Loc → EngineOp → Session Loc → Prop
  | write {s : Session Loc} {pad : HeaderPad} {tag : Bytes} {ts : Timestamp} {bits : UInt64}
      {e : Engine Loc}
      (h : s.engine.write env pad tag { ts := ts, value := .double bits } = some e) :
      EngineStep env s (.write pad tag ts bits)
        { engine := e, acked := s.acked ++ [(tag, { ts := ts, value := .double bits })] }
  | flush {s : Session Loc} {order : List Bytes}
      (h : order.Perm s.engine.memTable.buffers.keys) :
      EngineStep env s (.flush order) { s with engine := s.engine.flush env order }

/-- A `Write` with a double never throws. -/
theorem engineStep_write (env : Env Loc) (s : Session Loc) (pad : HeaderPad) (tag : Bytes)
    (ts : Timestamp) (bits : UInt64) :
    EngineStep env s (.write pad tag ts bits) (s.after env (.write pad tag ts bits)) :=
  .write rfl

theorem engineStep_flush (env : Env Loc) {s : Session Loc} {order : List Bytes}
    (h : order.Perm s.engine.memTable.buffers.keys) :
    EngineStep env s (.flush order) (s.after env (.flush order)) :=
  .flush h

/-- What every operation does to the buffer, the disk and the acknowledged points. -/
theorem EngineStep.spec {env : Env Loc} {s s' : Session Loc} {op : EngineOp}
    (h : EngineStep env s op s') :
    s'.engine.memTable = (s.table op).1 ∧
      s'.engine.disk = runCalls env s.engine.disk (s.table op).2 ∧ s'.acked = s.ackedBy op := by
  cases h with
  | write h =>
    rw [Engine.write_double] at h
    cases h
    exact ⟨rfl, rfl, rfl⟩
  | flush h => exact ⟨rfl, rfl, rfl⟩

/-! ## An engine on an empty disk -/

/-- Every tag has a directory of its own, and it is the same day all along. -/
def plainEnv : Env Bytes where
  resolve tag := tag
  date _ := someDay

/-- An engine initialised on an empty disk. -/
def freshSession : Session Bytes := .start plainEnv {} { dirs := fun _ => .empty } none

theorem freshSession_eq :
    freshSession = { engine := {
      memTable := { flushThreshold := 64 * 1024, sizeofDataPoint := 48 }
      disk := { dirs := fun _ => .empty }, wal := { named := some [] }, latest := ∅ } } := by
  rw [freshSession, Session.start, Engine.init_none]

/-- A write to the tag `a`. -/
def writeA (ts : Timestamp) : EngineOp := .write (.replicate 3 0) (ascii "a") ts 0

end Storage
end MiniTSDB
