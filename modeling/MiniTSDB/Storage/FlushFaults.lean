import MiniTSDB.Lib.LastWrite
import MiniTSDB.Storage.Durability

/-!
# `Flush` when the disk fails (`engine.cpp`, `sstable.cpp`)

The flush callback creates the directory of the tag, opens a file there and writes it. It looks
at whether the file opens and at nothing else, and it tells nobody: `FlushBuffer` clears the buffer
after the call, and `Flush` removes the log after all of them.

So what was buffered is kept if and only if the SSTables have it (`flushUnder_keeps_iff`): each
point is in what the last flush that opens some file of its tag's directory leaves there, or it
was there before, in a file that no flush opens.
-/

namespace MiniTSDB
namespace Storage

open Lib Os

variable {Loc : Type} [DecidableEq Loc]

/-! ## The writer of an SSTable -/

/-- What becomes of the flush of one tag: whether its directory is there and the file opens, and
the bytes that are taken of each write of `Open`, of `AddBlock` and of `Close`. -/
structure FlushOutcome where
  directory : Bool
  opens : Bool
  header : Nat
  block : Fin 6 → Nat
  close : Fin 3 → Nat

/-- `SSTableWriter::Open`, the file being open. -/
def SSTableWriter.openUpTo (room : Nat) : SSTableWriter :=
  let header := sstableMagic ++ leBytes 4 sstableVersionCrc ++ List.replicate 20 0
  { file := (File.writeUpTo { data := [] } room header).2 }

def SSTableWriter.addBlockUpTo (w : SSTableWriter) (rooms : Fin 6 → Nat) (block : CompressedBlock) :
    SSTableWriter :=
  let tsLen := block.timestamps.length % 2 ^ 32
  let valLen := block.values.length % 2 ^ 32
  let (_, file) := w.file.writeUpTo (rooms 0) (timestampBytes block.range.start)
  let (_, file) := file.writeUpTo (rooms 1) (timestampBytes block.range.stop)
  let (_, file) := file.writeUpTo (rooms 2) (leBytes 4 tsLen)
  let (_, file) := file.writeUpTo (rooms 3) (block.timestamps.take tsLen)
  let (_, file) := file.writeUpTo (rooms 4) (leBytes 4 valLen)
  let (_, file) := file.writeUpTo (rooms 5) (block.values.take valLen)
  { file := file, blockCount := w.blockCount + 1 }

/-- `SSTableWriter::Close`; what the file then holds. The checksum is of what is there. -/
def SSTableWriter.closeUpTo (w : SSTableWriter) (rooms : Fin 3 → Nat) : Bytes :=
  let dataEnd := w.file.pos
  let file := w.file.seek 12 .set
  let (_, file) := file.writeUpTo (rooms 0) (leBytes 2 0)
  let (_, file) := file.writeUpTo (rooms 1) (leBytes 8 w.blockCount)
  let crc := crcChunks (file.seek 0 .set) dataEnd 0xFFFFFFFF ^^^ 0xFFFFFFFF
  let file := file.seek 0 .fromEnd
  (file.writeUpTo (rooms 2) (leBytes 4 crc.toNat)).2.data

/-- The file that a flush of these points leaves, once it has opened it. -/
def tableLeft (o : FlushOutcome) (points : List DataPoint) : Bytes :=
  (((SSTableWriter.openUpTo o.header).addBlockUpTo o.block (compress points)).closeUpTo o.close)

/-! ## The flush -/

/-- The flush callback, in the directory of the tag. -/
def flushIntoUnder (o : FlushOutcome) (d : Dir) (date : DateStr) (points : List DataPoint) : Dir :=
  match points with
  | [] => d
  | p :: _ =>
    -- what `CreateDirectories` returns is dropped; without the directory no file opens
    if o.directory && o.opens then
      match d.create (sstName date p.ts) (tableLeft o points) with
      | none => d
      | some d' => d'
    else d

/-- The callback that `Init` sets. -/
def flushCallbackUnder (env : Env Loc) (outcomes : Bytes → FlushOutcome) (disk : Disk Loc)
    (call : FlushCall) : Disk Loc :=
  { dirs := Function.update disk.dirs (env.resolve call.tag)
      (flushIntoUnder (outcomes call.tag) (disk.tagDir env call.tag) (env.date disk.flushes)
        call.points)
    flushes := disk.flushes + 1 }

def runCallsUnder (env : Env Loc) (outcomes : Bytes → FlushOutcome) (disk : Disk Loc)
    (calls : List FlushCall) : Disk Loc :=
  calls.foldl (flushCallbackUnder env outcomes) disk

/-- `StorageEngine::Flush`, with an outcome for each tag. -/
def Engine.flushUnder (env : Env Loc) (outcomes : Bytes → FlushOutcome) (e : Engine Loc)
    (order : List Bytes) : Engine Loc :=
  let flushed := e.memTable.flushAll order
  { e with
    memTable := flushed.1
    disk := runCallsUnder env outcomes e.disk flushed.2
    wal := e.wal.truncate }

/-- The point is in an entry of `wal.log`. -/
def InWal (wal : WalFile) (tag : Bytes) (p : DataPoint) : Prop :=
  ∃ data, wal.named = some data ∧ (tag, p) ∈ replayPoints (walEntries data)

/-- Every point that was buffered is in an SSTable that opens and gives it back, or buffered, or
in the log. -/
def KeepsBuffered (env : Env Loc) (e e' : Engine Loc) : Prop :=
  ∀ tag p, e.memTable.Buffered tag p →
    Stored fileFinding env e'.disk tag p ∨ e'.memTable.Buffered tag p ∨ InWal e'.wal tag p

/-! ## Where nothing fails -/

/-- Every write of these points is taken whole. -/
structure FlushOutcome.Succeeds (o : FlushOutcome) (points : List DataPoint) : Prop where
  directory : o.directory = true
  opens : o.opens = true
  header : 32 ≤ o.header
  block : ∀ i, 8 ≤ o.block i
  close : ∀ i, 8 ≤ o.close i
  timestamps : (compress points).timestamps.length ≤ o.block 3
  values : (compress points).values.length ≤ o.block 5

theorem writeUpTo_of_le {f : File} {room : Nat} {bytes : Bytes} (h : bytes.length ≤ room) :
    (f.writeUpTo room bytes).2 = f.write bytes := by
  rw [File.writeUpTo, List.take_of_length_le h]

theorem tableLeft_eq {o : FlushOutcome} {points : List DataPoint} (h : o.Succeeds points) :
    tableLeft o points = tableBytes [points] := by
  have hopen : SSTableWriter.openUpTo o.header = SSTableWriter.open := by
    rw [SSTableWriter.openUpTo, SSTableWriter.open, writeUpTo_of_le]
    exact h.header
  have hts := h.timestamps
  have hvals := h.values
  have hblock : ∀ w : SSTableWriter, w.addBlockUpTo o.block (compress points)
      = w.addBlock (compress points) := by
    intro w
    have hlen : ∀ n : Nat, (leBytes 4 n).length ≤ 8 := by
      intro n
      rw [length_leBytes]
      decide
    simp only [SSTableWriter.addBlockUpTo, SSTableWriter.addBlock]
    rw [writeUpTo_of_le ((length_timestampBytes _).le.trans (h.block 0)),
      writeUpTo_of_le ((length_timestampBytes _).le.trans (h.block 1)),
      writeUpTo_of_le ((hlen _).trans (h.block 2)),
      writeUpTo_of_le ((List.length_take_le' _ _).trans hts),
      writeUpTo_of_le ((hlen _).trans (h.block 4)),
      writeUpTo_of_le ((List.length_take_le' _ _).trans hvals)]
  have hclose : ∀ w : SSTableWriter, w.closeUpTo o.close = w.close := by
    intro w
    have hlen : ∀ (k n : Nat) (i : Fin 3), k ≤ 8 → (leBytes k n).length ≤ o.close i := by
      intro k n i hk
      rw [length_leBytes]
      exact hk.trans (h.close i)
    simp only [SSTableWriter.closeUpTo, SSTableWriter.close]
    rw [writeUpTo_of_le (hlen 2 0 0 (by decide)), writeUpTo_of_le (hlen 8 _ 1 (by decide)),
      writeUpTo_of_le (hlen 4 _ 2 (by decide))]
  rw [tableLeft, hopen, hblock, hclose]
  rfl

theorem flushCallbackUnder_eq {env : Env Loc} {outcomes : Bytes → FlushOutcome} {disk : Disk Loc}
    {call : FlushCall} (hcall : (outcomes call.tag).Succeeds call.points) :
    flushCallbackUnder env outcomes disk call = flushCallback env disk call := by
  rw [flushCallbackUnder, flushCallback]
  congr 2
  obtain ⟨tag, points⟩ := call
  cases points with
  | nil => rfl
  | cons p ps =>
    cases hcreate : (disk.tagDir env tag).create (sstName (env.date disk.flushes) p.ts)
        (tableBytes [p :: ps]) with
    | none =>
      simp only [flushIntoUnder, flushInto, hcall.directory, hcall.opens, Bool.and_self,
        if_true, tableLeft_eq hcall, hcreate]
    | some d' =>
      simp only [flushIntoUnder, flushInto, hcall.directory, hcall.opens, Bool.and_self,
        if_true, tableLeft_eq hcall, hcreate]

/-- Where nothing fails, this is the `Flush` of `Engine`. -/
theorem flushUnder_eq {env : Env Loc} {outcomes : Bytes → FlushOutcome} {e : Engine Loc}
    {order : List Bytes}
    (h : ∀ call ∈ (e.memTable.flushAll order).2, (outcomes call.tag).Succeeds call.points) :
    e.flushUnder env outcomes order = e.flush env order := by
  have hcalls : ∀ (calls : List FlushCall) (disk : Disk Loc),
      (∀ call ∈ calls, (outcomes call.tag).Succeeds call.points) →
        runCallsUnder env outcomes disk calls = runCalls env disk calls := by
    intro calls
    induction calls with
    | nil =>
      intro disk _
      rfl
    | cons call calls ih =>
      intro disk hall
      rw [runCallsUnder, runCalls, List.foldl_cons, List.foldl_cons,
        flushCallbackUnder_eq (hall call List.mem_cons_self)]
      exact ih _ fun c hc => hall c (List.mem_cons_of_mem _ hc)
  rw [Engine.flushUnder, Engine.flush, hcalls _ _ h]

/-! ## What `FlushAll` calls -/

/-- The calls that `FlushAll` makes: one for each buffer with points in it. -/
def pendingCalls (m : MemTable) (order : List Bytes) : List FlushCall :=
  order.filterMap fun tag =>
    if (m.buffer tag).points.isEmpty then none
    else some { tag := tag, points := (m.buffer tag).points }

theorem flushTag_eq (m : MemTable) (tag : Bytes) :
    m.flushTag tag = if (m.buffer tag).points.isEmpty then (m, [])
      else (m.setBuffer tag {}, [{ tag := tag, points := (m.buffer tag).points }]) := by
  unfold MemTable.flushTag MemTable.buffer
  cases m.buffers.lookup tag with
  | none => rfl
  | some buf => rfl

theorem buffer_flushTag (m : MemTable) (tag other : Bytes) :
    ((m.flushTag tag).1.buffer other).points
      = if other = tag then [] else (m.buffer other).points := by
  rw [flushTag_eq]
  by_cases hempty : (m.buffer tag).points.isEmpty
  · rw [if_pos hempty]
    by_cases hother : other = tag
    · rw [if_pos hother, hother]
      exact List.isEmpty_iff.mp hempty
    · rw [if_neg hother]
  · rw [if_neg hempty, buffer_setBuffer]
    split <;> rfl

/-- The first buffer's call is in front of the others'. -/
theorem pendingCalls_cons (m : MemTable) (first : Bytes) (order : List Bytes) :
    pendingCalls m (first :: order) = (m.flushTag first).2 ++ pendingCalls m order := by
  rw [flushTag_eq, pendingCalls, List.filterMap_cons]
  by_cases hempty : (m.buffer first).points.isEmpty
  · simp only [if_pos hempty]
    rfl
  · simp only [if_neg hempty]
    rfl

/-- A buffer flushed is none of those still to come. -/
theorem pendingCalls_flushTag (m : MemTable) {first : Bytes} {order : List Bytes}
    (hfirst : first ∉ order) : pendingCalls (m.flushTag first).1 order = pendingCalls m order := by
  refine List.filterMap_congr ?_
  intro tag htag
  have hne : tag ≠ first := by
    intro heq
    exact hfirst (heq ▸ htag)
  rw [buffer_flushTag, if_neg hne]

/-- **`FlushAll` calls back once for each buffer, and leaves every buffer it goes to empty.** -/
theorem flushAll_spec {m : MemTable} {order : List Bytes} (hnodup : order.Nodup) :
    (m.flushAll order).2 = pendingCalls m order ∧
      ∀ tag, ((m.flushAll order).1.buffer tag).points
        = if tag ∈ order then [] else (m.buffer tag).points := by
  have hfold : ∀ (order : List Bytes) (m₀ : MemTable) (calls : List FlushCall), order.Nodup →
      let after := order.foldl (fun s tag => ((s.1.flushTag tag).1, s.2 ++ (s.1.flushTag tag).2))
        (m₀, calls)
      after.2 = calls ++ pendingCalls m₀ order ∧
        ∀ tag, (after.1.buffer tag).points
          = if tag ∈ order then [] else (m₀.buffer tag).points := by
    intro order
    induction order with
    | nil =>
      intro m₀ calls _
      simp [pendingCalls]
    | cons first order ih =>
      intro m₀ calls hnodup
      obtain ⟨hfirst, hnodup⟩ := List.nodup_cons.mp hnodup
      obtain ⟨hcalls, hbuffers⟩ := ih (m₀.flushTag first).1 (calls ++ (m₀.flushTag first).2) hnodup
      refine ⟨?_, ?_⟩
      · rw [List.foldl_cons, hcalls, pendingCalls_flushTag m₀ hfirst, pendingCalls_cons,
          List.append_assoc]
      · intro tag
        rw [List.foldl_cons, hbuffers, buffer_flushTag]
        by_cases htag : tag = first
        · simp [htag]
        · simp [htag]
  obtain ⟨hcalls, hbuffers⟩ := hfold order m [] hnodup
  exact ⟨hcalls, hbuffers⟩

/-! ## Which file a flush writes -/

/-- The file that the flush of a call opens, and what it leaves there, if it opens one: `n` flushes
have been before, and `isDir` says which names are directories. -/
def fileWritten (env : Env Loc) (outcomes : Bytes → FlushOutcome) (isDir : Loc → Bytes → Bool)
    (n : Nat) (call : FlushCall) : Option ((Loc × Bytes) × Option Bytes) :=
  match call.points with
  | [] => none
  | p :: _ =>
    let o := outcomes call.tag
    let name := sstName (env.date n) p.ts
    if o.directory && o.opens && !isDir (env.resolve call.tag) name then
      some ((env.resolve call.tag, name), some (tableLeft o call.points))
    else none

/-- The files that a list of calls writes, in order. -/
def filesWritten (env : Env Loc) (outcomes : Bytes → FlushOutcome) (isDir : Loc → Bytes → Bool) :
    Nat → List FlushCall → List (Option ((Loc × Bytes) × Option Bytes))
  | _, [] => []
  | n, call :: calls =>
    fileWritten env outcomes isDir n call :: filesWritten env outcomes isDir (n + 1) calls

/-- The files of the disk. -/
def Disk.files (disk : Disk Loc) (place : Loc × Bytes) : Option Bytes :=
  (disk.dirs place.1).readFile place.2

def Disk.isDir (disk : Disk Loc) (loc : Loc) (name : Bytes) : Bool := (disk.dirs loc).isDir name

omit [DecidableEq Loc] in
theorem files_of_dirs {disk disk' : Disk Loc} (h : disk'.dirs = disk.dirs) :
    disk'.isDir = disk.isDir ∧ disk'.files = disk.files := by
  refine ⟨?_, ?_⟩
  · funext loc name
    rw [Disk.isDir, h, Disk.isDir]
  · funext place
    rw [Disk.files, h, Disk.files]

/-- A file put into one directory, as the disk sees it. -/
theorem files_of_set {disk disk' : Disk Loc} {loc : Loc} {name data : Bytes}
    (hnot : disk.isDir loc name = false)
    (h : disk'.dirs = Function.update disk.dirs loc ((disk.dirs loc).set name (.file data))) :
    disk'.isDir = disk.isDir ∧
      disk'.files = Function.update disk.files (loc, name) (some data) := by
  refine ⟨?_, ?_⟩
  · funext other place
    rw [Disk.isDir, h, Disk.isDir, Function.update_apply]
    by_cases hloc : other = loc
    · rw [if_pos hloc, Dir.isDir_set_file hnot, hloc]
    · rw [if_neg hloc]
  · funext place
    obtain ⟨other, file⟩ := place
    rw [Disk.files, h]
    simp only [Function.update_apply, Prod.mk.injEq]
    by_cases hloc : other = loc
    · subst hloc
      by_cases hfile : file = name
      · rw [if_pos rfl, hfile, if_pos ⟨rfl, rfl⟩, Dir.readFile_set_file]
      · rw [if_pos rfl, Dir.readFile_set_ne hfile, if_neg (fun h => hfile h.2)]
        rfl
    · rw [if_neg hloc, if_neg (fun h => hloc h.1)]
      rfl

theorem flushCallbackUnder_spec (env : Env Loc) (outcomes : Bytes → FlushOutcome) (disk : Disk Loc)
    (call : FlushCall) :
    (flushCallbackUnder env outcomes disk call).isDir = disk.isDir ∧
      (flushCallbackUnder env outcomes disk call).files
        = match fileWritten env outcomes disk.isDir disk.flushes call with
          | none => disk.files
          | some (place, data) => Function.update disk.files place data := by
  obtain ⟨tag, points⟩ := call
  -- where the directory of the tag stays as it is, so does the disk
  have hsame : flushIntoUnder (outcomes tag) (disk.tagDir env tag) (env.date disk.flushes) points
        = disk.tagDir env tag →
      (flushCallbackUnder env outcomes disk ⟨tag, points⟩).dirs = disk.dirs := by
    intro h
    simp only [flushCallbackUnder, h]
    exact Function.update_eq_self _ _
  cases points with
  | nil => exact files_of_dirs (hsame rfl)
  | cons p ps =>
    set name := sstName (env.date disk.flushes) p.ts with hname
    by_cases hopens : ((outcomes tag).directory && (outcomes tag).opens &&
        !disk.isDir (env.resolve tag) name) = true
    · -- the file is opened
      have hfile : fileWritten env outcomes disk.isDir disk.flushes ⟨tag, p :: ps⟩
          = some ((env.resolve tag, name), some (tableLeft (outcomes tag) (p :: ps))) := by
        simp only [fileWritten, ← hname, hopens, if_true]
      simp only [Bool.and_eq_true, Bool.not_eq_true'] at hopens
      obtain ⟨hopen, hdir⟩ := hopens
      have hnot : (disk.tagDir env tag).isDir name = false := hdir
      have hset : (flushCallbackUnder env outcomes disk ⟨tag, p :: ps⟩).dirs
          = Function.update disk.dirs (env.resolve tag) ((disk.tagDir env tag).set name
              (.file (tableLeft (outcomes tag) (p :: ps)))) := by
        simp only [flushCallbackUnder, flushIntoUnder, hopen.1, hopen.2, Bool.and_self, if_true,
          ← hname, Dir.create_spec, hnot, Bool.false_eq_true, if_false]
      rw [hfile]
      exact files_of_set hdir hset
    · -- `Open` has failed, or a directory has the name
      have hfile : fileWritten env outcomes disk.isDir disk.flushes ⟨tag, p :: ps⟩ = none := by
        simp only [fileWritten, ← hname, if_neg hopens]
      rw [hfile]
      refine files_of_dirs (hsame ?_)
      simp only [flushIntoUnder, ← hname, Dir.create_spec]
      by_cases hopen : ((outcomes tag).directory && (outcomes tag).opens) = true
      · have hdir : (disk.tagDir env tag).isDir name = true := by
          by_contra hnot
          refine hopens ?_
          rw [hopen, Bool.true_and, Bool.not_eq_true']
          exact Bool.eq_false_iff.mpr hnot
        rw [if_pos hopen, hdir]
        rfl
      · rw [if_neg hopen]

theorem runCallsUnder_files (env : Env Loc) (outcomes : Bytes → FlushOutcome)
    (calls : List FlushCall) : ∀ disk : Disk Loc,
      (runCallsUnder env outcomes disk calls).files
        = overwrite disk.files (filesWritten env outcomes disk.isDir disk.flushes calls) := by
  induction calls with
  | nil =>
    intro disk
    rfl
  | cons call calls ih =>
    intro disk
    obtain ⟨hdir, hfiles⟩ := flushCallbackUnder_spec env outcomes disk call
    have hflushes : (flushCallbackUnder env outcomes disk call).flushes = disk.flushes + 1 := rfl
    rw [runCallsUnder, List.foldl_cons, ← runCallsUnder, ih, hdir, hflushes, hfiles, filesWritten]
    cases fileWritten env outcomes disk.isDir disk.flushes call with
    | none => rfl
    | some write => rfl

/-! ## What is kept -/

/-- A file of the tag's directory will hold the point: it is in what the last flush to open the
file leaves of it, or it is there already and no flush opens the file. -/
def Survives (env : Env Loc) (outcomes : Bytes → FlushOutcome) (e : Engine Loc)
    (order : List Bytes) (tag : Bytes) (p : DataPoint) : Prop :=
  let writes := filesWritten env outcomes e.disk.isDir e.disk.flushes
    (pendingCalls e.memTable order)
  ∃ name data, isSst name = true ∧ p ∈ dataPoints data ∧
    (LastSet writes (env.resolve tag, name) (some data) ∨
      (NeverSet writes (env.resolve tag, name) ∧
        e.disk.files (env.resolve tag, name) = some data))

theorem stored_flushUnder_iff {env : Env Loc} {outcomes : Bytes → FlushOutcome} {e : Engine Loc}
    {order : List Bytes} (horder : order.Nodup) {tag : Bytes} {p : DataPoint} :
    Stored fileFinding env (e.flushUnder env outcomes order).disk tag p ↔
      Survives env outcomes e order tag p := by
  have hfiles : (e.flushUnder env outcomes order).disk.files
      = overwrite e.disk.files (filesWritten env outcomes e.disk.isDir e.disk.flushes
          (pendingCalls e.memTable order)) := by
    rw [Engine.flushUnder, runCallsUnder_files, (flushAll_spec horder).1]
  rw [Stored, Survives]
  refine exists_congr fun name => ?_
  rw [Finding.InFile]
  refine exists_congr fun data => and_congr_right fun _ => ?_
  rw [← overwrite_eq_iff, ← hfiles, and_comm]
  exact Iff.rfl

/-- **What a `Flush` keeps**: it keeps every buffered point exactly if each will be in an SSTable
of its tag's directory, by what the flushes do manage to write. -/
theorem flushUnder_keeps_iff {env : Env Loc} {e : Engine Loc} {order : List Bytes}
    (horder : order.Perm e.memTable.buffers.keys) (outcomes : Bytes → FlushOutcome) :
    KeepsBuffered env e (e.flushUnder env outcomes order) ↔
      ∀ tag p, e.memTable.Buffered tag p → Survives env outcomes e order tag p := by
  have hnodup : order.Nodup := horder.nodup_iff.mpr e.memTable.buffers.nodupKeys
  refine forall₃_congr fun tag p hbuf => ?_
  rw [stored_flushUnder_iff hnodup, or_iff_left]
  intro h
  cases h with
  | inl hstill =>
    -- the tag has a buffer, so it was flushed
    have hmem : tag ∈ order := by
      rw [horder.mem_iff, ← AList.mem_keys]
      by_contra hnot
      have hnone : e.memTable.buffers.lookup tag = none := AList.lookup_eq_none.mpr hnot
      rw [MemTable.Buffered, MemTable.buffer, hnone] at hbuf
      simp at hbuf
    have hempty := (flushAll_spec (m := e.memTable) hnodup).2 tag
    rw [if_pos hmem] at hempty
    have hin : p ∈ ((e.memTable.flushAll order).1.buffer tag).points := hstill
    rw [hempty] at hin
    simp at hin
  | inr hlog =>
    obtain ⟨data, hnamed, -⟩ := hlog
    cases hnamed

omit [DecidableEq Loc] in
theorem fileWritten_eq_some {env : Env Loc} {outcomes : Bytes → FlushOutcome}
    {isDir : Loc → Bytes → Bool} {n : Nat} {call : FlushCall} {place : Loc × Bytes}
    {data : Option Bytes} (h : fileWritten env outcomes isDir n call = some (place, data)) :
    place.1 = env.resolve call.tag ∧
      ((outcomes call.tag).directory && (outcomes call.tag).opens) = true := by
  unfold fileWritten at h
  split at h
  · cases h
  · dsimp only at h
    split at h
    case isTrue hopens =>
      obtain ⟨rfl, -⟩ := Prod.mk.inj (Option.some.inj h)
      exact ⟨rfl, (Bool.and_eq_true _ _ ▸ hopens).1⟩
    case isFalse => cases h

omit [DecidableEq Loc] in
theorem mem_filesWritten {env : Env Loc} {outcomes : Bytes → FlushOutcome}
    {isDir : Loc → Bytes → Bool} {place : Loc × Bytes} {data : Option Bytes} :
    ∀ {calls : List FlushCall} {n : Nat},
      some (place, data) ∈ filesWritten env outcomes isDir n calls →
        ∃ call ∈ calls, ∃ m, fileWritten env outcomes isDir m call = some (place, data) := by
  intro calls
  induction calls with
  | nil =>
    intro n h
    cases h
  | cons call calls ih =>
    intro n h
    cases List.mem_cons.mp h with
    | inl h => exact ⟨call, List.mem_cons_self, n, h.symm⟩
    | inr h =>
      obtain ⟨other, hmem, hother⟩ := ih h
      exact ⟨other, List.mem_cons_of_mem _ hmem, hother⟩

omit [DecidableEq Loc] in
/-- **A flush that opens no file in a directory keeps only what was stored there before.** -/
theorem survives_of_unopened {env : Env Loc} {outcomes : Bytes → FlushOutcome} {e : Engine Loc}
    {order : List Bytes} {tag : Bytes} {p : DataPoint}
    (h : ∀ call ∈ pendingCalls e.memTable order, env.resolve call.tag = env.resolve tag →
      ((outcomes call.tag).directory && (outcomes call.tag).opens) = false) :
    Survives env outcomes e order tag p ↔ Stored fileFinding env e.disk tag p := by
  have hnever : ∀ name, NeverSet (filesWritten env outcomes e.disk.isDir e.disk.flushes
      (pendingCalls e.memTable order)) (env.resolve tag, name) := by
    intro name data hmem
    obtain ⟨call, hcall, m, hfile⟩ := mem_filesWritten hmem
    obtain ⟨hplace, hopens⟩ := fileWritten_eq_some hfile
    rw [h call hcall hplace.symm] at hopens
    cases hopens
  rw [Survives, Stored]
  refine exists_congr fun name => ?_
  rw [Finding.InFile]
  refine exists_congr fun data => and_congr_right fun _ => ?_
  have hlast : ¬ LastSet (filesWritten env outcomes e.disk.isDir e.disk.flushes
      (pendingCalls e.memTable order)) (env.resolve tag, name) (some data) := by
    intro hset
    obtain ⟨before, after, heq, -⟩ := hset
    refine hnever name (some data) ?_
    rw [heq]
    exact List.mem_append_right _ List.mem_cons_self
  rw [or_iff_right hlast, and_iff_right (hnever name), and_comm]
  exact Iff.rfl

/-- An engine with one point buffered, on an empty disk. -/
def bufferedA : Engine Bytes := (freshSession.after plainEnv (writeA 1)).engine

theorem bufferedA_eq :
    bufferedA.memTable.buffers.keys = [ascii "a"] ∧ bufferedA.disk = { dirs := fun _ => .empty } ∧
      pendingCalls bufferedA.memTable [ascii "a"]
        = [{ tag := ascii "a", points := [⟨1, .double 0⟩] }] ∧
      ∀ tag p, bufferedA.memTable.Buffered tag p ↔ tag = ascii "a" ∧ p = ⟨1, .double 0⟩ := by
  have hengine : bufferedA.memTable
      = ({ flushThreshold := 64 * 1024, sizeofDataPoint := 48 } : MemTable).setBuffer (ascii "a")
          { points := [⟨1, .double 0⟩], estimatedBytes := 49 } := by
    rw [bufferedA, freshSession_eq]
    rfl
  refine ⟨by rw [hengine]; rfl, by rw [bufferedA, freshSession_eq]; rfl, by rw [hengine]; rfl, ?_⟩
  intro tag p
  rw [hengine, buffered_setBuffer]
  by_cases htag : tag = ascii "a"
  · simp [htag]
  · simp [htag, MemTable.Buffered, MemTable.buffer]

/-- The file of every tag opens or does not; nothing else fails. -/
def diskOutcome (opens : Bool) : Bytes → FlushOutcome := fun _ =>
  { directory := true, opens := opens, header := 64, block := fun _ => 64, close := fun _ => 64 }

/-- A flush that succeeds. -/
theorem flushUnder_keeps_iff_open :
    KeepsBuffered plainEnv bufferedA
      (bufferedA.flushUnder plainEnv (diskOutcome true) [ascii "a"]) := by
  obtain ⟨hkeys, hdisk, hcalls, hbuffered⟩ := bufferedA_eq
  refine (flushUnder_keeps_iff (by rw [hkeys]) (diskOutcome true)).mpr ?_
  intro tag p hbuf
  obtain ⟨rfl, rfl⟩ := (hbuffered tag p).mp hbuf
  have hwrites : filesWritten plainEnv (diskOutcome true) bufferedA.disk.isDir
      bufferedA.disk.flushes (pendingCalls bufferedA.memTable [ascii "a"])
      = [some ((ascii "a", sstName someDay 1),
          some (tableLeft (diskOutcome true (ascii "a")) [⟨1, .double 0⟩]))] := by
    rw [hcalls, hdisk]
    rfl
  have hsucceeds : (diskOutcome true (ascii "a")).Succeeds [⟨1, .double 0⟩] :=
    ⟨rfl, rfl, by decide, by decide, by decide, (length_timestamps_compress_le _).trans (by decide),
      (length_values_compress_le _).trans (by decide)⟩
  refine ⟨sstName someDay 1, tableBytes [[⟨1, .double 0⟩]], isSst_sstName _ _, ?_, .inl ?_⟩
  · exact subset_dataPoints (streamsFit_of_length (by decide)) (by decide) (by decide)
      List.mem_cons_self
  · rw [hwrites, tableLeft_eq hsucceeds]
    refine ⟨[], [], rfl, ?_⟩
    intro v hv
    cases hv

/-- **The file does not open, and the point is gone**: from the buffer, and with the log. -/
theorem flushUnder_drops :
    bufferedA.memTable.Buffered (ascii "a") ⟨1, .double 0⟩ ∧
      ¬ KeepsBuffered plainEnv bufferedA
        (bufferedA.flushUnder plainEnv (diskOutcome false) [ascii "a"]) := by
  obtain ⟨hkeys, hdisk, hcalls, hbuffered⟩ := bufferedA_eq
  have hbuf := (hbuffered (ascii "a") ⟨1, .double 0⟩).mpr ⟨rfl, rfl⟩
  refine ⟨hbuf, ?_⟩
  intro hkeeps
  obtain ⟨name, data, -, -, hfile⟩ :=
    (flushUnder_keeps_iff (by rw [hkeys]) (diskOutcome false)).mp hkeeps _ _ hbuf
  have hwrites : filesWritten plainEnv (diskOutcome false) bufferedA.disk.isDir
      bufferedA.disk.flushes (pendingCalls bufferedA.memTable [ascii "a"]) = [none] := by
    rw [hcalls]
    rfl
  rw [hwrites, hdisk] at hfile
  cases hfile with
  | inl hlast =>
    obtain ⟨before, after, heq, -⟩ := hlast
    simp [List.cons_eq_append_iff] at heq
  | inr hthere => simp [Disk.files, Dir.readFile] at hthere

end Storage
end MiniTSDB
