import MiniTSDB.Storage.Recovery

/-!
# The log when the disk fails (`wal.cpp`, `StorageEngine::Write`)

An entry is written in two pieces and then flushed, by a writer that may not have opened, and
each of these can fail. `WalWriter` reports every failure and `Write` looks at none of them: it
returns true whatever became of the entry. So an acknowledged point is in the log exactly if
nothing failed (`write_acknowledges_iff`).

What `AppendWrite` can be given at all is narrower than a `DataPoint`: the value has to be a
double, and the tag's length has to fit 16 bits (`appendWrite_roundTrips_iff`).
-/

namespace MiniTSDB
namespace Storage

open Lib Os

variable {Loc : Type} [DecidableEq Loc]

/-! ## The writer -/

/-- What becomes of one `AppendWrite` and the `Flush` after it: the bytes that are taken of the
header and of the payload, and whether `fsync` succeeds. -/
structure WriteOutcome where
  pad : HeaderPad
  headerRoom : Nat
  dataRoom : Nat
  fsync : Bool

/-- `WalWriter`, and the bytes of its file. -/
structure WalWriter where
  opened : Bool
  log : Bytes
  deriving DecidableEq, Repr

/-- `WalWriter::Open` on the file of the name `wal.log`, which is created if there is none. -/
def WalWriter.open (opens : Bool) (named : Option Bytes) : WalWriter :=
  { opened := opens, log := named.getD [] }

def WalWriter.writeRaw (w : WalWriter) (room : Nat) (bytes : Bytes) : Bool × WalWriter :=
  if w.opened then (bytes.length ≤ room, { w with log := w.log ++ bytes.take room })
  else (false, w)

/-- `WalWriter::AppendWrite`; `none` where `std::get<double>` throws. -/
def WalWriter.appendWrite (w : WalWriter) (o : WriteOutcome) (tag : Bytes) (point : DataPoint) :
    Option (Bool × WalWriter) :=
  match point.value with
  | .double bits =>
    let data := walData tag point.ts bits
    let header := walHeader (calculateCrc32 data) .dataPoint o.pad (data.length % 2 ^ 32)
    let (ok, w) := w.writeRaw o.headerRoom header
    if ok then some (w.writeRaw o.dataRoom data) else some (false, w)
  | _ => none

/-- `WalWriter::Flush`. -/
def WalWriter.flush (w : WalWriter) (fsync : Bool) : Bool := w.opened && fsync

/-- The complete entry was appended, and then flushed: the log is what a writer that nothing
fails leaves, and both calls have said so. -/
def WalWriter.Persists (w : WalWriter) (o : WriteOutcome) (tag : Bytes) (point : DataPoint) :
    Prop :=
  ∃ w', w.appendWrite o tag point = some (true, w') ∧
    Storage.appendWrite w.log o.pad tag point = some w'.log ∧ w'.flush o.fsync = true

/-- Nothing fails on the way of an entry with this tag. -/
structure WriteOutcome.Succeeds (o : WriteOutcome) (w : WalWriter) (tag : Bytes) : Prop where
  opened : w.opened = true
  header : 12 ≤ o.headerRoom
  data : 2 + tag.length % 2 ^ 16 + 16 ≤ o.dataRoom
  fsync : o.fsync = true

theorem length_walData (tag : Bytes) (ts : Timestamp) (bits : UInt64) :
    (walData tag ts bits).length = 2 + tag.length % 2 ^ 16 + 16 := by
  have hle : tag.length % 2 ^ 16 ≤ tag.length := Nat.mod_le _ _
  simp only [walData, List.length_append, length_leBytes, length_timestampBytes, List.length_take,
    Nat.min_eq_left hle]

/-- A writer that nothing fails is the writer of `Wal`. -/
theorem appendWrite_of_room {w : WalWriter} {o : WriteOutcome} {tag : Bytes} {ts : Timestamp}
    {bits : UInt64} (hopened : w.opened = true) (hheader : 12 ≤ o.headerRoom)
    (hdata : 2 + tag.length % 2 ^ 16 + 16 ≤ o.dataRoom) :
    w.appendWrite o tag { ts := ts, value := .double bits }
      = some (true, { w with log := w.log ++ (WalRecord.write o.pad tag ts bits).bytes }) := by
  have hlen := length_walData tag ts bits
  have htake : (walData tag ts bits).take o.dataRoom = walData tag ts bits :=
    List.take_of_length_le (by omega)
  simp only [WalWriter.appendWrite, WalWriter.writeRaw, hopened, if_true, length_walHeader,
    hheader, decide_true, hlen, hdata, htake, WalRecord.bytes, List.append_assoc]
  rw [List.take_of_length_le (by rwa [length_walHeader])]

/-- The pieces that a failing writer leaves are not the entry. -/
theorem appendWrite_of_no_room {w : WalWriter} {o : WriteOutcome} {tag : Bytes} (ts : Timestamp)
    (bits : UInt64) (h : ¬ (w.opened = true ∧ 12 ≤ o.headerRoom ∧
      2 + tag.length % 2 ^ 16 + 16 ≤ o.dataRoom)) :
    ∃ w', w.appendWrite o tag { ts := ts, value := .double bits } = some (false, w') := by
  have hlen := length_walData tag ts bits
  simp only [WalWriter.appendWrite, WalWriter.writeRaw, length_walHeader, hlen]
  by_cases hopened : w.opened = true
  · by_cases hheader : 12 ≤ o.headerRoom
    · have hdata : ¬ 2 + tag.length % 2 ^ 16 + 16 ≤ o.dataRoom := by
        intro hdata
        exact h ⟨hopened, hheader, hdata⟩
      simp only [hopened, hheader, hdata, if_true, decide_true, decide_false]
      exact ⟨_, rfl⟩
    · simp [hopened, hheader]
  · simp [hopened]

/-- **An entry is appended and flushed exactly if nothing fails.** -/
theorem persists_iff {w : WalWriter} {o : WriteOutcome} {tag : Bytes} {ts : Timestamp}
    {bits : UInt64} :
    w.Persists o tag { ts := ts, value := .double bits } ↔ o.Succeeds w tag := by
  constructor
  · intro ⟨w', happend, _, hflush⟩
    by_cases hroom : w.opened = true ∧ 12 ≤ o.headerRoom ∧
        2 + tag.length % 2 ^ 16 + 16 ≤ o.dataRoom
    · obtain ⟨hopened, hheader, hdata⟩ := hroom
      rw [appendWrite_of_room hopened hheader hdata] at happend
      cases happend
      rw [WalWriter.flush, Bool.and_eq_true] at hflush
      exact ⟨hopened, hheader, hdata, hflush.2⟩
    · obtain ⟨w₁, hfalse⟩ := appendWrite_of_no_room ts bits hroom
      rw [hfalse] at happend
      cases happend
  · intro h
    refine ⟨_, appendWrite_of_room h.opened h.header h.data, ?_, ?_⟩
    · simp only [Storage.appendWrite, WalRecord.bytes, List.append_assoc]
    · rw [WalWriter.flush, Bool.and_eq_true]
      exact ⟨h.opened, h.fsync⟩

/-! ## `Write` and `WriteBatch` -/

/-- `StorageEngine`, with a writer that may fail. -/
structure StorageEngine (Loc : Type) where
  initialized : Bool
  wal : WalWriter
  memTable : MemTable
  disk : Disk Loc
  latest : LatestCache

/-- `StorageEngine::Write`; `none` where it throws. -/
def StorageEngine.write (env : Env Loc) (e : StorageEngine Loc) (o : WriteOutcome) (tag : Bytes)
    (point : DataPoint) : Option (Bool × StorageEngine Loc) :=
  if e.initialized then do
    -- what `AppendWrite` returns is dropped, and so is what `Flush` does
    let (_, wal) ← e.wal.appendWrite o tag point
    let _ := wal.flush o.fsync
    let added := e.memTable.add tag point
    pure (true, { e with
      wal := wal
      memTable := added.1
      disk := runCalls env e.disk added.2
      latest := LatestCache.update e.latest tag point })
  else pure (false, e)

/-- The loop of `WriteBatch`. The `k`-th point meets the `k`-th outcome. -/
def StorageEngine.writeAll (env : Env Loc) (outcomes : Nat → WriteOutcome) :
    Nat → StorageEngine Loc → List (Bytes × DataPoint) → Option (Bool × StorageEngine Loc)
  | _, e, [] => pure (true, e)
  | k, e, (tag, point) :: points => do
    let (ok, e) ← e.write env (outcomes k) tag point
    if ok then StorageEngine.writeAll env outcomes (k + 1) e points else pure (false, e)

/-- `StorageEngine::WriteBatch`. -/
def StorageEngine.writeBatch (env : Env Loc) (outcomes : Nat → WriteOutcome)
    (e : StorageEngine Loc) (batches : List DataBatch) : Option (Bool × StorageEngine Loc) :=
  if e.initialized then StorageEngine.writeAll env outcomes 0 e (batchPoints batches)
  else pure (false, e)

/-- Each point of a list persists, on the writer that the points before it leave. -/
def PersistsAll (outcomes : Nat → WriteOutcome) : Nat → WalWriter → List (Bytes × DataPoint) → Prop
  | _, _, [] => True
  | k, w, (tag, point) :: points =>
    w.Persists (outcomes k) tag point ∧
      ∀ ok w', w.appendWrite (outcomes k) tag point = some (ok, w') →
        PersistsAll outcomes (k + 1) w' points

@[simp] theorem opened_writeRaw (w : WalWriter) (room : Nat) (bytes : Bytes) :
    (w.writeRaw room bytes).2.opened = w.opened := by
  unfold WalWriter.writeRaw
  split <;> rfl

theorem opened_appendWrite {w w' : WalWriter} {o : WriteOutcome} {tag : Bytes} {point : DataPoint}
    {ok : Bool} (h : w.appendWrite o tag point = some (ok, w')) : w'.opened = w.opened := by
  unfold WalWriter.appendWrite at h
  split at h
  · dsimp only at h
    split at h
    · have hw := congrArg (fun r => r.2.opened) (Option.some.inj h)
      simpa using hw.symm
    · have hw := congrArg (fun r => r.2.opened) (Option.some.inj h)
      simpa using hw.symm
  · cases h

theorem appendWrite_double (w : WalWriter) (o : WriteOutcome) (tag : Bytes) (point : DataPoint)
    (h : point.value.isDouble = true) : ∃ ok w', w.appendWrite o tag point = some (ok, w') := by
  obtain ⟨ts, value⟩ := point
  cases value with
  | double bits =>
    rw [WalWriter.appendWrite]
    dsimp only
    split
    · exact ⟨_, _, rfl⟩
    · exact ⟨_, _, rfl⟩
  | int64 i => cases h
  | string s => cases h

/-- **`Write` returns true, whatever the log made of the entry.** -/
theorem write_eq (env : Env Loc) {e : StorageEngine Loc} {o : WriteOutcome} {tag : Bytes}
    {point : DataPoint} {ok : Bool} {w' : WalWriter} (hinit : e.initialized = true)
    (h : e.wal.appendWrite o tag point = some (ok, w')) :
    ∃ e', e.write env o tag point = some (true, e') ∧ e'.initialized = true ∧ e'.wal = w' := by
  rw [StorageEngine.write, if_pos hinit, h]
  exact ⟨_, rfl, hinit, rfl⟩

/-- The engine with the log it has written, as in `Engine`. -/
def StorageEngine.toEngine (e : StorageEngine Loc) : Engine Loc where
  memTable := e.memTable
  disk := e.disk
  wal := { named := some e.wal.log }
  latest := e.latest

/-- Where nothing fails, this is the `Write` of `Engine`. -/
theorem toEngine_write {env : Env Loc} {e : StorageEngine Loc} {o : WriteOutcome} {tag : Bytes}
    {ts : Timestamp} {bits : UInt64} (hinit : e.initialized = true) (h : o.Succeeds e.wal tag) :
    ∃ e', e.write env o tag { ts := ts, value := .double bits } = some (true, e') ∧
      e.toEngine.write env o.pad tag { ts := ts, value := .double bits } = some e'.toEngine := by
  rw [StorageEngine.write, if_pos hinit, appendWrite_of_room h.opened h.header h.data,
    Engine.write_double]
  exact ⟨_, rfl, rfl⟩

theorem writeAll_eq {env : Env Loc} {outcomes : Nat → WriteOutcome}
    {points : List (Bytes × DataPoint)} (hdouble : ∀ e ∈ points, e.2.value.isDouble = true) :
    ∀ (k : Nat) (e : StorageEngine Loc), e.initialized = true →
      ∃ e', StorageEngine.writeAll env outcomes k e points = some (true, e') := by
  induction points with
  | nil =>
    intro k e _
    exact ⟨e, rfl⟩
  | cons head points ih =>
    intro k e hinit
    obtain ⟨tag, point⟩ := head
    obtain ⟨ok, w', happend⟩ := appendWrite_double e.wal (outcomes k) tag _
      (hdouble _ List.mem_cons_self)
    obtain ⟨e₁, hwrite, hinit₁, -⟩ := write_eq env hinit happend
    obtain ⟨e', hrest⟩ := ih (fun e he => hdouble e (List.mem_cons_of_mem _ he)) (k + 1) e₁ hinit₁
    exact ⟨e', by rw [StorageEngine.writeAll, hwrite]; exact hrest⟩

theorem persistsAll_iff {outcomes : Nat → WriteOutcome} {points : List (Bytes × DataPoint)}
    (hdouble : ∀ e ∈ points, e.2.value.isDouble = true) :
    ∀ (k : Nat) (w : WalWriter), PersistsAll outcomes k w points ↔
      ∀ (i : Nat) (h : i < points.length), (outcomes (k + i)).Succeeds w points[i].1 := by
  induction points with
  | nil =>
    intro k w
    simp [PersistsAll]
  | cons head points ih =>
    intro k w
    obtain ⟨tag, ts, value⟩ := head
    have hhead : value.isDouble = true := hdouble _ List.mem_cons_self
    have htail : ∀ e ∈ points, e.2.value.isDouble = true := by
      intro e he
      exact hdouble e (List.mem_cons_of_mem _ he)
    obtain ⟨ok, w', happend⟩ := appendWrite_double w (outcomes k) tag ⟨ts, value⟩ hhead
    -- whether an outcome succeeds does not depend on what is in the log
    have hsame : ∀ (o : WriteOutcome) (other : Bytes),
        o.Succeeds w' other ↔ o.Succeeds w other := by
      intro o other
      have hopened := opened_appendWrite happend
      constructor
      · intro h
        exact ⟨hopened ▸ h.opened, h.header, h.data, h.fsync⟩
      · intro h
        exact ⟨hopened ▸ h.opened, h.header, h.data, h.fsync⟩
    cases value with
    | int64 i => cases hhead
    | string s => cases hhead
    | double bits =>
      rw [PersistsAll, persists_iff]
      constructor
      · -- the outcome of the `i`-th point is that of the `k + i`-th write
        intro ⟨hfirst, hrest⟩ i hi
        cases i with
        | zero => exact hfirst
        | succ i =>
          have hnext := (ih htail (k + 1) w').mp (hrest ok w' happend) i (by simpa using hi)
          rw [hsame] at hnext
          rwa [show k + 1 + i = k + (i + 1) by omega] at hnext
      · intro h
        refine ⟨h 0 (by simp), ?_⟩
        intro ok₁ w₁ h₁
        obtain ⟨rfl, rfl⟩ := Prod.mk.inj (Option.some.inj (happend.symm.trans h₁))
        refine (ih htail (k + 1) w').mpr ?_
        intro i hi
        rw [hsame, show k + 1 + i = k + (i + 1) by omega]
        exact h (i + 1) (by simpa using hi)

/-- **An acknowledged point is in the log exactly if nothing failed**: of a `Write`, and of every
point of a `WriteBatch`. -/
theorem write_acknowledges_iff (env : Env Loc) (e : StorageEngine Loc) :
    (∀ (o : WriteOutcome) (tag : Bytes) (ts : Timestamp) (bits : UInt64),
      ((∃ e', e.write env o tag { ts := ts, value := .double bits } = some (true, e')) →
        e.wal.Persists o tag { ts := ts, value := .double bits }) ↔
      (e.initialized = true → o.Succeeds e.wal tag)) ∧
    ∀ (outcomes : Nat → WriteOutcome) (batches : List DataBatch),
      (∀ batch ∈ batches, ∀ p ∈ batch.points, p.value.isDouble = true) →
      (((∃ e', e.writeBatch env outcomes batches = some (true, e')) →
        PersistsAll outcomes 0 e.wal (batchPoints batches)) ↔
      (e.initialized = true → ∀ (i : Nat) (h : i < (batchPoints batches).length),
        (outcomes i).Succeeds e.wal (batchPoints batches)[i].1)) := by
  constructor
  · intro o tag ts bits
    rw [persists_iff]
    refine imp_congr_left ⟨?_, ?_⟩
    · intro ⟨e', h⟩
      by_contra hinit
      rw [StorageEngine.write, if_neg hinit] at h
      cases h
    · intro hinit
      obtain ⟨ok, w', happend⟩ := appendWrite_double e.wal o tag
        { ts := ts, value := .double bits } rfl
      obtain ⟨e', hwrite, -, -⟩ := write_eq env hinit happend
      exact ⟨e', hwrite⟩
  · intro outcomes batches hbatches
    have hdouble : ∀ e ∈ batchPoints batches, e.2.value.isDouble = true := by
      intro e he
      obtain ⟨batch, hbatch, he⟩ := List.mem_flatMap.mp he
      obtain ⟨p, hp, rfl⟩ := List.mem_map.mp he
      exact hbatches batch hbatch p hp
    rw [persistsAll_iff hdouble]
    simp only [Nat.zero_add]
    refine imp_congr_left ⟨?_, ?_⟩
    · intro ⟨e', h⟩
      by_contra hinit
      rw [StorageEngine.writeBatch, if_neg hinit] at h
      cases h
    · intro hinit
      rw [StorageEngine.writeBatch, if_pos hinit]
      exact writeAll_eq hdouble 0 e hinit

/-- An engine just initialised, whose log did open or did not. -/
def loggingEngine (opens : Bool) : StorageEngine Bytes where
  initialized := true
  wal := .open opens none
  memTable := { flushThreshold := 64 * 1024, sizeofDataPoint := 48 }
  disk := { dirs := fun _ => .empty }
  latest := ∅

/-- Nothing fails, if the log has opened. -/
def allWritten : WriteOutcome :=
  { pad := .replicate 3 0, headerRoom := 64, dataRoom := 64, fsync := true }

def batchA : List DataBatch := [{ tagName := ascii "a", points := [⟨1, .double 0⟩] }]

/-- A batch that is acknowledged, and logged. -/
theorem write_acknowledges_iff_batch :
    (∃ e', (loggingEngine true).writeBatch plainEnv (fun _ => allWritten) batchA
        = some (true, e')) →
      PersistsAll (fun _ => allWritten) 0 (loggingEngine true).wal (batchPoints batchA) := by
  have hpoints : batchPoints batchA = [(ascii "a", ⟨1, .double 0⟩)] := rfl
  refine ((write_acknowledges_iff plainEnv (loggingEngine true)).2 (fun _ => allWritten) batchA
    (by simp [batchA, Value.isDouble])).mpr ?_
  intro _ i hi
  rw [hpoints, List.length_singleton] at hi
  obtain rfl : i = 0 := by omega
  exact ⟨rfl, by decide, (by decide : 2 + (ascii "a").length % 2 ^ 16 + 16 ≤ 64), rfl⟩

/-- **The log did not open, and the write is acknowledged.** -/
theorem write_unlogged :
    (∃ e', (loggingEngine false).write plainEnv allWritten (ascii "a") ⟨1, .double 0⟩
        = some (true, e') ∧ e'.wal.log = []) ∧
      ¬ (loggingEngine false).wal.Persists allWritten (ascii "a") ⟨1, .double 0⟩ := by
  refine ⟨⟨_, rfl, rfl⟩, ?_⟩
  rw [persists_iff]
  intro h
  cases h.opened

/-! ## What can be written at all -/

/-- `AppendWrite` does not throw, and an entry it has appended is read back as it was given: at
its place in the log, and as the last one of a log that was whole before. -/
def WalWriter.RoundTrips (w : WalWriter) (o : WriteOutcome) (tag : Bytes) (point : DataPoint) :
    Prop :=
  ∃ ok w', w.appendWrite o tag point = some (ok, w') ∧ (ok = true →
    (∃ file', readEntry { data := w'.log, pos := w.log.length }
      = some ({ type := .dataPoint, tagName := tag, points := [point] }, file')) ∧
    (WholeLog w.log → walEntries w'.log
      = walEntries w.log ++ [{ type := .dataPoint, tagName := tag, points := [point] }]))

theorem walEntries_whole {records : List WalRecord} (hfits : ∀ record ∈ records, record.Fits) :
    walEntries (records.flatMap WalRecord.bytes) = records.map WalRecord.entry := by
  lift records to List { record : WalRecord // record.Fits } using hfits
  obtain ⟨s', hrest, hloop⟩ := walFrames.loop_append records (r := [])
    (s := { data := (records.map Subtype.val).flatMap WalRecord.bytes }) (by simp [walFrames])
  rw [walFrames.loop_end s' hrest, List.append_nil] at hloop
  rw [List.map_map]
  exact hloop

theorem roundTrips_double (w : WalWriter) (o : WriteOutcome) {tag : Bytes} {ts : Timestamp}
    {bits : UInt64} (htag : tag.length ≤ 65535) :
    w.RoundTrips o tag { ts := ts, value := .double bits } := by
  by_cases hroom : w.opened = true ∧ 12 ≤ o.headerRoom ∧
      2 + tag.length % 2 ^ 16 + 16 ≤ o.dataRoom
  · obtain ⟨hopened, hheader, hdata⟩ := hroom
    refine ⟨true, _, appendWrite_of_room hopened hheader hdata, fun _ => ⟨?_, ?_⟩⟩
    · let file : File :=
        { data := w.log ++ (WalRecord.write o.pad tag ts bits).bytes, pos := w.log.length }
      have hdrop : file.data.drop file.pos = (WalRecord.write o.pad tag ts bits).bytes ++ [] := by
        change (w.log ++ (WalRecord.write o.pad tag ts bits).bytes).drop w.log.length = _
        rw [List.drop_left, List.append_nil]
      have hfits : (WalRecord.write o.pad tag ts bits).Fits := htag
      obtain ⟨file', hread, -⟩ := readEntry_whole hfits hdrop
      exact ⟨file', hread⟩
    · intro ⟨records, hfits, hlog⟩
      have hsnoc : ∀ record ∈ records ++ [.write o.pad tag ts bits], record.Fits := by
        intro record hrecord
        rcases List.mem_append.mp hrecord with hrecord | hrecord
        · exact hfits record hrecord
        · rwa [List.mem_singleton.mp hrecord]
      have hlast : w.log ++ (WalRecord.write o.pad tag ts bits).bytes
          = (records ++ [WalRecord.write o.pad tag ts bits]).flatMap WalRecord.bytes := by
        rw [List.flatMap_append, List.flatMap_singleton, hlog]
      dsimp only
      rw [hlast, hlog, walEntries_whole hsnoc, walEntries_whole hfits, List.map_append]
      rfl
  · obtain ⟨w', hfalse⟩ := appendWrite_of_no_room ts bits hroom
    exact ⟨false, w', hfalse, by simp⟩

/-- A reader's tag has a length that fits the field it is read from. -/
theorem length_tagName_le {file file' : File} {entry : WalEntry}
    (h : readEntry file = some (entry, file')) : entry.tagName.length ≤ 65535 := by
  rw [readEntry] at h
  simp only [Option.bind_eq_bind, Option.bind_eq_some_iff, Prod.exists] at h
  obtain ⟨header, f₁, -, h⟩ := h
  split at h
  · simp only [Option.pure_def, Option.some.injEq, Prod.mk.injEq] at h
    rw [← h.1]
    exact Nat.zero_le _
  · simp only [Option.bind_eq_some_iff, Prod.exists] at h
    obtain ⟨-, -, data, f₂, -, -, -, h⟩ := h
    simp only [Option.pure_def, Option.some.injEq, Prod.mk.injEq] at h
    rw [← h.1]
    dsimp only
    have hlt : ofLeBytes (data.take 2) < 256 ^ (data.take 2).length := ofLeBytes_lt _
    have hpow : 256 ^ (data.take 2).length ≤ 256 ^ 2 :=
      Nat.pow_le_pow_right (by decide) (List.length_take_le _ _)
    have htake : ((data.drop 2).take (ofLeBytes (data.take 2))).length
        ≤ ofLeBytes (data.take 2) := List.length_take_le _ _
    omega

/-- **What survives the log is a double under a tag of at most 65535 bytes**, and nothing else. -/
theorem appendWrite_roundTrips_iff (tag : Bytes) (point : DataPoint) :
    (∀ (w : WalWriter) (o : WriteOutcome), w.RoundTrips o tag point) ↔
      point.value.isDouble = true ∧ tag.length ≤ 65535 := by
  obtain ⟨ts, value⟩ := point
  constructor
  · intro h
    let o : WriteOutcome :=
      { pad := .replicate 3 0, headerRoom := 12, dataRoom := 2 + tag.length % 2 ^ 16 + 16,
        fsync := true }
    obtain ⟨ok, w', happend, hback⟩ := h { opened := true, log := [] } o
    cases value with
    | double bits =>
      refine ⟨rfl, ?_⟩
      rw [appendWrite_of_room rfl (Nat.le_refl _) (Nat.le_refl _)] at happend
      obtain ⟨rfl, -⟩ := Prod.mk.inj (Option.some.inj happend)
      obtain ⟨⟨file', hread⟩, -⟩ := hback rfl
      exact length_tagName_le hread
    | int64 i => cases happend
    | string s => cases happend
  · intro ⟨hdouble, htag⟩ w o
    cases value with
    | double bits => exact roundTrips_double w o htag
    | int64 i => cases hdouble
    | string s => cases hdouble

/-- **Writing a string throws.** -/
theorem appendWrite_string_throws :
    (loggingEngine true).write plainEnv allWritten (ascii "a") ⟨1, .string (ascii "on")⟩ = none ∧
      ¬ ∀ (w : WalWriter) (o : WriteOutcome),
        w.RoundTrips o (ascii "a") ⟨1, .string (ascii "on")⟩ := by
  refine ⟨rfl, ?_⟩
  intro h
  obtain ⟨ok, w', happend, -⟩ := h (.open true none) allWritten
  cases happend

end Storage
end MiniTSDB
