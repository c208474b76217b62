import MiniTSDB.Storage.Kept

/-!
# Crashes, and what the log brings back

A crash leaves the log as it is on disk, with some first bytes of an entry that was being
written, and the next `Init` replays it. Whether the points come back is decided when they are
written: the reader stops at the first entry it cannot read, so an entry behind a torn one is as
good as gone. `replayed_run` says that this is all that can go wrong: written behind whole
entries, a point is replayed by every later `Init`, whatever later crashes leave.

`Flush` removes the name of the log, while the engine goes on writing to the file that had it.
After the first `Flush` no crash is recovered from any more: `durable_iff`.
-/

namespace MiniTSDB
namespace Storage

open Lib Os

variable {Loc : Type} [DecidableEq Loc] {env : Env Loc}

/-! ## Crash and `Init` -/

/-- The log that a crash leaves. `left` is what there is of an unfinished write. -/
def WalFile.crashed (wal : WalFile) (left : Bytes) : Option Bytes :=
  (wal.setData (wal.data ++ left)).named

/-- A crash, and a new engine on what it leaves. -/
def Session.restart (env : Env Loc) (config : StorageConfig) (left : Bytes) (s : Session Loc) :
    Session Loc :=
  { engine := Engine.init env config s.engine.disk (s.engine.wal.crashed left), acked := s.acked }

/-- What `Write` and `Flush` do to the log. -/
def Session.walAfter (s : Session Loc) : EngineOp → WalFile
  | .write pad tag ts bits =>
    s.engine.wal.setData (s.engine.wal.data ++ (WalRecord.write pad tag ts bits).bytes)
  | .flush _ => s.engine.wal.truncate

theorem EngineStep.wal_eq {s s' : Session Loc} {op : EngineOp} (h : EngineStep env s op s') :
    s'.engine.wal = s.walAfter op := by
  cases h with
  | write h =>
    rw [Engine.write_double] at h
    cases h
    rfl
  | flush h => rfl

@[simp] theorem data_setData (wal : WalFile) (data : Bytes) : (wal.setData data).data = data := by
  unfold WalFile.setData WalFile.data
  split <;> simp_all

theorem data_open_crashed {wal : WalFile} (h : wal.unlinked = none) (left : Bytes) :
    (WalFile.open (wal.crashed left)).data = wal.data ++ left := by
  simp [WalFile.open, WalFile.crashed, WalFile.setData, WalFile.data, h]

/-! ## Points in the log -/

/-- The log is whole entries and nothing else. -/
def WholeLog (log : Bytes) : Prop :=
  ∃ records : List WalRecord, (∀ record ∈ records, record.Fits) ∧
    log = records.flatMap WalRecord.bytes

/-- The point is in an entry that only whole entries come before. -/
def Logged (log : Bytes) (tag : Bytes) (p : DataPoint) : Prop :=
  ∃ records : List WalRecord, (∀ record ∈ records, record.Fits) ∧
    (∃ rest, log = records.flatMap WalRecord.bytes ++ rest) ∧
    (tag, p) ∈ replayPoints (records.map WalRecord.entry)

theorem wholeLog_nil : WholeLog [] := ⟨[], by simp, rfl⟩

theorem WholeLog.append {log : Bytes} (h : WholeLog log) (record : WalRecord)
    (hfits : record.Fits) : WholeLog (log ++ record.bytes) := by
  obtain ⟨records, hrecords, rfl⟩ := h
  refine ⟨records ++ [record], ?_, by simp⟩
  intro r hr
  rcases List.mem_append.mp hr with hr | hr
  · exact hrecords r hr
  · rwa [List.mem_singleton.mp hr]

theorem Logged.append {log tag : Bytes} {p : DataPoint} (h : Logged log tag p) (more : Bytes) :
    Logged (log ++ more) tag p := by
  obtain ⟨records, hrecords, ⟨rest, rfl⟩, hp⟩ := h
  exact ⟨records, hrecords, ⟨rest ++ more, by rw [List.append_assoc]⟩, hp⟩

theorem replayPoints_append (entries entries' : List WalEntry) :
    replayPoints (entries ++ entries') = replayPoints entries ++ replayPoints entries' := by
  rw [replayPoints, List.filter_append, List.flatMap_append]
  rfl

theorem WholeLog.logged_append {log tag : Bytes} (h : WholeLog log) (htag : tag.length ≤ 65535)
    (pad : HeaderPad) (ts : Timestamp) (bits : UInt64) :
    Logged (log ++ (WalRecord.write pad tag ts bits).bytes) tag
      { ts := ts, value := .double bits } := by
  obtain ⟨records, hrecords, rfl⟩ := h
  refine ⟨records ++ [.write pad tag ts bits], ?_, ⟨[], by simp⟩, ?_⟩
  · intro r hr
    rcases List.mem_append.mp hr with hr | hr
    · exact hrecords r hr
    · rw [List.mem_singleton.mp hr]
      exact htag
  · rw [List.map_append, replayPoints_append]
    exact List.mem_append_right _ (by simp [replayPoints, WalRecord.entry])

/-- **A logged point is replayed.** -/
theorem Logged.mem_replayPoints {log tag : Bytes} {p : DataPoint} (h : Logged log tag p) :
    (tag, p) ∈ replayPoints (walEntries log) := by
  obtain ⟨records, hrecords, ⟨rest, rfl⟩, hp⟩ := h
  obtain ⟨entries, hread⟩ := walEntries_append hrecords rest
  rw [hread, replayPoints_append]
  exact List.mem_append_left _ hp

/-! ## Sessions and crashes -/

/-- A call of `Write` with a double, or a crash that leaves some bytes of a write behind, and
`Init` with this configuration. -/
inductive LifeOp
  | write (pad : HeaderPad) (tag : Bytes) (ts : Timestamp) (bits : UInt64)
  | crash (config : StorageConfig) (left : Bytes)

inductive LifeStep (env : Env Loc) : Session Loc → LifeOp → Session Loc → Prop
  | write {s s' : Session Loc} {pad : HeaderPad} {tag : Bytes} {ts : Timestamp} {bits : UInt64}
      (h : EngineStep env s (.write pad tag ts bits) s') :
      LifeStep env s (.write pad tag ts bits) s'
  | crash {s : Session Loc} {config : StorageConfig} {left : Bytes} {pad : HeaderPad}
      {tag : Bytes} {ts : Timestamp} {bits : UInt64}
      (h : left <+: (WalRecord.write pad tag ts bits).bytes) :
      LifeStep env s (.crash config left) (s.restart env config left)

/-- The log's reader gets every acknowledged point, under its tag. Right after `Init` this is
the log that it has replayed. -/
def Replayed (s : Session Loc) : Prop :=
  ∀ tag p, (tag, p) ∈ s.acked → (tag, p) ∈ replayPoints (walEntries s.engine.wal.data)

/-- Nothing is written behind a torn entry, and the tag's length fits the entry. -/
def WritesWhole (s : Session Loc) : LifeOp → Prop
  | .write _ tag _ _ => WholeLog s.engine.wal.data ∧ tag.length ≤ 65535
  | .crash _ _ => True

/-- The name of the log leads to the file written to, and the acknowledged points are in it. -/
structure AllLogged (s : Session Loc) : Prop where
  linked : s.engine.wal.unlinked = none
  logged : ∀ tag p, (tag, p) ∈ s.acked → Logged s.engine.wal.data tag p

theorem AllLogged.write {s s' : Session Loc} {pad : HeaderPad} {tag : Bytes} {ts : Timestamp}
    {bits : UInt64} (h : AllLogged s) (hstep : EngineStep env s (.write pad tag ts bits) s')
    (hwhole : WholeLog s.engine.wal.data) (htag : tag.length ≤ 65535) : AllLogged s' := by
  have hwal := hstep.wal_eq
  obtain ⟨-, -, hacked⟩ := hstep.spec
  refine ⟨?_, fun other p hp => ?_⟩
  · rw [hwal, Session.walAfter, WalFile.setData, h.linked]
  · rw [hwal, Session.walAfter, data_setData]
    rw [hacked, Session.ackedBy] at hp
    rcases List.mem_append.mp hp with hp | hp
    · exact (h.logged other p hp).append _
    · obtain ⟨rfl, rfl⟩ := Prod.mk.inj (List.mem_singleton.mp hp)
      exact hwhole.logged_append htag pad ts bits

theorem allLogged_step {s s' : Session Loc} {op : LifeOp} (h : AllLogged s)
    (hstep : LifeStep env s op s') (hguard : WritesWhole s op) : AllLogged s' := by
  cases hstep with
  | write hstep => exact h.write hstep hguard.1 hguard.2
  | crash =>
    refine ⟨rfl, fun tag p hp => ?_⟩
    show Logged (WalFile.open _).data tag p
    rw [data_open_crashed h.linked]
    exact (h.logged tag p hp).append _

/-- **What is written behind whole entries is replayed by every later `Init`**, through any
number of sessions, each ended by a crash that may tear the entry being written. -/
theorem replayed_run {config : StorageConfig} {disk : Disk Loc} {named : Option Bytes}
    {ops : List LifeOp} {s : Session Loc}
    (h : Run (Guarded (LifeStep env) WritesWhole) (.start env config disk named) ops s) :
    Replayed s := by
  have hall : AllLogged s :=
    h.invariant (fun _ s => AllLogged s) ⟨rfl, by simp [Session.start]⟩
      fun _ _ _ _ hinv ha => allLogged_step hinv ha.1 ha.2
  exact fun tag p hp => (hall.logged tag p hp).mem_replayPoints

def entryA : Bytes := (WalRecord.write (.replicate 3 0) (ascii "a") 1 0).bytes

theorem data_freshSession : freshSession.engine.wal.data = [] := by
  rw [freshSession_eq]
  rfl

/-- A point is written, the next write is torn, and the point is replayed. -/
theorem replayed_run_torn :
    Replayed ((freshSession.after plainEnv (writeA 1)).restart plainEnv {} (entryA.take 5)) := by
  have hwrite : LifeStep plainEnv freshSession (.write (.replicate 3 0) (ascii "a") 1 0)
      (freshSession.after plainEnv (writeA 1)) := .write (engineStep_write ..)
  have hguard : WritesWhole freshSession (.write (.replicate 3 0) (ascii "a") 1 0) := by
    rw [WritesWhole, data_freshSession]
    exact ⟨wholeLog_nil, by decide⟩
  exact replayed_run ((Run.start.snoc ⟨hwrite, hguard⟩).snoc
    ⟨.crash (List.take_prefix 5 entryA), trivial⟩)

/-- A crash leaves one byte of an entry; the next session writes a point, and crashes too. -/
def tornThenWritten : Session Bytes :=
  ((freshSession.restart plainEnv {} (entryA.take 1)).after plainEnv (writeA 1)).restart
    plainEnv {} []

/-- **An acknowledged point is not replayed**: its entry is behind a torn one. -/
theorem replay_stops_at_torn :
    (Run (LifeStep plainEnv) freshSession
        [.crash {} (entryA.take 1), .write (.replicate 3 0) (ascii "a") 1 0, .crash {} []]
        tornThenWritten ∧
      (ascii "a", ⟨1, .double 0⟩) ∈ tornThenWritten.acked ∧
      walEntries tornThenWritten.engine.wal.data = []) ∧
    ¬ Replayed tornThenWritten := by
  have hrun : Run (LifeStep plainEnv) freshSession
      [.crash {} (entryA.take 1), .write (.replicate 3 0) (ascii "a") 1 0, .crash {} []]
      tornThenWritten := by
    show Run _ _ ([] ++ [_] ++ [_] ++ [_]) _
    exact ((Run.start.snoc (.crash (List.take_prefix 1 entryA))).snoc
      (.write (engineStep_write ..))).snoc (.crash (List.nil_prefix (l := entryA)))
  have hacked : (ascii "a", ⟨1, .double 0⟩) ∈ tornThenWritten.acked := by
    show _ ∈ freshSession.acked ++ [_]
    exact List.mem_append_right _ (List.mem_singleton.mpr rfl)
  have hdata : tornThenWritten.engine.wal.data = entryA.take 1 ++ entryA := by
    have hwal := (engineStep_write plainEnv (freshSession.restart plainEnv {} (entryA.take 1))
      (.replicate 3 0) (ascii "a") 1 0).wal_eq
    have hfirst : (freshSession.restart plainEnv {} (entryA.take 1)).engine.wal.data
        = entryA.take 1 := by
      have hlinked : freshSession.engine.wal.unlinked = none := by rw [freshSession_eq]
      have := data_open_crashed hlinked (entryA.take 1)
      rwa [data_freshSession, List.nil_append] at this
    have hlinked : ((freshSession.restart plainEnv {} (entryA.take 1)).after plainEnv
        (writeA 1)).engine.wal.unlinked = none := by
      rw [writeA, hwal]
      rfl
    show (WalFile.open _).data = _
    rw [data_open_crashed hlinked, writeA, hwal, Session.walAfter, data_setData, hfirst,
      List.append_nil, entryA]
  have hnone : readEntry { data := entryA.take 1 ++ entryA } = none := by decide +kernel
  have hread : walEntries tornThenWritten.engine.wal.data = [] := by
    rw [hdata]
    exact walFrames.loop_none _ hnone
  refine ⟨⟨hrun, hacked, hread⟩, fun hreplayed => ?_⟩
  have hin := hreplayed _ _ hacked
  rw [hread] at hin
  simp [replayPoints] at hin

end Storage
end MiniTSDB
