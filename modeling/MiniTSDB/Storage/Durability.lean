import MiniTSDB.Storage.Recovery

/-!
# What a crash leaves of a run with `Flush`

`Flush` empties the buffers and then removes the name of the log; the engine goes on writing to
the file that had it, which no later `Init` can open. Until the first `Flush` every acknowledged
point is in the log. From then on a crash leaves the SSTables and nothing else, so what is still
buffered then is lost unless it is stored as well: `durable_iff`.
-/

namespace MiniTSDB
namespace Storage

open Lib Os

variable {Loc : Type} [DecidableEq Loc] {env : Env Loc}

/-- A file holds the points that the widest query returns. One block holds its points if their
delta-of-deltas fit and the format can represent it. -/
def fileFinding : Finding where
  finds data p := p ∈ dataPoints data
  storable points := FitsInt32 (tsOf points) ∧ StreamsFit points ∧ NoStringData points
  finds_of_mem := fun _ ⟨hfits, hstreams, hstr⟩ _ hp => subset_dataPoints hstreams hstr hfits hp

/-! ## The log, before and after the first `Flush` -/

def EngineOp.TagFits : EngineOp → Prop
  | .write _ tag _ _ => tag.length ≤ 65535
  | .flush _ => True

def Flushes (ops : List EngineOp) : Prop := ∃ order, EngineOp.flush order ∈ ops

/-- Where the log is: with a name, whole and with every acknowledged point in it, until the first
`Flush`; without a name after it. -/
def LogAt (ops : List EngineOp) (s : Session Loc) : Prop :=
  (¬ Flushes ops ∧ AllLogged s ∧ WholeLog s.engine.wal.data) ∨
    (Flushes ops ∧ s.engine.wal.named = none ∧ s.engine.wal.unlinked ≠ none)

theorem flushes_append {ops : List EngineOp} {op : EngineOp} :
    Flushes (ops ++ [op]) ↔ Flushes ops ∨ ∃ order, op = .flush order := by
  simp only [Flushes, List.mem_append, List.mem_singleton, exists_or, eq_comm (a := op)]

theorem logAt_step {ops : List EngineOp} {s s' : Session Loc} {op : EngineOp} (h : LogAt ops s)
    (hstep : EngineStep env s op s') (htag : op.TagFits) : LogAt (ops ++ [op]) s' := by
  have hwal := hstep.wal_eq
  rw [LogAt, flushes_append]
  cases op with
  | write pad tag ts bits =>
    rcases h with ⟨hno, hall, hwhole⟩ | ⟨hyes, hnamed, hunlinked⟩
    · refine .inl ⟨by simp [hno], hall.write hstep hwhole htag, ?_⟩
      rw [hwal, Session.walAfter, data_setData]
      exact hwhole.append (.write pad tag ts bits) htag
    · -- the file written to has no name
      refine .inr ⟨.inl hyes, ?_, ?_⟩ <;> rw [hwal, Session.walAfter, WalFile.setData] <;>
        split <;> simp_all
  | flush order =>
    rw [hwal]
    exact .inr ⟨.inr ⟨order, rfl⟩, rfl, Option.some_ne_none _⟩

theorem logAt_run {config : StorageConfig} {disk : Disk Loc} {named : Option Bytes}
    (hwhole : WholeLog (named.getD [])) {ops : List EngineOp} {s : Session Loc}
    {guard : Session Loc → EngineOp → Prop} (hguard : ∀ s op, guard s op → op.TagFits)
    (h : Run (Guarded (EngineStep env) guard) (.start env config disk named) ops s) :
    LogAt ops s := by
  refine h.invariant LogAt ?_ fun _ _ _ _ hinv ha => logAt_step hinv ha.1 (hguard _ _ ha.2)
  refine .inl ⟨by simp [Flushes], ⟨rfl, by simp [Session.start]⟩, ?_⟩
  exact hwhole

/-! ## A crash after any operation -/

/-- The flushes of an operation are clean, and a written tag fits the log. -/
def DurableOp (env : Env Loc) (s : Session Loc) (op : EngineOp) : Prop :=
  CleanOp fileFinding env s op ∧ op.TagFits

/-- The flushes that the next `Init` makes while it replays the log are clean. -/
def CleanInit (env : Env Loc) (config : StorageConfig) (s : Session Loc) : Prop :=
  let table : MemTable :=
    { flushThreshold := config.memtableSize, sizeofDataPoint := config.sizeofDataPoint }
  CleanCalls fileFinding env (fun tag p => (tag, p) ∈ s.acked) s.engine.disk
    (table.addAll (replayPoints (walEntries (WalFile.open (s.engine.wal.crashed [])).data))).2

/-- After a crash and `Init`, every acknowledged point is in the new write buffer or in an
SSTable. -/
def Durable (env : Env Loc) (config : StorageConfig) (s : Session Loc) : Prop :=
  Kept fileFinding env (s.restart env config [])

theorem durable_of_replayed {config : StorageConfig} {s : Session Loc}
    (hclean : CleanInit env config s) (hlinked : s.engine.wal.unlinked = none)
    (hreplayed : Replayed s) : Durable env config s := by
  intro tag p hp
  refine hclean.kept_of_accounted hp (accounted_addAll (.inr ?_))
  rw [data_open_crashed hlinked, List.append_nil]
  exact hreplayed tag p hp

/-- Without a log, what was stored is what there is. -/
theorem durable_iff_stored {config : StorageConfig} {s : Session Loc}
    (hcrashed : s.engine.wal.crashed [] = none) :
    Durable env config s ↔
      ∀ tag p, (tag, p) ∈ s.acked → Stored fileFinding env s.engine.disk tag p := by
  rw [Durable, Kept, Session.restart, hcrashed, Engine.init_none]
  refine forall₃_congr fun tag p _ => ?_
  rw [or_iff_right]
  simp [MemTable.Buffered, MemTable.buffer]

/-- **What survives a crash**: in a run whose flushes are clean, on a log that was whole at the
start, every acknowledged point survives, if and only if there has been no `Flush` or every point
still buffered is stored too. -/
theorem durable_iff {config : StorageConfig} {disk : Disk Loc} {named : Option Bytes}
    (hwhole : WholeLog (named.getD [])) {ops : List EngineOp} {s : Session Loc}
    (h : Run (Guarded (EngineStep env) (DurableOp env)) (.start env config disk named) ops s)
    (config' : StorageConfig) (hinit : CleanInit env config' s) :
    Durable env config' s ↔ ¬ Flushes ops ∨ ∀ tag p, (tag, p) ∈ s.acked →
      s.engine.memTable.Buffered tag p → Stored fileFinding env s.engine.disk tag p := by
  have hkept : Kept fileFinding env s := kept_run (h.mono fun _ _ hg => hg.1)
  rcases logAt_run hwhole (fun _ _ hg => hg.2) h with ⟨hno, hall, -⟩ | ⟨hyes, hnamed, hunlinked⟩
  · have hreplayed : Replayed s := fun tag p hp => (hall.logged tag p hp).mem_replayPoints
    exact ⟨fun _ => .inl hno, fun _ => durable_of_replayed hinit hall.linked hreplayed⟩
  · have hcrashed : s.engine.wal.crashed [] = none := by
      rw [WalFile.crashed, WalFile.setData]
      split <;> simp_all
    rw [durable_iff_stored hcrashed]
    constructor
    · exact fun hstored => .inr fun tag p hp _ => hstored tag p hp
    · rintro (hno | hbuf) tag p hp
      · exact absurd hyes hno
      · rcases hkept tag p hp with hin | hin
        · exact hbuf tag p hp hin
        · exact hin

def writtenThenFlushed : Session Bytes :=
  (freshSession.after plainEnv (writeA 1)).after plainEnv (.flush [ascii "a"])

theorem run_writtenThenFlushed :
    Run (Guarded (EngineStep plainEnv) (DurableOp plainEnv)) freshSession
      [writeA 1, .flush [ascii "a"]] writtenThenFlushed := by
  have hnocalls : (freshSession.table (writeA 1)).2 = [] := by
    rw [freshSession_eq]
    rfl
  have hwrite : DurableOp plainEnv freshSession (writeA 1) :=
    ⟨cleanOp_of_no_calls hnocalls, (by decide : (ascii "a").length ≤ 65535)⟩
  have hkeys : (freshSession.after plainEnv (writeA 1)).engine.memTable.buffers.keys
      = [ascii "a"] := by
    rw [freshSession_eq]
    rfl
  have hcalls : ((freshSession.after plainEnv (writeA 1)).table (.flush [ascii "a"])).2
      = [{ tag := ascii "a", points := [⟨1, .double 0⟩] }] := by
    rw [freshSession_eq]
    rfl
  have hdisk : (freshSession.after plainEnv (writeA 1)).engine.disk
      = { dirs := fun _ => .empty } := by
    rw [freshSession_eq]
    rfl
  have hflush : CleanOp fileFinding plainEnv (freshSession.after plainEnv (writeA 1))
      (.flush [ascii "a"]) := by
    rw [CleanOp, hcalls, hdisk]
    refine ⟨⟨?_, ?_, ?_⟩, trivial⟩
    · simp [Disk.tagDir]
    · exact ⟨by decide, streamsFit_of_length (by decide), by decide⟩
    · simp [Disk.tagDir, Finding.InFile, Dir.readFile]
  show Run _ _ ([] ++ [_] ++ [_]) _
  exact (Run.start.snoc ⟨engineStep_write .., hwrite⟩).snoc
    ⟨engineStep_flush _ (by rw [hkeys]), hflush, trivial⟩

/-- It survives a crash. -/
theorem durable_iff_flushed : Durable plainEnv {} writtenThenFlushed := by
  have hcrashed : writtenThenFlushed.engine.wal.crashed [] = none := rfl
  have hinit : CleanInit plainEnv {} writtenThenFlushed := by
    have hdata : (WalFile.open none).data = [] := rfl
    rw [CleanInit, hcrashed, hdata, walEntries_nil]
    trivial
  have hacked : writtenThenFlushed.acked = [(ascii "a", ⟨1, .double 0⟩)] := by
    rw [writtenThenFlushed, freshSession_eq]
    rfl
  have hempty : (writtenThenFlushed.engine.memTable.buffer (ascii "a")).points = [] := by
    rw [writtenThenFlushed, freshSession_eq]
    rfl
  have hwhole : WholeLog ((none : Option Bytes).getD []) := wholeLog_nil
  refine (durable_iff hwhole run_writtenThenFlushed {} hinit).mpr (.inr ?_)
  intro tag p hp hbuf
  rw [hacked, List.mem_singleton, Prod.mk.injEq] at hp
  rw [hp.1, MemTable.Buffered, hempty] at hbuf
  simp at hbuf

def flushedThenWritten : Session Bytes :=
  (freshSession.after plainEnv (.flush [])).after plainEnv (writeA 1)

/-- **The point does not survive a crash**: the log it is in has no name any more. -/
theorem flush_unlinks_log :
    (Run (Guarded (EngineStep plainEnv) (DurableOp plainEnv)) freshSession
        [.flush [], writeA 1] flushedThenWritten ∧
      (ascii "a", ⟨1, .double 0⟩) ∈ flushedThenWritten.acked ∧
      flushedThenWritten.engine.wal.crashed [] = none ∧
      (flushedThenWritten.restart plainEnv {} []).engine.memTable.buffers = ∅ ∧
      (flushedThenWritten.restart plainEnv {} []).engine.disk = { dirs := fun _ => .empty }) ∧
    ¬ Durable plainEnv {} flushedThenWritten := by
  have hkeys : freshSession.engine.memTable.buffers.keys = [] := by
    rw [freshSession_eq]
    rfl
  have hfirst : (freshSession.table (.flush [])).2 = [] := rfl
  have hsecond : ((freshSession.after plainEnv (.flush [])).table (writeA 1)).2 = [] := by
    rw [freshSession_eq]
    rfl
  have hrun : Run (Guarded (EngineStep plainEnv) (DurableOp plainEnv)) freshSession
      [.flush [], writeA 1] flushedThenWritten := by
    show Run _ _ ([] ++ [_] ++ [_]) _
    exact (Run.start.snoc ⟨engineStep_flush _ (by rw [hkeys]), cleanOp_of_no_calls hfirst,
        trivial⟩).snoc
      ⟨engineStep_write .., cleanOp_of_no_calls hsecond, (by decide : (ascii "a").length ≤ 65535)⟩
  have hacked : (ascii "a", ⟨1, .double 0⟩) ∈ flushedThenWritten.acked := by
    rw [flushedThenWritten, freshSession_eq]
    exact List.mem_singleton.mpr rfl
  have hcrashed : flushedThenWritten.engine.wal.crashed [] = none := rfl
  have hdisk : flushedThenWritten.engine.disk = { dirs := fun _ => .empty } := by
    rw [flushedThenWritten, freshSession_eq]
    rfl
  have hengine : (flushedThenWritten.restart plainEnv {} []).engine
      = Engine.init plainEnv {} { dirs := fun _ => .empty } none := by
    rw [Session.restart, hcrashed, hdisk]
  refine ⟨⟨hrun, hacked, hcrashed, ?_, ?_⟩, fun hdurable => ?_⟩
  · rw [hengine, Engine.init_none]
  · rw [hengine, Engine.init_none]
  · obtain ⟨name, data, -, hread, -⟩ := (durable_iff_stored hcrashed).mp hdurable _ _ hacked
    rw [hdisk] at hread
    simp [Disk.tagDir, Dir.readFile] at hread

end Storage
end MiniTSDB
