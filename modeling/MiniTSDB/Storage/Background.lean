import MiniTSDB.Storage.CompactionSafety
import MiniTSDB.Storage.ReadYourWrites

/-!
# The engine, and the compactions beside it

A thread of its own compacts the directories of the tags while the engine writes and flushes into
them. A run here is any sequence of `Write`, `Flush` and compactions, each of one directory and cut
short after any of its file operations. A compaction keeps one point of each timestamp, so what a
run keeps of an acknowledged point is its timestamp: the point waits in the buffer, or the directory
of its tag holds the timestamp (`held_run`), which says what a read of everything misses
(`missed_iff_run`).
-/

namespace MiniTSDB
namespace Storage

open Lib Os

/-- An operation of the engine, or a compaction of a directory. -/
inductive BackgroundOp (Loc : Type)
  | engine (op : EngineOp)
  | compact (loc : Loc) (call : CompactionCall)

variable {Loc : Type} [DecidableEq Loc] {env : Env Loc}

/-- A directory has become another one. -/
def Session.withDir (s : Session Loc) (loc : Loc) (d : Dir) : Session Loc :=
  { s with engine := { s.engine with disk := { s.engine.disk with
      dirs := Function.update s.engine.disk.dirs loc d } } }

theorem tagDir_withDir {s : Session Loc} {loc : Loc} {d : Dir} {tag : Bytes} :
    (s.withDir loc d).engine.disk.tagDir env tag
      = if env.resolve tag = loc then d else s.engine.disk.tagDir env tag :=
  Function.update_apply _ _ _ _

/-- One step: the compactions of the directories come between any two calls of the engine. -/
inductive BackgroundStep (env : Env Loc) : Session Loc → BackgroundOp Loc → Session Loc → Prop
  | engine {s s' : Session Loc} {op : EngineOp} (h : EngineStep env s op s') :
      BackgroundStep env s (.engine op) s'
  | compact {s : Session Loc} {loc : Loc} {call : CompactionCall} {d : Dir}
      (h : CompactStep (s.engine.disk.dirs loc) call d) :
      BackgroundStep env s (.compact loc call) (s.withDir loc d)

/-! ## A file holds a timestamp -/

theorem mem_tsOf_dataPoints (points : List DataPoint)
    (h : FitsInt32 (tsOf points) ∧ StreamsFit points ∧ NoStringData points) (p : DataPoint)
    (hp : p ∈ points) : p.ts ∈ tsOf (dataPoints (tableBytes [points])) :=
  List.mem_map_of_mem (subset_dataPoints h.2.1 h.2.2 h.1 hp)

/-- A file holds a point if its timestamp can be read from the file. -/
def timestampFinding : Finding where
  finds data p := p.ts ∈ tsOf (dataPoints data)
  storable points := FitsInt32 (tsOf points) ∧ StreamsFit points ∧ NoStringData points
  finds_of_mem := mem_tsOf_dataPoints

theorem holds_timestamp_iff {d : Dir} {t : Timestamp} :
    Holds d t ↔ ∃ name data, isSst name = true ∧ d.readFile name = some data ∧
      t ∈ tsOf (dataPoints data) := by
  constructor
  · rintro ⟨q, ⟨name, hsst, hq⟩, hts⟩
    cases hread : d.readFile name with
    | none => simp [tablePoints, hread] at hq
    | some data =>
      rw [tablePoints, hread] at hq
      exact ⟨name, data, hsst, hread, List.mem_map.mpr ⟨q, hq, hts⟩⟩
  · rintro ⟨name, data, hsst, hread, ht⟩
    obtain ⟨q, hq, hts⟩ := List.mem_map.mp ht
    refine ⟨q, ⟨name, hsst, ?_⟩, hts⟩
    rw [tablePoints, hread]
    exact hq

omit [DecidableEq Loc] in
theorem stored_iff_holds {disk : Disk Loc} {tag : Bytes} {p : DataPoint} :
    Stored timestampFinding env disk tag p ↔ Holds (disk.tagDir env tag) p.ts :=
  holds_timestamp_iff.symm

theorem foundInTables_fullRange {d : Dir} {t : Timestamp} :
    FoundInTables d fullRange t ↔ Holds d t := by
  rw [holds_timestamp_iff, FoundInTables]
  simp [tsOf, dataPoints]

/-! ## Runs -/

/-- The flushes of an operation are clean for the timestamps from 0 on that were acknowledged by
then, and a compaction is safe. -/
def SafeOp (env : Env Loc) (s : Session Loc) : BackgroundOp Loc → Prop
  | .engine op =>
    CleanCalls timestampFinding env (fun tag p => (tag, p) ∈ s.ackedBy op ∧ 0 ≤ p.ts)
      s.engine.disk (s.table op).2
  | .compact loc call => SafeCall (s.engine.disk.dirs loc) call

/-- Every acknowledged point from 0 on is buffered, or its directory holds its timestamp. -/
def Held (env : Env Loc) (s : Session Loc) : Prop :=
  ∀ tag p, (tag, p) ∈ s.acked → 0 ≤ p.ts →
    s.engine.memTable.Buffered tag p ∨ Holds (s.engine.disk.tagDir env tag) p.ts

section
variable {s s' : Session Loc}

theorem Held.engine {op : EngineOp} (h : Held env s) (hstep : EngineStep env s op s')
    (hclean : SafeOp env s (.engine op)) : Held env s' := by
  obtain ⟨htable, hdisk, hacked⟩ := hstep.spec
  intro tag p hp hpos
  rw [htable, hdisk, ← stored_iff_holds]
  rw [hacked] at hp
  rw [SafeOp] at hclean
  by_cases hbefore : (tag, p) ∈ s.acked ∧ ¬ s.engine.memTable.Buffered tag p
  · have hheld := (h tag p hbefore.1 hpos).resolve_left hbefore.2
    exact .inr (hclean.stored ⟨hp, hpos⟩ (stored_iff_holds.mpr hheld))
  · have haccounted : Accounted (s.table op) tag p := accounted_table hp fun hacked => by
      by_contra hnot
      exact hbefore ⟨hacked, hnot⟩
    exact hclean.kept_of_accounted ⟨hp, hpos⟩ haccounted

theorem Held.compact {loc : Loc} {call : CompactionCall} {d : Dir} (h : Held env s)
    (hstep : CompactStep (s.engine.disk.dirs loc) call d)
    (hsafe : SafeOp env s (.compact loc call)) : Held env (s.withDir loc d) := by
  have hkeeps : Preserves (s.engine.disk.dirs loc) d := compactTag_preserves hsafe hstep.2
  intro tag p hp hpos
  rcases h tag p hp hpos with hbuffered | hheld
  · exact .inl hbuffered
  · right
    rw [tagDir_withDir]
    split
    case isTrue hloc =>
      rw [Disk.tagDir, hloc] at hheld
      exact hkeeps _ hpos hheld
    case isFalse => exact hheld

theorem Held.step {op : BackgroundOp Loc} (h : Held env s) (hstep : BackgroundStep env s op s')
    (hsafe : SafeOp env s op) : Held env s' := by
  cases hstep with
  | engine hstep => exact h.engine hstep hsafe
  | compact hstep => exact h.compact hstep hsafe

/-- **In a run of safe operations, no acknowledged timestamp from 0 on is lost.** -/
theorem held_run {config : StorageConfig} {disk : Disk Loc} {named : Option Bytes}
    {ops : List (BackgroundOp Loc)}
    (h : Run (Guarded (BackgroundStep env) (SafeOp env)) (.start env config disk named) ops s) :
    Held env s :=
  h.invariant (fun _ s => Held env s) (by simp [Held, Session.start])
    fun _ _ _ _ hheld ha => hheld.step ha.1 ha.2

/-- A compaction leaves the cache of latest values alone. -/
theorem latestOf_backgroundRun {config : StorageConfig} {disk : Disk Loc} {named : Option Bytes}
    {ops : List (BackgroundOp Loc)}
    (h : Run (BackgroundStep env) (.start env config disk named) ops s) :
    LatestOf s.engine.latest s.acked := by
  refine h.invariant (fun _ s => LatestOf s.engine.latest s.acked) (latestOf_run .start) ?_
  intro _ _ _ _ hlatest hstep
  cases hstep with
  | engine hstep => exact latestOf_step hlatest hstep
  | compact => exact hlatest

end

/-! ## A late point, and a merge -/

/-- Two files of one point each are merged safely, if neither has a name that the merge takes. -/
theorem safeCall_onePointEach {a b : Bytes} (hab : a ≠ b) (ha : isSst a = true)
    (hb : isSst b = true) (hfree : ∀ name ∈ [a, b],
      tmpFile [⟨1, .double 0⟩, ⟨2, .double 0⟩] ≠ name ∧
        mergedFile [⟨1, .double 0⟩, ⟨2, .double 0⟩] ≠ name) :
    SafeCall (twoFiles a (onePoint 1) b (onePoint 2))
      (twoFilesCall a (onePoint 1) b (onePoint 2)) := by
  have hblocks : ∀ points ∈ onePoint 1 ++ onePoint 2, BlockList points :=
    blockList_of_lengths (by decide) (by decide)
  have hcount : (onePoint 1).length < 2 ^ 32 ∧ (onePoint 2).length < 2 ^ 32 := by decide
  have hwritten := twoFiles_writtenFrom (onePoint 1) (onePoint 2) hab ha hb hcount hblocks
  intro merged hmerge _
  obtain rfl : merged = [⟨1, .double 0⟩, ⟨2, .double 0⟩] := by
    have hpoints : (onePoint 1 ++ onePoint 2).flatMap (queryBlock compactionRange)
        = [⟨1, .double 0⟩, ⟨2, .double 0⟩] := by decide
    simp only [twoFilesCall, twoFiles_input _ _ hab ha hb hcount hblocks, hpoints] at hmerge
    exact hmerge.eq_of_ascending (by decide)
  have hread : ∀ f ∈ readFiles (twoFiles a (onePoint 1) b (onePoint 2))
      (twoEntries a (onePoint 1) b (onePoint 2)) (twoThreshold (onePoint 1) (onePoint 2)),
      f ∈ [a, b] := fun f hf => hwritten.mem_readFiles_iff.mp hf
  have hnone : ∀ name, (∀ other ∈ [a, b], name ≠ other) →
      (twoFiles a (onePoint 1) b (onePoint 2)).lookup name = none := fun name hne =>
    twoFiles_lookup_ne (hne a (by simp)) (hne b (by simp))
  refine ⟨by decide, streamsFit_of_length (by decide), ?_, ?_, ?_, ?_⟩
  · -- in both files, the query finds all there is
    intro f hf p hp _
    obtain ⟨e, he, rfl⟩ := List.mem_map.mp (hwritten.mem_readFiles_iff.mp hf)
    have hall : ∀ blocks ∈ [onePoint 1, onePoint 2],
        blocks.flatMap (queryBlock compactionRange) = blocks.flatMap (queryBlock fullRange) := by
      decide
    have hmem : e.2 ∈ [onePoint 1, onePoint 2] := List.mem_map_of_mem he
    rw [hwritten.compactionQuery_eq he, hall e.2 hmem, ← hwritten.tablePoints_eq he]
    exact List.mem_map_of_mem hp
  · intro hfresh
    exact (hfree _ (hread _ hfresh)).2 rfl
  · intro name hname p hp
    have hgone : (twoFiles a (onePoint 1) b (onePoint 2)).lookup name = none := by
      rcases hname with rfl | rfl
      · exact hnone _ fun other hother => (hfree other hother).1
      · exact hnone _ fun other hother => (hfree other hother).2
    simp [tablePoints, Dir.readFile, hgone] at hp
  · rintro ⟨empty, hdir⟩
    rw [hnone _ fun other hother => (hfree other hother).2] at hdir
    cases hdir

/-- A flush of the tag `a`. -/
def flushOfA : EngineOp := .flush [ascii "a"]

/-- The point at 2 is written and flushed, and then the one at 1. -/
def lateWritten : Session Bytes :=
  ((freshSession.after plainEnv (writeA 2)).after plainEnv flushOfA).after plainEnv (writeA 1)

/-- That one is flushed too, and the two files are merged. -/
def lateMerged : Session Bytes :=
  (lateWritten.after plainEnv flushOfA).withDir (ascii "a")
    (twoFilesMerged (sstName someDay 1) (onePoint 1) (sstName someDay 2) (onePoint 2))

theorem safeOp_of_no_calls {s : Session Loc} {op : EngineOp} (h : (s.table op).2 = []) :
    SafeOp env s (.engine op) := by
  rw [SafeOp, h]
  trivial

/-- A point of the tag `a` is flushed into a file that is not there yet. -/
theorem cleanCall_onePoint {keep : Bytes → DataPoint → Prop} {disk : Disk Bytes} {ts : Timestamp}
    (hstorable : timestampFinding.storable [⟨ts, .double 0⟩])
    (hnew : (disk.dirs (ascii "a")).lookup (sstName someDay ts) = none) :
    CleanCall timestampFinding plainEnv keep disk
      { tag := ascii "a", points := [⟨ts, .double 0⟩] } where
  opens := by
    rintro p ⟨⟩ empty hdir
    exact absurd (hnew.symm.trans hdir) (by simp)
  storable := hstorable
  replaces := by
    rintro p ⟨⟩ tag q _ _ ⟨data, _, hread, _⟩
    have hgone : ((disk.tagDir plainEnv (ascii "a")).readFile (sstName someDay ts)) = none := by
      rw [Dir.readFile, show (disk.tagDir plainEnv (ascii "a")).lookup _ = none from hnew]
    exact absurd (hgone.symm.trans hread) (by simp)

/-- What a flush of this one point leaves in the directory. -/
theorem dirs_flush_onePoint {disk : Disk Bytes} {ts : Timestamp}
    (hclean : CleanCall timestampFinding plainEnv (fun _ _ => True) disk
      { tag := ascii "a", points := [⟨ts, .double 0⟩] }) :
    (runCalls plainEnv disk [{ tag := ascii "a", points := [⟨ts, .double 0⟩] }]).dirs (ascii "a")
      = (disk.dirs (ascii "a")).set (sstName someDay ts) (.file (tableBytes (onePoint ts))) := by
  show (flushCallback plainEnv disk { tag := ascii "a", points := [⟨ts, .double 0⟩] }).tagDir
    plainEnv (ascii "a") = _
  rw [tagDir_flushCallback, if_pos rfl, hclean.flushInto_eq]
  rfl

theorem run_lateWritten :
    Run (Guarded (BackgroundStep plainEnv) (SafeOp plainEnv)) freshSession
        [.engine (writeA 2), .engine flushOfA, .engine (writeA 1)] lateWritten ∧
      lateWritten.engine.disk.dirs (ascii "a")
        = Dir.empty.set (sstName someDay 2) (.file (tableBytes (onePoint 2))) := by
  have hstorable : timestampFinding.storable [⟨2, .double 0⟩] :=
    ⟨by decide, streamsFit_of_length (by decide), by decide⟩
  have hfirst : (freshSession.table (writeA 2)).2 = [] := by
    rw [freshSession_eq]
    rfl
  have hkeys : (freshSession.after plainEnv (writeA 2)).engine.memTable.buffers.keys
      = [ascii "a"] := by
    rw [freshSession_eq]
    rfl
  have hcalls : ((freshSession.after plainEnv (writeA 2)).table flushOfA).2
      = [{ tag := ascii "a", points := [⟨2, .double 0⟩] }] := by
    rw [freshSession_eq]
    rfl
  have hdisk : (freshSession.after plainEnv (writeA 2)).engine.disk
      = { dirs := fun _ => .empty } := by
    rw [freshSession_eq]
    rfl
  have hsecond : (((freshSession.after plainEnv (writeA 2)).after plainEnv flushOfA).table
      (writeA 1)).2 = [] := by
    rw [freshSession_eq]
    rfl
  have hflushed : lateWritten.engine.disk = runCalls plainEnv { dirs := fun _ => .empty }
      [{ tag := ascii "a", points := [⟨2, .double 0⟩] }] := by
    rw [← hdisk, ← hcalls]
    rw [lateWritten, freshSession_eq]
    rfl
  have hflush : SafeOp plainEnv (freshSession.after plainEnv (writeA 2)) (.engine flushOfA) := by
    rw [SafeOp, hcalls, hdisk]
    exact ⟨cleanCall_onePoint hstorable rfl, trivial⟩
  refine ⟨?_, ?_⟩
  · show Run _ _ ([] ++ [BackgroundOp.engine (writeA 2)] ++ [BackgroundOp.engine flushOfA]
      ++ [BackgroundOp.engine (writeA 1)]) _
    refine .snoc (.snoc (.snoc .start ⟨.engine (engineStep_write ..), safeOp_of_no_calls hfirst⟩)
      ⟨.engine (engineStep_flush _ ?_), hflush⟩)
      ⟨.engine (engineStep_write ..), safeOp_of_no_calls hsecond⟩
    exact .of_eq hkeys.symm
  · rw [hflushed, dirs_flush_onePoint (cleanCall_onePoint hstorable rfl)]

theorem run_lateMerged :
    Run (Guarded (BackgroundStep plainEnv) (SafeOp plainEnv)) freshSession
      ([.engine (writeA 2), .engine flushOfA, .engine (writeA 1)] ++ [.engine flushOfA]
        ++ [.compact (ascii "a")
          (twoFilesCall (sstName someDay 1) (onePoint 1) (sstName someDay 2) (onePoint 2))])
      lateMerged := by
  obtain ⟨hrun, hdirs⟩ := run_lateWritten
  have hstorable : timestampFinding.storable [⟨1, .double 0⟩] :=
    ⟨by decide, streamsFit_of_length (by decide), by decide⟩
  have hne : sstName someDay 1 ≠ sstName someDay 2 := fun heq =>
    absurd (sstName_inj heq).2 (by decide)
  have hnew : (lateWritten.engine.disk.dirs (ascii "a")).lookup (sstName someDay 1) = none := by
    rw [hdirs, Dir.lookup_set_ne hne, Dir.lookup_empty]
  have hkeys : lateWritten.engine.memTable.buffers.keys = [ascii "a"] := by
    rw [lateWritten, freshSession_eq]
    rfl
  have hcalls : (lateWritten.table flushOfA).2
      = [{ tag := ascii "a", points := [⟨1, .double 0⟩] }] := by
    rw [lateWritten, freshSession_eq]
    rfl
  have hflush : SafeOp plainEnv lateWritten (.engine flushOfA) := by
    rw [SafeOp, hcalls]
    exact ⟨cleanCall_onePoint hstorable hnew, trivial⟩
  have hfiles : (lateWritten.after plainEnv flushOfA).engine.disk.dirs (ascii "a")
      = twoFiles (sstName someDay 1) (onePoint 1) (sstName someDay 2) (onePoint 2) := by
    show (runCalls plainEnv lateWritten.engine.disk (lateWritten.table flushOfA).2).dirs
      (ascii "a") = _
    rw [hcalls, dirs_flush_onePoint (cleanCall_onePoint hstorable hnew), hdirs]
    rfl
  have hsafe : SafeCall (twoFiles (sstName someDay 1) (onePoint 1) (sstName someDay 2) (onePoint 2))
      (twoFilesCall (sstName someDay 1) (onePoint 1) (sstName someDay 2) (onePoint 2)) :=
    safeCall_onePointEach hne (isSst_sstName _ _) (isSst_sstName _ _) (by decide)
  refine .snoc (hrun.snoc ⟨.engine (engineStep_flush _ ?_), hflush⟩) ⟨.compact ?_, ?_⟩
  · exact .of_eq hkeys.symm
  · show CompactStep ((lateWritten.after plainEnv flushOfA).engine.disk.dirs (ascii "a")) _ _
    rw [hfiles]
    exact ⟨twoFiles_isListing hne, List.getLast_mem _⟩
  · show SafeCall ((lateWritten.after plainEnv flushOfA).engine.disk.dirs (ascii "a")) _
    rw [hfiles]
    exact hsafe

end Storage
end MiniTSDB
