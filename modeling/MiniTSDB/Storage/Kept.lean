import MiniTSDB.Storage.Engine

/-!
# Written points are buffered or stored

The invariant behind both what a read finds and what a crash leaves. What it means for a file to
hold a point is a parameter, a `Finding`, with the lists of points that a file holds whole. A
flush is clean if its file opens, its points are such a list, and every point to be kept that the
file of that name held is held by the new one or by another.

`kept_run` is the result: in a run of clean operations, every acknowledged point is in its tag's
buffer or in a file of its tag's directory.
-/

namespace MiniTSDB
namespace Storage

open Lib Os

variable {Loc : Type} [DecidableEq Loc]

/-- A notion of a file holding a point, and of the lists that one block holds whole. -/
structure Finding where
  finds : Bytes → DataPoint → Prop
  storable : List DataPoint → Prop
  finds_of_mem : ∀ points, storable points → ∀ p ∈ points, finds (tableBytes [points]) p

/-- The SSTable of this name in the directory holds the point. -/
def Finding.InFile (F : Finding) (d : Dir) (name : Bytes) (p : DataPoint) : Prop :=
  ∃ data, isSst name = true ∧ d.readFile name = some data ∧ F.finds data p

/-- Some SSTable in the directory of the tag holds the point. -/
def Stored (F : Finding) (env : Env Loc) (disk : Disk Loc) (tag : Bytes) (p : DataPoint) : Prop :=
  ∃ name, F.InFile (disk.tagDir env tag) name p

/-- The flush of a call loses none of the points to be kept, and stores its own. -/
structure CleanCall (F : Finding) (env : Env Loc) (keep : Bytes → DataPoint → Prop)
    (disk : Disk Loc) (call : FlushCall) : Prop where
  /-- no directory has the name of the file -/
  opens : ∀ p ∈ call.points.head?, ∀ empty,
    (disk.tagDir env call.tag).lookup (sstName (env.date disk.flushes) p.ts) ≠ some (.dir empty)
  /-- the file holds the points -/
  storable : F.storable call.points
  /-- what the file held before, it holds again, or another one does -/
  replaces : ∀ p ∈ call.points.head?, ∀ tag q, keep tag q →
    env.resolve tag = env.resolve call.tag →
      F.InFile (disk.tagDir env call.tag) (sstName (env.date disk.flushes) p.ts) q →
        F.finds (tableBytes [call.points]) q ∨
          ∃ other ≠ sstName (env.date disk.flushes) p.ts,
            F.InFile (disk.tagDir env call.tag) other q

/-- Each of the calls is clean where it is made. -/
def CleanCalls (F : Finding) (env : Env Loc) (keep : Bytes → DataPoint → Prop) :
    Disk Loc → List FlushCall → Prop
  | _, [] => True
  | disk, call :: calls =>
    CleanCall F env keep disk call ∧ CleanCalls F env keep (flushCallback env disk call) calls

/-! ## Flushes -/

/-- After a flush, the directory of its tag has the new file, and what it had under other
names. -/
theorem tagDir_flushCallback {env : Env Loc} {disk : Disk Loc} {call : FlushCall} {tag : Bytes} :
    (flushCallback env disk call).tagDir env tag =
      if env.resolve tag = env.resolve call.tag then
        flushInto (disk.tagDir env call.tag) (env.date disk.flushes) call.points
      else disk.tagDir env tag := by
  simp only [Disk.tagDir, flushCallback, Function.update_apply]

/-- Flushes of tags with other directories leave a directory alone. -/
theorem tagDir_runCalls_of_apart {env : Env Loc} {disk : Disk Loc} {calls : List FlushCall}
    {tag : Bytes} (h : ∀ call ∈ calls, env.resolve tag ≠ env.resolve call.tag) :
    (runCalls env disk calls).tagDir env tag = disk.tagDir env tag := by
  induction calls generalizing disk with
  | nil => rfl
  | cons call calls ih =>
    rw [List.forall_mem_cons] at h
    change (runCalls env (flushCallback env disk call) calls).tagDir env tag = _
    rw [ih h.2, tagDir_flushCallback, if_neg h.1]

section Clean

variable {F : Finding} {env : Env Loc} {keep : Bytes → DataPoint → Prop} {disk : Disk Loc}

omit [DecidableEq Loc] in
theorem CleanCall.flushInto_eq {tag : Bytes} {p : DataPoint} {ps : List DataPoint}
    (h : CleanCall F env keep disk { tag := tag, points := p :: ps }) :
    flushInto (disk.tagDir env tag) (env.date disk.flushes) (p :: ps)
      = (disk.tagDir env tag).set (sstName (env.date disk.flushes) p.ts)
          (.file (tableBytes [p :: ps])) := by
  have hcreate := Dir.create_of_not_dir (h.opens p rfl) (tableBytes [p :: ps])
  simp only [flushInto, hcreate]

/-- A clean flush keeps stored what is to be kept. -/
theorem CleanCall.stored {call : FlushCall} (h : CleanCall F env keep disk call) {tag : Bytes}
    {q : DataPoint} (hkeep : keep tag q) (hstored : Stored F env disk tag q) :
    Stored F env (flushCallback env disk call) tag q := by
  obtain ⟨name, hin⟩ := hstored
  by_cases hdir : env.resolve tag = env.resolve call.tag
  · have hsame : disk.tagDir env tag = disk.tagDir env call.tag := by
      rw [Disk.tagDir, Disk.tagDir, hdir]
    rw [hsame] at hin
    obtain ⟨ctag, points⟩ := call
    cases points with
    | nil => exact ⟨name, by rw [tagDir_flushCallback, if_pos hdir]; exact hin⟩
    | cons p ps =>
      rw [Stored, tagDir_flushCallback, if_pos hdir, h.flushInto_eq]
      -- files of other names are as they were
      have hother : ∀ other ≠ sstName (env.date disk.flushes) p.ts,
          F.InFile (disk.tagDir env ctag) other q →
            ∃ name, F.InFile ((disk.tagDir env ctag).set (sstName (env.date disk.flushes) p.ts)
              (.file (tableBytes [p :: ps]))) name q := by
        rintro other hne ⟨data, hsst, hread, hfind⟩
        exact ⟨other, data, hsst, by rw [Dir.readFile_set_ne hne, hread], hfind⟩
      by_cases hname : name = sstName (env.date disk.flushes) p.ts
      · -- the file is replaced
        subst hname
        rcases h.replaces p rfl tag q hkeep hdir hin with hfind | ⟨other, hne, hin⟩
        · exact ⟨_, _, isSst_sstName _ _, Dir.readFile_set_file, hfind⟩
        · exact hother other hne hin
      · exact hother name hname hin
  · exact ⟨name, by rw [tagDir_flushCallback, if_neg hdir]; exact hin⟩

theorem CleanCall.stores {call : FlushCall} (h : CleanCall F env keep disk call) {p : DataPoint}
    (hp : p ∈ call.points) : Stored F env (flushCallback env disk call) call.tag p := by
  obtain ⟨tag, points⟩ := call
  cases points with
  | nil => simp at hp
  | cons q qs =>
    refine ⟨sstName (env.date disk.flushes) q.ts, tableBytes [q :: qs], isSst_sstName _ _, ?_,
      F.finds_of_mem _ h.storable p hp⟩
    rw [tagDir_flushCallback, if_pos rfl, h.flushInto_eq, Dir.readFile_set_file]

theorem CleanCalls.stored {calls : List FlushCall} (h : CleanCalls F env keep disk calls)
    {tag : Bytes} {q : DataPoint} (hkeep : keep tag q) (hstored : Stored F env disk tag q) :
    Stored F env (runCalls env disk calls) tag q := by
  induction calls generalizing disk with
  | nil => exact hstored
  | cons call calls ih => exact ih h.2 (h.1.stored hkeep hstored)

theorem CleanCalls.stores {calls : List FlushCall} (h : CleanCalls F env keep disk calls)
    {call : FlushCall} (hcall : call ∈ calls) {p : DataPoint} (hp : p ∈ call.points)
    (hkeep : keep call.tag p) : Stored F env (runCalls env disk calls) call.tag p := by
  induction calls generalizing disk with
  | nil => simp at hcall
  | cons c calls ih =>
    rcases List.mem_cons.mp hcall with rfl | hcall
    · exact CleanCalls.stored h.2 hkeep (h.1.stores hp)
    · exact ih h.2 hcall

theorem CleanCalls.kept_of_accounted {s : MemTable × List FlushCall}
    (h : CleanCalls F env keep disk s.2) {tag : Bytes} {p : DataPoint} (hkeep : keep tag p)
    (hacc : Accounted s tag p) :
    s.1.Buffered tag p ∨ Stored F env (runCalls env disk s.2) tag p := by
  rcases hacc with hbuf | ⟨call, hcall, rfl, hp⟩
  · exact .inl hbuf
  · exact .inr (h.stores hcall hp hkeep)

end Clean

/-! ## Operations and runs -/

/-- Every acknowledged point is buffered or stored. -/
def Kept (F : Finding) (env : Env Loc) (s : Session Loc) : Prop :=
  ∀ tag p, (tag, p) ∈ s.acked → s.engine.memTable.Buffered tag p ∨
    Stored F env s.engine.disk tag p

/-- The flushes of an operation are clean, for the points acknowledged by then. -/
def CleanOp (F : Finding) (env : Env Loc) (s : Session Loc) (op : EngineOp) : Prop :=
  CleanCalls F env (fun tag p => (tag, p) ∈ s.ackedBy op) s.engine.disk (s.table op).2

theorem cleanOp_of_no_calls {F : Finding} {env : Env Loc} {s : Session Loc} {op : EngineOp}
    (h : (s.table op).2 = []) : CleanOp F env s op := by
  rw [CleanOp, h]
  trivial

omit [DecidableEq Loc] in
theorem accounted_table {s : Session Loc} {op : EngineOp} {tag : Bytes} {p : DataPoint}
    (hp : (tag, p) ∈ s.ackedBy op)
    (h : (tag, p) ∈ s.acked → s.engine.memTable.Buffered tag p) :
    Accounted (s.table op) tag p := by
  cases op with
  | write pad wtag ts bits =>
    refine accounted_add ?_
    rcases List.mem_append.mp hp with hp | hp
    · exact .inl (h hp)
    · obtain ⟨rfl, rfl⟩ := Prod.mk.inj (List.mem_singleton.mp hp)
      exact .inr ⟨rfl, rfl⟩
  | flush order => exact accounted_flushAll (h hp)

/-- **A clean operation keeps every acknowledged point buffered or stored.** -/
theorem kept_step {F : Finding} {env : Env Loc} {s s' : Session Loc} {op : EngineOp}
    (hkept : Kept F env s) (hstep : EngineStep env s op s') (hclean : CleanOp F env s op) :
    Kept F env s' := by
  obtain ⟨htable, hdisk, hacked⟩ := hstep.spec
  intro tag p hp
  rw [htable, hdisk]
  rw [hacked] at hp
  by_cases hbefore : (tag, p) ∈ s.acked ∧ ¬ s.engine.memTable.Buffered tag p
  · exact .inr (hclean.stored hp ((hkept tag p hbefore.1).resolve_left hbefore.2))
  · exact hclean.kept_of_accounted hp (accounted_table hp fun h => by
      by_contra hnot
      exact hbefore ⟨h, hnot⟩)

/-- **In a run of clean operations, every acknowledged point is buffered or stored.** -/
theorem kept_run {F : Finding} {env : Env Loc} {config : StorageConfig} {disk : Disk Loc}
    {named : Option Bytes} {ops : List EngineOp} {s : Session Loc}
    (h : Run (Guarded (EngineStep env) (CleanOp F env)) (.start env config disk named) ops s) :
    Kept F env s :=
  h.invariant (fun _ s => Kept F env s) (by simp [Kept, Session.start])
    fun _ _ _ _ hkept ha => kept_step hkept ha.1 ha.2

end Storage
end MiniTSDB
