import MiniTSDB.Storage.Kept

/-!
# What `ReadRaw` finds of the points written

`ReadRaw` looks at the cache of latest values and at the SSTables of the tag, and nowhere else: a
point in the write buffer is found only if it is the latest one (`mem_readRaw_iff`). In a run of
clean operations every point is buffered or stored, so what a read misses is exactly what waits
in the buffer and is neither the latest nor stored as well: `readsOwnWrites_iff`.
-/

namespace MiniTSDB
namespace Storage

open Lib Os

variable {Loc : Type} [DecidableEq Loc] {env : Env Loc}

/-! ## The cache of latest values -/

/-- The cache holds, for each tag, an acknowledged point with the greatest timestamp. -/
def LatestOf (cache : LatestCache) (acked : List (Bytes × DataPoint)) : Prop :=
  ∀ tag, match cache.lookup tag with
    | none => ∀ q, (tag, q) ∉ acked
    | some c => (tag, c) ∈ acked ∧ ∀ q, (tag, q) ∈ acked → q.ts ≤ c.ts

theorem lookup_update (cache : LatestCache) (tag : Bytes) (point : DataPoint) (other : Bytes) :
    (cache.update tag point).lookup other =
      if other = tag then
        match cache.lookup tag with
        | some old => if point.ts ≥ old.ts then some point else some old
        | none => some point
      else cache.lookup other := by
  unfold LatestCache.update
  by_cases hother : other = tag
  · subst hother
    rw [if_pos rfl]
    cases hold : cache.lookup other with
    | none => exact AList.lookup_insert _
    | some old =>
      dsimp only
      split
      · exact AList.lookup_insert _
      · exact hold
  · rw [if_neg hother]
    split
    · split
      · exact AList.lookup_insert_ne hother
      · rfl
    · exact AList.lookup_insert_ne hother

/-- The last point of a timestamp. -/
def lastAt (points : List DataPoint) (t : Timestamp) : Option DataPoint :=
  points.reverse.find? fun p => p.ts = t

theorem lastAt_append (points : List DataPoint) (p : DataPoint) (t : Timestamp) :
    lastAt (points ++ [p]) t = if p.ts = t then some p else lastAt points t := by
  rw [lastAt, List.reverse_append, List.reverse_singleton, List.singleton_append, List.find?_cons]
  by_cases h : p.ts = t
  · rw [if_pos h, decide_eq_true h]
  · rw [if_neg h, decide_eq_false h, lastAt]

theorem mem_of_lastAt {points : List DataPoint} {t : Timestamp} {p : DataPoint}
    (h : lastAt points t = some p) : p ∈ points :=
  List.mem_reverse.mp (List.mem_of_find?_eq_some h)

/-- The latest point that was written, and of its timestamp the last. -/
def IsLatestOf (points : List DataPoint) : Option DataPoint → Prop
  | none => points = []
  | some c => lastAt points c.ts = some c ∧ ∀ q ∈ points, q.ts ≤ c.ts

theorem isLatestOf_unique {points : List DataPoint} {a b : Option DataPoint}
    (ha : IsLatestOf points a) (hb : IsLatestOf points b) : a = b := by
  have hne : ∀ c, ¬ (IsLatestOf points none ∧ IsLatestOf points (some c)) := by
    intro c ⟨hnil, hlast, _⟩
    have hmem := mem_of_lastAt hlast
    rw [show points = [] from hnil] at hmem
    cases hmem
  cases a with
  | none =>
    cases b with
    | none => rfl
    | some d => exact absurd ⟨ha, hb⟩ (hne d)
  | some c =>
    cases b with
    | none => exact absurd ⟨hb, ha⟩ (hne c)
    | some d =>
      have hts : c.ts = d.ts :=
        Int64.le_antisymm (hb.2 c (mem_of_lastAt ha.1)) (ha.2 d (mem_of_lastAt hb.1))
      rw [← ha.1, ← hb.1, hts]

theorem isLatestOf_update (points : List DataPoint) (p : DataPoint) (old : Option DataPoint) :
    IsLatestOf points old → IsLatestOf (points ++ [p])
      (match old with
        | some c => if p.ts ≥ c.ts then some p else some c
        | none => some p) := by
  intro h
  have hhere : lastAt (points ++ [p]) p.ts = some p := by rw [lastAt_append, if_pos rfl]
  cases old with
  | none =>
    refine ⟨hhere, fun q hq => ?_⟩
    rw [show points = [] from h, List.nil_append, List.mem_singleton] at hq
    rw [hq]
    exact Int64.le_refl _
  | some c =>
    obtain ⟨hlast, hmax⟩ := h
    dsimp only
    split
    case isTrue hle =>
      refine ⟨hhere, fun q hq => ?_⟩
      rcases List.mem_append.mp hq with hq | hq
      · exact Int64.le_trans (hmax q hq) hle
      · rw [List.mem_singleton.mp hq]
        exact Int64.le_refl _
    case isFalse hlt =>
      have hle : p.ts ≤ c.ts := by grind
      refine ⟨?_, fun q hq => ?_⟩
      · rw [lastAt_append, if_neg (by grind), hlast]
      · rcases List.mem_append.mp hq with hq | hq
        · exact hmax q hq
        · rw [List.mem_singleton.mp hq]
          exact hle

/-- What a `Write` of a double leaves alone: all there is under another key, if that has another
directory. -/
theorem Engine.write_frame {e e' : Engine Loc} {pad : HeaderPad} {tag key : Bytes} {ts : Timestamp}
    {bits : UInt64} (h : e.write env pad tag { ts := ts, value := .double bits } = some e')
    (hne : key ≠ tag) (hapart : env.resolve key ≠ env.resolve tag) :
    e'.memTable.buffer key = e.memTable.buffer key ∧
      e'.disk.tagDir env key = e.disk.tagDir env key ∧
      e'.latest.lookup key = e.latest.lookup key := by
  obtain ⟨hbuffer, hcalls⟩ := add_frame e.memTable tag { ts := ts, value := .double bits }
  rw [Engine.write_double] at h
  cases h
  refine ⟨hbuffer key hne, ?_, ?_⟩
  · apply tagDir_runCalls_of_apart
    intro call hcall
    rw [hcalls call hcall]
    exact hapart
  · dsimp only
    rw [lookup_update, if_neg hne]

omit [DecidableEq Loc] in
/-- A read is told by the cache and the directory. -/
theorem Engine.readRaw_congr {e e' : Engine Loc} {key : Bytes}
    (hdir : e'.disk.tagDir env key = e.disk.tagDir env key)
    (hlatest : e'.latest.lookup key = e.latest.lookup key) (sort : KeySort tsKey)
    (range : TimeRange) (entries : List DirEntry) :
    e'.readRaw env sort key range entries = e.readRaw env sort key range entries := by
  unfold Engine.readRaw Engine.readCache
  rw [hdir, hlatest]

theorem LatestOf.update {cache : LatestCache} {acked : List (Bytes × DataPoint)}
    (h : LatestOf cache acked) (tag : Bytes) (point : DataPoint) :
    LatestOf (cache.update tag point) (acked ++ [(tag, point)]) := by
  intro other
  have hother := h other
  rw [lookup_update]
  by_cases heq : other = tag
  · subst heq
    rw [if_pos rfl]
    cases hold : cache.lookup other with
    | none =>
      rw [hold] at hother
      refine ⟨by simp, fun q hq => ?_⟩
      obtain rfl : q = point := by simpa [hother q] using hq
      exact Int64.le_refl _
    | some old =>
      rw [hold] at hother
      obtain ⟨hmem, hmax⟩ := hother
      by_cases hge : point.ts ≥ old.ts
      · simp only [if_pos hge]
        refine ⟨by simp, fun q hq => ?_⟩
        rcases List.mem_append.mp hq with hq | hq
        · exact Int64.le_trans (hmax q hq) hge
        · obtain rfl : q = point := by simpa using hq
          exact Int64.le_refl _
      · simp only [if_neg hge]
        refine ⟨List.mem_append_left _ hmem, fun q hq => ?_⟩
        rcases List.mem_append.mp hq with hq | hq
        · exact hmax q hq
        · obtain rfl : q = point := by simpa using hq
          exact Int64.le_of_lt (Int64.not_le.mp hge)
  · rw [if_neg heq]
    have hnew : ∀ q, (other, q) ∈ acked ++ [(tag, point)] ↔ (other, q) ∈ acked := by simp [heq]
    simpa only [hnew] using hother

theorem latestOf_step {s s' : Session Loc} {op : EngineOp}
    (h : LatestOf s.engine.latest s.acked) (hstep : EngineStep env s op s') :
    LatestOf s'.engine.latest s'.acked := by
  cases hstep with
  | write hwrite =>
    rw [Engine.write_double] at hwrite
    cases hwrite
    exact h.update _ _
  | flush => exact h

theorem latestOf_run {config : StorageConfig} {disk : Disk Loc} {named : Option Bytes}
    {ops : List EngineOp} {s : Session Loc}
    (h : Run (EngineStep env) (.start env config disk named) ops s) :
    LatestOf s.engine.latest s.acked :=
  h.invariant (fun _ s => LatestOf s.engine.latest s.acked)
    (fun _ => by simp [Session.start, Engine.init]) fun _ _ _ _ hinv ha => latestOf_step hinv ha

/-! ## One read -/

/-- The point is the latest of its tag, which `ReadRaw` looks up unless the tag is empty. -/
def IsLatest (s : Session Loc) (tag : Bytes) (p : DataPoint) : Prop :=
  tag ≠ [] ∧ ∀ q, (tag, q) ∈ s.acked → q.ts ≤ p.ts

/-- A query of this range finds the timestamp in some SSTable of the directory. -/
def FoundInTables (d : Dir) (range : TimeRange) (t : Timestamp) : Prop :=
  ∃ name data, isSst name = true ∧ d.readFile name = some data ∧
    ∃ q ∈ (queryFile data range).getD [], q.ts = t

/-- What is read from the directory is what its SSTables answer. -/
theorem mem_readTables {d : Dir} {entries : List DirEntry} (hlist : d.IsListing entries)
    {range : TimeRange} {p : DataPoint} :
    p ∈ readTables d entries range ↔ ∃ name data, isSst name = true ∧
      d.readFile name = some data ∧ p ∈ (queryFile data range).getD [] := by
  have hopen : ∀ name data, d.readFile name = some data →
      ((openTable d name).map (·.readRange range)).getD [] = (queryFile data range).getD [] := by
    intro name data hread
    rw [openTable, hread, Option.bind_some, queryFile]
  constructor
  · intro hp
    obtain ⟨entry, hentry, hp⟩ := List.mem_flatMap.mp hp
    obtain ⟨-, hsst⟩ := List.mem_filter.mp hentry
    cases hread : d.readFile entry.name with
    | none => simp [openTable, hread] at hp
    | some data => exact ⟨entry.name, data, hsst, hread, by rwa [← hopen _ _ hread]⟩
  · rintro ⟨name, data, hsst, hread, hp⟩
    have hlookup : ∃ node, d.lookup name = some node := by
      unfold Dir.readFile at hread
      split at hread
      case h_1 data' hnode => exact ⟨_, hnode⟩
      case h_2 => cases hread
    obtain ⟨node, hnode⟩ := hlookup
    have hname : (node.entry name).name = name := by cases node <;> rfl
    have hentry : node.entry name ∈ entries := by
      rw [hlist.mem_iff, hname]
      exact ⟨node, hnode, rfl⟩
    refine List.mem_flatMap.mpr ⟨_, List.mem_filter.mpr ⟨hentry, by rwa [hname]⟩, ?_⟩
    rwa [hname, hopen _ _ hread]

theorem mem_readTables_iff {d : Dir} {entries : List DirEntry} (hlist : d.IsListing entries)
    {range : TimeRange} {t : Timestamp} :
    (∃ q ∈ readTables d entries range, q.ts = t) ↔ FoundInTables d range t := by
  constructor
  · rintro ⟨q, hq, hts⟩
    obtain ⟨name, data, hsst, hread, hq⟩ := (mem_readTables hlist).mp hq
    exact ⟨name, data, hsst, hread, q, hq, hts⟩
  · rintro ⟨name, data, hsst, hread, q, hq, hts⟩
    exact ⟨q, (mem_readTables hlist).mpr ⟨name, data, hsst, hread, hq⟩, hts⟩

/-- The cache has the timestamp for a read of the tag. -/
def Cached (e : Engine Loc) (tag : Bytes) (range : TimeRange) (t : Timestamp) : Prop :=
  ∃ q ∈ e.readCache tag range, q.ts = t

omit [DecidableEq Loc] in
/-- The timestamps of a read are those of the cache and of the SSTables. -/
theorem mem_tsOf_readRaw {e : Engine Loc} {sort : KeySort tsKey} {tag : Bytes} {range : TimeRange}
    {entries : List DirEntry} (hlist : (e.disk.tagDir env tag).IsListing entries) {t : Timestamp} :
    t ∈ tsOf (e.readRaw env sort tag range entries) ↔
      Cached e tag range t ∨ FoundInTables (e.disk.tagDir env tag) range t := by
  have hmerge := sortedUnique_spec sort (e.readCache tag range
    ++ readTables (e.disk.tagDir env tag) entries range)
  have hinput : t ∈ tsOf (e.readRaw env sort tag range entries) ↔
      ∃ q ∈ e.readCache tag range ++ readTables (e.disk.tagDir env tag) entries range,
        q.ts = t := by
    rw [Engine.readRaw, tsOf, List.mem_map]
    constructor
    · rintro ⟨q, hq, hts⟩
      exact ⟨q, hmerge.subset q hq, hts⟩
    · rintro ⟨q, hq, hts⟩
      obtain ⟨r, hr, hkey⟩ := hmerge.covers q hq
      exact ⟨r, hr, (Int64.toInt_inj.mp hkey).trans hts⟩
  rw [hinput, ← mem_readTables_iff hlist, Cached]
  simp only [List.mem_append, or_and_right, exists_or]

omit [DecidableEq Loc] in
/-- **What a read finds**: of the acknowledged points in the range, the latest and those in the
SSTables. -/
theorem mem_readRaw_iff {s : Session Loc} (hlatest : LatestOf s.engine.latest s.acked)
    {sort : KeySort tsKey} {tag : Bytes} {range : TimeRange} {entries : List DirEntry}
    (hlist : (s.engine.disk.tagDir env tag).IsListing entries) {p : DataPoint}
    (hp : (tag, p) ∈ s.acked) (hin : range.contains p.ts = true) :
    p.ts ∈ tsOf (s.engine.readRaw env sort tag range entries) ↔
      IsLatest s tag p ∨ FoundInTables (s.engine.disk.tagDir env tag) range p.ts := by
  have hcache : Cached s.engine tag range p.ts ↔ IsLatest s tag p := by
    have htag := hlatest tag
    rw [Cached, Engine.readCache, IsLatest]
    by_cases hempty : tag = []
    · simp [hempty]
    · rw [if_neg hempty]
      cases hlookup : s.engine.latest.lookup tag with
      | none =>
        rw [hlookup] at htag
        exact absurd hp (htag p)
      | some c =>
        rw [hlookup] at htag
        obtain ⟨hc, hmax⟩ := htag
        constructor
        · rintro ⟨q, hq, hts⟩
          obtain rfl : q = c := by simpa using (List.mem_filter.mp hq).1
          exact ⟨hempty, fun r hr => hts ▸ hmax r hr⟩
        · rintro ⟨-, hge⟩
          have hts : c.ts = p.ts := Int64.le_antisymm (hge c hc) (hmax p hp)
          exact ⟨c, List.mem_filter.mpr ⟨by simp, by rwa [hts]⟩, hts⟩
  rw [mem_tsOf_readRaw hlist, hcache]

/-! ## Runs -/

/-- A file holds a point if every query whose range the point is in returns it. One block holds
its points if their delta-of-deltas fit, the format can represent it, and its first and last
timestamps are the least and the greatest. -/
def readFinding : Finding where
  finds data p := ∀ range : TimeRange, range.contains p.ts = true →
    p ∈ (queryFile data range).getD []
  storable points := FitsInt32 (tsOf points) ∧ StreamsFit points ∧ NoStringData points ∧
    ∀ p ∈ points, (blockRange points).contains p.ts = true
  finds_of_mem := by
    rintro points ⟨hfits, hstreams, hstr, hrange⟩ p hp range hin
    have hov : (blockRange points).overlaps range = true := by
      have hp := TimeRange.contains_iff.mp (hrange p hp)
      rw [TimeRange.contains_iff] at hin
      exact TimeRange.overlaps_iff.mpr ⟨by grind, by grind⟩
    rw [queryFile_tableBytes (by simp) (by simpa using hstreams) (by simpa using hstr),
      Option.getD_some, List.flatMap_singleton, queryBlock, if_pos hov, hfits.storedPoints_eq]
    exact List.mem_filter.mpr ⟨List.mem_append_left _ hp, hin⟩

/-- `ReadRaw` returns every timestamp written to the tag that lies in the range, in whatever
order the directory is listed and equal timestamps are sorted. -/
def ReadsOwnWrites (env : Env Loc) (s : Session Loc) (tag : Bytes) (range : TimeRange) : Prop :=
  ∀ (sort : KeySort tsKey) (entries : List DirEntry),
    (s.engine.disk.tagDir env tag).IsListing entries →
      ∀ p, (tag, p) ∈ s.acked → range.contains p.ts = true →
        p.ts ∈ tsOf (s.engine.readRaw env sort tag range entries)

/-- Of the points in the range, those still in the write buffer are the latest or stored too. -/
def BufferedElsewhere (env : Env Loc) (s : Session Loc) (tag : Bytes) (range : TimeRange) : Prop :=
  ∀ p, (tag, p) ∈ s.acked → range.contains p.ts = true → s.engine.memTable.Buffered tag p →
    IsLatest s tag p ∨ FoundInTables (s.engine.disk.tagDir env tag) range p.ts

/-- **Exactly what a read needs**: in a run of clean operations, a read returns every timestamp
written to the tag in the range, if and only if every such point that is still buffered is the
latest one or stored too. -/
theorem readsOwnWrites_iff {config : StorageConfig} {disk : Disk Loc} {named : Option Bytes}
    {ops : List EngineOp} {s : Session Loc}
    (h : Run (Guarded (EngineStep env) (CleanOp readFinding env))
      (.start env config disk named) ops s) (tag : Bytes) (range : TimeRange) :
    ReadsOwnWrites env s tag range ↔ BufferedElsewhere env s tag range := by
  have hlatest : LatestOf s.engine.latest s.acked := latestOf_run h.of_guarded
  constructor
  · intro hreads p hp hin _
    have hlist : (s.engine.disk.tagDir env tag).IsListing _ := List.Perm.refl _
    exact (mem_readRaw_iff hlatest hlist hp hin).mp (hreads (.stable tsKey) _ hlist p hp hin)
  · intro helse sort entries hlist p hp hin
    refine (mem_readRaw_iff hlatest hlist hp hin).mpr ?_
    rcases kept_run h tag p hp with hbuf | ⟨name, data, hsst, hread, hfind⟩
    · exact helse p hp hin hbuf
    · exact .inr ⟨name, data, hsst, hread, p, hfind range hin, rfl⟩

/-! ## A point that is found, and one that is not -/

def twoWritten : Session Bytes :=
  (freshSession.after plainEnv (writeA 1)).after plainEnv (writeA 2)

theorem run_twoWritten :
    Run (Guarded (EngineStep plainEnv) (CleanOp readFinding plainEnv)) freshSession
      [writeA 1, writeA 2] twoWritten := by
  have hfirst : (freshSession.table (writeA 1)).2 = [] := by
    rw [freshSession_eq]
    rfl
  have hsecond : ((freshSession.after plainEnv (writeA 1)).table (writeA 2)).2 = [] := by
    rw [freshSession_eq]
    rfl
  show Run _ _ ([] ++ [writeA 1] ++ [writeA 2]) _
  exact .snoc (.snoc .start ⟨engineStep_write .., cleanOp_of_no_calls hfirst⟩)
    ⟨engineStep_write .., cleanOp_of_no_calls hsecond⟩

theorem disk_twoWritten : twoWritten.engine.disk = { dirs := fun _ => .empty } := by
  rw [twoWritten, freshSession_eq]
  rfl

/-- Once the two points are flushed, both are found. -/
theorem readsOwnWrites_iff_flushed :
    ReadsOwnWrites plainEnv (twoWritten.after plainEnv (.flush [ascii "a"])) (ascii "a")
      ⟨1, 2⟩ := by
  have hcalls : (twoWritten.table (.flush [ascii "a"])).2
      = [{ tag := ascii "a", points := [⟨1, .double 0⟩, ⟨2, .double 0⟩] }] := by
    rw [twoWritten, freshSession_eq]
    rfl
  have hkeys : twoWritten.engine.memTable.buffers.keys = [ascii "a"] := by
    rw [twoWritten, freshSession_eq]
    rfl
  have hempty : ((twoWritten.after plainEnv (.flush [ascii "a"])).engine.memTable.buffer
      (ascii "a")).points = [] := by
    rw [twoWritten, freshSession_eq]
    rfl
  have hflush : CleanOp readFinding plainEnv twoWritten (.flush [ascii "a"]) := by
    rw [CleanOp, hcalls, disk_twoWritten]
    refine ⟨⟨?_, ?_, ?_⟩, trivial⟩
    · simp [Disk.tagDir]
    · exact ⟨by decide, streamsFit_of_length (by decide), by decide, by decide⟩
    · simp [Disk.tagDir, Finding.InFile, Dir.readFile]
  have hrun : Run (Guarded (EngineStep plainEnv) (CleanOp readFinding plainEnv)) freshSession
      ([writeA 1, writeA 2] ++ [.flush [ascii "a"]])
      (twoWritten.after plainEnv (.flush [ascii "a"])) :=
    run_twoWritten.snoc ⟨engineStep_flush _ (by rw [hkeys]), hflush⟩
  refine (readsOwnWrites_iff hrun _ _).mpr ?_
  intro p _ _ hbuf
  rw [MemTable.Buffered, hempty] at hbuf
  simp at hbuf

/-- **A written point is not found**: after the points at 1 and 2, asked for `[1, 1]`. -/
theorem readRaw_misses_buffered :
    Run (Guarded (EngineStep plainEnv) (CleanOp readFinding plainEnv)) freshSession
        [writeA 1, writeA 2] twoWritten ∧
      (ascii "a", ⟨1, .double 0⟩) ∈ twoWritten.acked ∧
      ¬ ReadsOwnWrites plainEnv twoWritten (ascii "a") ⟨1, 1⟩ := by
  have hacked : twoWritten.acked
      = [(ascii "a", ⟨1, .double 0⟩), (ascii "a", ⟨2, .double 0⟩)] := by
    rw [twoWritten, freshSession_eq]
    rfl
  have hp : (ascii "a", ⟨1, .double 0⟩) ∈ twoWritten.acked := by
    rw [hacked]
    decide
  refine ⟨run_twoWritten, hp, fun hreads => ?_⟩
  have hlist : (twoWritten.engine.disk.tagDir plainEnv (ascii "a")).IsListing [] := by
    rw [disk_twoWritten]
    exact List.Perm.refl _
  have hfound := hreads (.stable tsKey) [] hlist ⟨1, .double 0⟩ hp (by decide)
  rw [mem_readRaw_iff (latestOf_run run_twoWritten.of_guarded) hlist hp (by decide)] at hfound
  rcases hfound with ⟨-, hlatest⟩ | ⟨name, data, -, hread, -⟩
  · have hle := hlatest ⟨2, .double 0⟩ (by rw [hacked]; decide)
    revert hle
    decide
  · rw [disk_twoWritten] at hread
    simp [Disk.tagDir, Dir.readFile] at hread

end Storage
end MiniTSDB
