import MiniTSDB.Storage.CompactionSafety
import MiniTSDB.Storage.Kept
import MiniTSDB.Storage.ReadYourWrites
import Mathlib.Algebra.Order.BigOperators.Group.List

/-!
# Timestamps that are written more than once

The reader and the compaction sort what they have read by the timestamp, and keep the first point
of each. Which of several that is, is left to the sort. So a timestamp has its last value in every
answer just when no other value of it is read (`lastWriteWins_iff`).

What is read is told by the blocks that the points of a tag were flushed in: the runs here are those
in which every flush makes a file of its own, and `InBlocks` says what is in the directory then.
-/

namespace MiniTSDB
namespace Storage

open Lib Os

variable {Loc : Type} [DecidableEq Loc]

/-! ## The points of a tag, and their blocks -/

/-- The points written to a tag, in order. -/
def pointsTo (acked : List (Bytes × DataPoint)) (tag : Bytes) : List DataPoint :=
  (acked.filter fun e => e.1 = tag).map Prod.snd

/-- The calls of the flush callback in a run. -/
def callsOf (env : Env Loc) (s : Session Loc) (ops : List EngineOp) : List FlushCall :=
  (ops.foldl (fun acc op => (acc.1.after env op, acc.2 ++ (acc.1.table op).2)) (s, [])).2

/-- The blocks that the points of a tag are flushed in. -/
def blocksOf (env : Env Loc) (tag : Bytes) (s : Session Loc) (ops : List EngineOp) :
    List (List DataPoint) :=
  ((callsOf env s ops).filter fun call => call.tag = tag).map FlushCall.points

/-- A flush of the tag makes a file that is not there yet, of a block that the format can hold. Other
tags have other directories. -/
structure FreshCall (env : Env Loc) (tag : Bytes) (disk : Disk Loc) (call : FlushCall) : Prop where
  apart : env.resolve tag = env.resolve call.tag → call.tag = tag
  fresh : call.tag = tag → ∀ p ∈ call.points.head?,
    (disk.tagDir env tag).lookup (sstName (env.date disk.flushes) p.ts) = none
  streams : call.tag = tag → StreamsFit call.points

def FreshCalls (env : Env Loc) (tag : Bytes) : Disk Loc → List FlushCall → Prop
  | _, [] => True
  | disk, call :: calls =>
    FreshCall env tag disk call ∧ FreshCalls env tag (flushCallback env disk call) calls

/-- The flushes of an operation go to files of their own. -/
def FreshOp (env : Env Loc) (tag : Bytes) (s : Session Loc) (op : EngineOp) : Prop :=
  FreshCalls env tag s.engine.disk (s.table op).2

/-! ## What is read, and what should be -/

/-- A query of the range reads the point from the block: a block that meets the range is read whole,
with the padding behind it. -/
def Shown (range : TimeRange) (block : List DataPoint) (p : DataPoint) : Prop :=
  (blockRange block).overlaps range = true ∧ p ∈ storedPoints block ++ paddingPoints block

/-- Nothing else is read at the time of the point. -/
def OnlyShown (range : TimeRange) (blocks : List (List DataPoint)) (p : DataPoint) : Prop :=
  ∀ block ∈ blocks, ∀ q, Shown range block q → q.ts = p.ts → q = p

/-- Of the last point of each timestamp in the range: no other value of that timestamp is read, in
the range and by a compaction, and the point itself is. -/
def LastStands (tag : Bytes) (points : List DataPoint) (blocks : List (List DataPoint))
    (range : TimeRange) : Prop :=
  ∀ p, lastAt points p.ts = some p → range.contains p.ts = true →
    ((tag ≠ [] ∧ ∀ q ∈ points, q.ts ≤ p.ts) ∨ ∃ block ∈ blocks, Shown range block p) ∧
    OnlyShown range blocks p ∧
    (2 ≤ blocks.length → 0 ≤ p.ts ∧ (∃ block ∈ blocks, Shown compactionRange block p) ∧
      OnlyShown compactionRange blocks p)

/-- The last point of each timestamp in the range is what `ReadRaw` returns at it, and what a
`CompactTag` of all the files merges, for any listing of the directory and any sort. Both have each
timestamp once. -/
structure LastWriteWins (env : Env Loc) (s : Session Loc) (tag : Bytes) (range : TimeRange) :
    Prop where
  reads : ∀ p, lastAt (pointsTo s.acked tag) p.ts = some p → range.contains p.ts = true →
    ∀ entries, (s.engine.disk.tagDir env tag).IsListing entries →
      ∀ sort : KeySort tsKey, p ∈ s.engine.readRaw env sort tag range entries
  merges : ∀ p, lastAt (pointsTo s.acked tag) p.ts = some p → range.contains p.ts = true →
    ∀ entries, (s.engine.disk.tagDir env tag).IsListing entries → 2 ≤ entries.length →
      ∀ thresholdBytes, (∀ entry ∈ entries, entry.fileSize < thresholdBytes) →
        ∀ sort : KeySort tsKey,
          p ∈ mergedPoints sort (s.engine.disk.tagDir env tag) entries thresholdBytes

/-! ## The points of one more write -/

theorem pointsTo_append (acked : List (Bytes × DataPoint)) (tag other : Bytes) (p : DataPoint) :
    pointsTo (acked ++ [(tag, p)]) other
      = pointsTo acked other ++ if other = tag then [p] else [] := by
  rw [pointsTo, List.filter_append, List.map_append, ← pointsTo]
  by_cases h : other = tag
  · rw [if_pos h, List.filter_cons_of_pos (by simpa using h.symm)]
    rfl
  · rw [if_neg h, List.filter_cons_of_neg (by simpa using Ne.symm h)]
    rfl

/-! ## The directory -/

/-- The SSTables of the directory, one for each block. -/
structure HoldsBlocks (d : Dir) (blocks : List (List DataPoint))
    (files : List (Bytes × List DataPoint)) : Prop where
  blocks_eq : files.map Prod.snd = blocks
  distinct : (files.map Prod.fst).Nodup
  isSst : ∀ f ∈ files, isSst f.1 = true
  lookup_iff : ∀ name node, d.lookup name = some node ↔
    ∃ block, (name, block) ∈ files ∧ node = .file (tableBytes [block])

theorem holdsBlocks_empty : HoldsBlocks .empty [] [] where
  blocks_eq := rfl
  distinct := List.nodup_nil
  isSst _ h := (nomatch h)
  lookup_iff name node := by
    rw [Dir.lookup_empty]
    exact ⟨fun h => (nomatch h), fun ⟨_, h, _⟩ => (nomatch h)⟩

namespace HoldsBlocks

variable {d : Dir} {blocks : List (List DataPoint)} {files : List (Bytes × List DataPoint)}

/-- **A file more.** -/
theorem set (h : HoldsBlocks d blocks files) {name : Bytes} {block : List DataPoint}
    (hsst : Storage.isSst name = true) (hfresh : d.lookup name = none) :
    HoldsBlocks (d.set name (.file (tableBytes [block]))) (blocks ++ [block])
      (files ++ [(name, block)]) where
  blocks_eq := by rw [List.map_append, h.blocks_eq]; rfl
  distinct := by
    rw [List.map_append, List.nodup_append]
    refine ⟨h.distinct, List.nodup_singleton _, ?_⟩
    intro a ha b hb heq
    obtain ⟨f, hf, rfl⟩ := List.mem_map.mp ha
    rw [List.mem_singleton.mp hb] at heq
    have hthere := (h.lookup_iff f.1 _).mpr ⟨f.2, hf, rfl⟩
    rw [heq, hfresh] at hthere
    cases hthere
  isSst f hf := by
    rcases List.mem_append.mp hf with hf | hf
    · exact h.isSst f hf
    · rw [List.mem_singleton.mp hf]
      exact hsst
  lookup_iff other node := by
    by_cases hother : other = name
    · rw [hother, Dir.lookup_set]
      constructor
      · intro hnode
        cases hnode
        exact ⟨block, List.mem_append_right _ List.mem_cons_self, rfl⟩
      · rintro ⟨b, hb, rfl⟩
        rcases List.mem_append.mp hb with hb | hb
        · have hthere := (h.lookup_iff name _).mpr ⟨b, hb, rfl⟩
          rw [hfresh] at hthere
          cases hthere
        · cases List.mem_singleton.mp hb
          rfl
    · rw [Dir.lookup_set_ne hother, h.lookup_iff]
      refine exists_congr fun b => and_congr_left fun _ => ?_
      rw [List.mem_append, List.mem_singleton]
      exact ⟨.inl, fun hb => hb.resolve_right fun heq => hother (congrArg Prod.fst heq)⟩

theorem readFile_iff (h : HoldsBlocks d blocks files) {name data : Bytes} :
    d.readFile name = some data ↔ ∃ block, (name, block) ∈ files ∧ data = tableBytes [block] := by
  have hread : d.readFile name = some data ↔ d.lookup name = some (.file data) := by
    unfold Dir.readFile
    split
    case h_1 data' hnode =>
      rw [hnode]
      simp
    case h_2 hno => exact ⟨fun h => (nomatch h), fun h => absurd h (hno data)⟩
  rw [hread, h.lookup_iff]
  refine exists_congr fun b => and_congr_right fun _ => ?_
  exact ⟨fun heq => by injection heq, fun heq => by rw [heq]⟩

theorem mem_blocks (h : HoldsBlocks d blocks files) {block : List DataPoint} :
    block ∈ blocks ↔ ∃ name, (name, block) ∈ files := by
  rw [← h.blocks_eq, List.mem_map]
  exact ⟨fun ⟨f, hf, heq⟩ => ⟨f.1, heq ▸ hf⟩, fun ⟨name, hf⟩ => ⟨_, hf, rfl⟩⟩

end HoldsBlocks

/-- A file of one block answers with what is shown of it. -/
theorem mem_queryFile {block : List DataPoint} {range : TimeRange} {p : DataPoint}
    (hstreams : StreamsFit block) (hdoubles : AllDoubles block) :
    p ∈ (queryFile (tableBytes [block]) range).getD [] ↔
      Shown range block p ∧ range.contains p.ts = true := by
  rw [queryFile_tableBytes (by simp) (by simpa using hstreams) (by simpa using hdoubles.noStringData),
    Option.getD_some, List.flatMap_singleton, queryBlock, Shown]
  split
  case isTrue hov =>
    rw [List.mem_filter]
    exact ⟨fun h => ⟨⟨hov, h.1⟩, h.2⟩, fun h => ⟨h.1.2, h.2⟩⟩
  case isFalse hov => exact ⟨fun h => (nomatch h), fun h => absurd h.1.1 hov⟩

section Read

variable {d : Dir} {blocks : List (List DataPoint)} {files : List (Bytes × List DataPoint)}
  {entries : List DirEntry} {range : TimeRange} {p : DataPoint}

/-- **What a read takes from the files.** -/
theorem HoldsBlocks.mem_readTables (h : HoldsBlocks d blocks files)
    (hstreams : ∀ block ∈ blocks, StreamsFit block) (hdoubles : ∀ block ∈ blocks, AllDoubles block)
    (hlist : d.IsListing entries) (hin : range.contains p.ts = true) :
    p ∈ readTables d entries range ↔ ∃ block ∈ blocks, Shown range block p := by
  rw [Storage.mem_readTables hlist]
  constructor
  · rintro ⟨name, data, hsst, hread, hp⟩
    obtain ⟨block, hfile, rfl⟩ := h.readFile_iff.mp hread
    have hblock := h.mem_blocks.mpr ⟨name, hfile⟩
    exact ⟨block, hblock, ((mem_queryFile (hstreams block hblock) (hdoubles block hblock)).mp hp).1⟩
  · rintro ⟨block, hblock, hshown⟩
    obtain ⟨name, hfile⟩ := h.mem_blocks.mp hblock
    exact ⟨name, _, h.isSst _ hfile, h.readFile_iff.mpr ⟨block, hfile, rfl⟩,
      (mem_queryFile (hstreams block hblock) (hdoubles block hblock)).mpr ⟨hshown, hin⟩⟩

/-- The files are listed, and nothing else is. -/
theorem HoldsBlocks.names_perm (h : HoldsBlocks d blocks files) (hlist : d.IsListing entries) :
    (entries.map DirEntry.name).Perm (files.map Prod.fst) := by
  have hname : ∀ e : (_ : Bytes) × Node, (e.2.entry e.1).name = e.1 := by
    intro e
    cases e.2 <;> rfl
  have hkeys : (entries.map DirEntry.name).Perm d.nodes.keys := by
    have hperm := hlist.map DirEntry.name
    rw [List.map_map] at hperm
    exact hperm.trans (List.Perm.of_eq (List.map_congr_left fun e _ => hname e))
  refine hkeys.trans ((List.perm_ext_iff_of_nodup d.nodes.nodupKeys h.distinct).mpr ?_)
  intro name
  have hthere : name ∈ d.nodes.keys ↔ ∃ node, d.lookup name = some node := by
    rw [← AList.mem_keys, ← AList.lookup_isSome, Option.isSome_iff_exists]
    rfl
  change name ∈ d.nodes.keys ↔ _
  rw [hthere, List.mem_map]
  constructor
  · rintro ⟨node, hnode⟩
    obtain ⟨block, hfile, -⟩ := (h.lookup_iff _ _).mp hnode
    exact ⟨_, hfile, rfl⟩
  · rintro ⟨f, hf, rfl⟩
    exact ⟨_, (h.lookup_iff _ _).mpr ⟨f.2, hf, rfl⟩⟩

theorem HoldsBlocks.length_entries (h : HoldsBlocks d blocks files) (hlist : d.IsListing entries) :
    entries.length = blocks.length := by
  have hlen := (h.names_perm hlist).length_eq
  rw [List.length_map, List.length_map] at hlen
  rw [hlen, ← h.blocks_eq, List.length_map]

/-- The small files are all the files. -/
theorem HoldsBlocks.smallFiles_perm (h : HoldsBlocks d blocks files) (hlist : d.IsListing entries)
    {threshold : Nat} (hsmall : ∀ entry ∈ entries, entry.fileSize < threshold) :
    (smallFiles entries threshold).Perm (files.map Prod.fst) := by
  rw [smallFiles, List.filter_eq_self.mpr]
  · exact h.names_perm hlist
  · intro entry hentry
    obtain ⟨node, hnode, -⟩ := hlist.mem_iff.mp hentry
    obtain ⟨block, hfile, -⟩ := (h.lookup_iff _ _).mp hnode
    rw [h.isSst _ hfile, decide_eq_true (hsmall entry hentry)]
    rfl

/-- **What a compaction of all the files reads.** -/
theorem HoldsBlocks.mem_compactionInput (h : HoldsBlocks d blocks files)
    (hstreams : ∀ block ∈ blocks, StreamsFit block) (hdoubles : ∀ block ∈ blocks, AllDoubles block)
    (hlist : d.IsListing entries) {threshold : Nat}
    (hsmall : ∀ entry ∈ entries, entry.fileSize < threshold) (htwo : 2 ≤ blocks.length) :
    p ∈ (compactionInput d entries threshold).2 ↔
      0 ≤ p.ts ∧ ∃ block ∈ blocks, Shown compactionRange block p := by
  have hperm := h.smallFiles_perm hlist hsmall
  have hlen : blocks.length = files.length := by rw [← h.blocks_eq, List.length_map]
  have hopens : ∀ f ∈ files, (openTable d f.1).isSome = true ∧
      compactionQuery d f.1 = (queryFile (tableBytes [f.2]) compactionRange).getD [] := by
    intro f hf
    have hread := h.readFile_iff.mpr ⟨f.2, hf, rfl⟩
    obtain ⟨r, hopen, -⟩ := open_sstableBytes ([f.2].map compress)
    rw [compactionQuery, openTable, hread, Option.bind_some, queryFile]
    refine ⟨?_, rfl⟩
    rw [tableBytes, hopen]
    rfl
  have hfiles : ∀ name, name ∈ readFiles d entries threshold ↔ name ∈ files.map Prod.fst := by
    intro name
    rw [readFiles_eq, if_neg (by rw [hperm.length_eq, List.length_map]; omega), List.mem_filter,
      hperm.mem_iff]
    refine ⟨fun hname => hname.1, fun hname => ⟨hname, ?_⟩⟩
    obtain ⟨f, hf, rfl⟩ := List.mem_map.mp hname
    exact (hopens f hf).1
  rw [compactionInput_snd, List.mem_flatMap]
  constructor
  · rintro ⟨name, hname, hp⟩
    obtain ⟨f, hf, rfl⟩ := List.mem_map.mp ((hfiles name).mp hname)
    have hblock := h.mem_blocks.mpr ⟨f.1, hf⟩
    rw [(hopens f hf).2, mem_queryFile (hstreams _ hblock) (hdoubles _ hblock)] at hp
    exact ⟨compactionRange_contains.mp hp.2, f.2, hblock, hp.1⟩
  · rintro ⟨hpos, block, hblock, hshown⟩
    obtain ⟨name, hfile⟩ := h.mem_blocks.mp hblock
    refine ⟨name, (hfiles name).mpr (List.mem_map_of_mem hfile), ?_⟩
    rw [(hopens _ hfile).2, mem_queryFile (hstreams _ hblock) (hdoubles _ hblock)]
    exact ⟨hshown, compactionRange_contains.mpr hpos⟩

end Read

/-! ## Runs -/

/-- Where the points of the tag are, once they have been written. -/
structure InBlocks (env : Env Loc) (tag : Bytes) (blocks : List (List DataPoint))
    (s : Session Loc) : Prop where
  /-- in the blocks, and the last of them in the buffer -/
  points : pointsTo s.acked tag = blocks.flatten ++ (s.engine.memTable.buffer tag).points
  latest : IsLatestOf (pointsTo s.acked tag) (s.engine.latest.lookup tag)
  doubles : ∀ p ∈ pointsTo s.acked tag, p.value.isDouble = true
  streams : ∀ block ∈ blocks, StreamsFit block
  files : ∃ files, HoldsBlocks (s.engine.disk.tagDir env tag) blocks files

section Step

variable {env : Env Loc} {tag : Bytes}

/-- A fresh call adds a file, if it is one of the tag. -/
theorem FreshCall.files {disk : Disk Loc} {call : FlushCall} (h : FreshCall env tag disk call)
    (hne : call.points ≠ []) {blocks : List (List DataPoint)}
    (hfiles : ∃ files, HoldsBlocks (disk.tagDir env tag) blocks files) :
    ∃ files, HoldsBlocks ((flushCallback env disk call).tagDir env tag)
      (blocks ++ ([call].filter fun call => call.tag = tag).map FlushCall.points) files := by
  rw [tagDir_flushCallback]
  obtain ⟨ctag, points⟩ := call
  by_cases htag : ctag = tag
  · subst htag
    obtain ⟨files, hfiles⟩ := hfiles
    cases points with
    | nil => exact absurd rfl hne
    | cons p ps =>
      have hnone := h.fresh rfl p rfl
      have hcreate : (disk.tagDir env ctag).create (sstName (env.date disk.flushes) p.ts)
          (tableBytes [p :: ps]) = some _ :=
        Dir.create_of_not_dir (fun empty => by rw [hnone]; simp) _
      rw [if_pos rfl, List.filter_cons_of_pos (by simp)]
      simp only [flushInto, hcreate]
      exact ⟨_, hfiles.set (isSst_sstName _ _) hnone⟩
  · rw [if_neg fun heq => htag (h.apart heq), List.filter_cons_of_neg (by simpa using htag)]
    simpa using hfiles

theorem FreshCalls.files {calls : List FlushCall} {disk : Disk Loc}
    (h : FreshCalls env tag disk calls) (hne : ∀ call ∈ calls, call.points ≠ [])
    {blocks : List (List DataPoint)}
    (hfiles : ∃ files, HoldsBlocks (disk.tagDir env tag) blocks files) :
    ∃ files, HoldsBlocks ((runCalls env disk calls).tagDir env tag)
      (blocks ++ (calls.filter fun call => call.tag = tag).map FlushCall.points) files := by
  induction calls generalizing disk blocks with
  | nil =>
    rw [List.filter_nil, List.map_nil, List.append_nil]
    exact hfiles
  | cons call calls ih =>
    rw [List.forall_mem_cons] at hne
    have hrest := ih h.2 hne.2 (h.1.files hne.1 hfiles)
    rw [List.append_assoc, ← List.map_append, ← List.filter_append] at hrest
    exact hrest

theorem FreshCalls.streams {calls : List FlushCall} {disk : Disk Loc}
    (h : FreshCalls env tag disk calls) :
    ∀ block ∈ (calls.filter fun call => call.tag = tag).map FlushCall.points,
      StreamsFit block := by
  induction calls generalizing disk with
  | nil => exact fun block hblock => (nomatch hblock)
  | cons call calls ih =>
    intro block hblock
    obtain ⟨c, hc, rfl⟩ := List.mem_map.mp hblock
    obtain ⟨hc, htag⟩ := List.mem_filter.mp hc
    rcases List.mem_cons.mp hc with rfl | hc
    · exact h.1.streams (of_decide_eq_true htag)
    · exact ih h.2 _ (List.mem_map_of_mem (List.mem_filter.mpr ⟨hc, htag⟩))

theorem EngineStep.eq_after {s s' : Session Loc} {op : EngineOp} (h : EngineStep env s op s') :
    s' = s.after env op := by
  cases h with
  | write h => rw [Session.after, h]; rfl
  | flush h => rfl

/-- **One operation.** -/
theorem InBlocks.step {blocks : List (List DataPoint)} {s s' : Session Loc} {op : EngineOp}
    (h : InBlocks env tag blocks s) (hstep : EngineStep env s op s')
    (hfresh : FreshOp env tag s op) :
    InBlocks env tag (blocks ++ (((s.table op).2.filter fun call => call.tag = tag).map
      FlushCall.points)) s' := by
  have hne : ∀ call ∈ (s.table op).2, call.points ≠ [] := by
    cases op with
    | write pad wtag ts bits => exact nonempty_add
    | flush order => exact nonempty_flushAll
  obtain ⟨htable, hdisk, hacked⟩ := hstep.spec
  constructor
  case files =>
    rw [hdisk]
    exact FreshCalls.files hfresh hne h.files
  case streams =>
    intro block hblock
    rcases List.mem_append.mp hblock with hblock | hblock
    · exact h.streams block hblock
    · exact FreshCalls.streams hfresh block hblock
  case points =>
    -- the points of the new blocks and of the buffer are those of the buffer before
    rw [htable, hacked, List.flatten_append, List.append_assoc]
    change _ = blocks.flatten ++ pointsOf tag (s.table op)
    cases op with
    | write pad wtag ts bits =>
      rw [Session.table, pointsOf_add, Session.ackedBy, pointsTo_append, h.points, List.append_assoc]
    | flush order => rw [Session.table, pointsOf_flushAll, Session.ackedBy, h.points]
  case latest =>
    cases hstep with
    | write hwrite =>
      rw [Engine.write_double] at hwrite
      cases hwrite
      dsimp only
      rw [pointsTo_append, lookup_update]
      split
      case isTrue htag =>
        rw [← htag]
        exact isLatestOf_update _ _ _ h.latest
      case isFalse => rw [List.append_nil]; exact h.latest
    | flush _ => exact h.latest
  case doubles =>
    rw [hacked]
    cases op with
    | write pad wtag ts bits =>
      rw [Session.ackedBy, pointsTo_append]
      intro p hp
      rcases List.mem_append.mp hp with hp | hp
      · exact h.doubles p hp
      · split at hp
        · rw [List.mem_singleton.mp hp]
          rfl
        · cases hp
    | flush order => exact h.doubles

/-- **A run.** -/
theorem inBlocks_run {config : StorageConfig} {disk : Disk Loc} {ops : List EngineOp}
    {s : Session Loc} (hempty : disk.tagDir env tag = .empty)
    (h : Run (Guarded (EngineStep env) (FreshOp env tag)) (.start env config disk none) ops s) :
    InBlocks env tag (blocksOf env tag (.start env config disk none) ops) s := by
  have hrun : (ops.foldl (fun acc op => (acc.1.after env op, acc.2 ++ (acc.1.table op).2))
      (Session.start env config disk none, [])).1 = s ∧
        InBlocks env tag (blocksOf env tag (.start env config disk none) ops) s := by
    refine h.invariant (fun ops s => (ops.foldl
      (fun acc op => (acc.1.after env op, acc.2 ++ (acc.1.table op).2))
      (Session.start env config disk none, [])).1 = s ∧
        InBlocks env tag (blocksOf env tag (.start env config disk none) ops) s) ?_ ?_
    · refine ⟨rfl, ?_⟩
      unfold Session.start
      rw [Engine.init_none]
      exact {
        points := rfl
        latest := rfl
        doubles := fun p hp => (nomatch hp)
        streams := fun block hblock => (nomatch hblock)
        files := by
          dsimp only
          rw [hempty]
          exact ⟨[], holdsBlocks_empty⟩ }
    · intro ops s op s' ⟨hs, hblocks⟩ ⟨hstep, hfresh⟩
      have hnext := hblocks.step hstep hfresh
      rw [blocksOf, callsOf, List.foldl_append, List.foldl_cons, List.foldl_nil]
      dsimp only
      rw [hs, List.filter_append, List.map_append]
      exact ⟨hstep.eq_after.symm, hnext⟩
  exact hrun.2

end Step

/-! ## One point -/

section Point

variable {env : Env Loc} {tag : Bytes} {blocks : List (List DataPoint)} {s : Session Loc}
  {range : TimeRange} {entries : List DirEntry} {p : DataPoint}

omit [DecidableEq Loc] in
theorem InBlocks.allDoubles (h : InBlocks env tag blocks s) :
    ∀ block ∈ blocks, AllDoubles block := by
  intro block hblock p hp
  apply h.doubles
  rw [h.points]
  exact List.mem_append_left _ (List.mem_flatten.mpr ⟨block, hblock, hp⟩)

omit [DecidableEq Loc] in
theorem mem_readCache (e : Engine Loc) {q : DataPoint} : q ∈ e.readCache tag range ↔
    tag ≠ [] ∧ e.latest.lookup tag = some q ∧ range.contains q.ts = true := by
  unfold Engine.readCache
  split
  case isTrue h => exact ⟨fun hq => (nomatch hq), fun hq => absurd h hq.1⟩
  case isFalse h =>
    rw [List.mem_filter, Option.mem_toList]
    exact ⟨fun hq => ⟨h, hq⟩, fun hq => hq.2⟩

omit [DecidableEq Loc] in
/-- The cache has the last point of the greatest timestamp. -/
theorem InBlocks.mem_readCache_iff (h : InBlocks env tag blocks s)
    (hp : lastAt (pointsTo s.acked tag) p.ts = some p) (hin : range.contains p.ts = true) :
    p ∈ s.engine.readCache tag range ↔ tag ≠ [] ∧ ∀ q ∈ pointsTo s.acked tag, q.ts ≤ p.ts := by
  have hlatest := h.latest
  rw [mem_readCache]
  refine and_congr_right fun _ => ?_
  cases hlookup : s.engine.latest.lookup tag with
  | none =>
    rw [hlookup] at hlatest
    rw [show pointsTo s.acked tag = [] from hlatest] at hp
    cases hp
  | some c =>
    rw [hlookup] at hlatest
    constructor
    · rintro ⟨heq, -⟩
      cases heq
      exact hlatest.2
    · intro hmax
      have hts : c.ts = p.ts :=
        Int64.le_antisymm (hmax c (mem_of_lastAt hlatest.1)) (hlatest.2 p (mem_of_lastAt hp))
      have hsame := hlatest.1
      rw [hts, hp] at hsame
      exact ⟨hsame.symm, hin⟩

omit [DecidableEq Loc] in
/-- And nothing else at its time. -/
theorem InBlocks.eq_of_mem_readCache (h : InBlocks env tag blocks s)
    (hp : lastAt (pointsTo s.acked tag) p.ts = some p) {q : DataPoint}
    (hq : q ∈ s.engine.readCache tag range) (hts : q.ts = p.ts) : q = p := by
  have hlatest := h.latest
  obtain ⟨-, hlookup, -⟩ := (mem_readCache s.engine).mp hq
  rw [hlookup] at hlatest
  have hsame := hlatest.1
  rw [hts, hp] at hsame
  exact (Option.some.inj hsame).symm

omit [DecidableEq Loc] in
/-- **A point is read by every sort if nothing else is read at its time.** -/
theorem InBlocks.reads_iff (h : InBlocks env tag blocks s)
    (hp : lastAt (pointsTo s.acked tag) p.ts = some p) (hin : range.contains p.ts = true)
    (hlist : (s.engine.disk.tagDir env tag).IsListing entries) :
    (∀ sort : KeySort tsKey, p ∈ s.engine.readRaw env sort tag range entries) ↔
      ((tag ≠ [] ∧ ∀ q ∈ pointsTo s.acked tag, q.ts ≤ p.ts) ∨
        ∃ block ∈ blocks, Shown range block p) ∧ OnlyShown range blocks p := by
  obtain ⟨files, hfiles⟩ := h.files
  have htables : ∀ q : DataPoint, q.ts = p.ts →
      (q ∈ readTables (s.engine.disk.tagDir env tag) entries range ↔
        ∃ block ∈ blocks, Shown range block q) :=
    fun q hq => hfiles.mem_readTables h.streams h.allDoubles hlist (by rw [hq, hin])
  unfold Engine.readRaw
  rw [forall_sort_mem_iff, List.mem_append, h.mem_readCache_iff hp hin, htables p rfl]
  refine and_congr_right fun _ => ⟨?_, ?_⟩
  · intro honly block hblock q hshown hts
    exact honly q (List.mem_append_right _ ((htables q hts).mpr ⟨block, hblock, hshown⟩))
      (tsKey_inj.mpr hts)
  · intro honly q hq hkey
    have hts := tsKey_inj.mp hkey
    rcases List.mem_append.mp hq with hq | hq
    · exact h.eq_of_mem_readCache hp hq hts
    · obtain ⟨block, hblock, hshown⟩ := (htables q hts).mp hq
      exact honly block hblock q hshown hts

omit [DecidableEq Loc] in
/-- **And so it is merged.** -/
theorem InBlocks.merges_iff (h : InBlocks env tag blocks s)
    (hlist : (s.engine.disk.tagDir env tag).IsListing entries) {threshold : Nat}
    (hsmall : ∀ entry ∈ entries, entry.fileSize < threshold) (htwo : 2 ≤ blocks.length) :
    (∀ sort : KeySort tsKey,
      p ∈ mergedPoints sort (s.engine.disk.tagDir env tag) entries threshold) ↔
        0 ≤ p.ts ∧ (∃ block ∈ blocks, Shown compactionRange block p) ∧
          OnlyShown compactionRange blocks p := by
  obtain ⟨files, hfiles⟩ := h.files
  have hinput : ∀ q : DataPoint,
      q ∈ (compactionInput (s.engine.disk.tagDir env tag) entries threshold).2 ↔
        0 ≤ q.ts ∧ ∃ block ∈ blocks, Shown compactionRange block q :=
    fun q => hfiles.mem_compactionInput h.streams h.allDoubles hlist hsmall htwo
  unfold mergedPoints
  rw [forall_sort_mem_iff, hinput, and_assoc]
  refine and_congr_right fun hpos => and_congr_right fun _ => ⟨?_, ?_⟩
  · intro honly block hblock q hshown hts
    exact honly q ((hinput q).mpr ⟨by rw [hts]; exact hpos, block, hblock, hshown⟩)
      (tsKey_inj.mpr hts)
  · intro honly q hq hkey
    obtain ⟨-, block, hblock, hshown⟩ := (hinput q).mp hq
    exact honly block hblock q hshown (tsKey_inj.mp hkey)

end Point

/-! ## The theorem -/

/-- All the files are small. -/
theorem exists_threshold (entries : List DirEntry) :
    ∃ threshold, ∀ entry ∈ entries, entry.fileSize < threshold := by
  refine ⟨(entries.map DirEntry.fileSize).sum + 1, fun entry hentry => ?_⟩
  exact Nat.lt_succ_of_le (List.le_sum_of_mem (List.mem_map_of_mem hentry))

/-- **The last write wins just when no other value of its timestamp is read** from the blocks that
the query meets, and from those that a compaction meets. -/
theorem lastWriteWins_iff {env : Env Loc} {config : StorageConfig} {disk : Disk Loc} {tag : Bytes}
    {ops : List EngineOp} {s : Session Loc} (range : TimeRange)
    (hempty : disk.tagDir env tag = .empty)
    (h : Run (Guarded (EngineStep env) (FreshOp env tag)) (.start env config disk none) ops s)
    (_hflushed : (s.engine.memTable.buffer tag).points = []) :
    LastWriteWins env s tag range ↔ LastStands tag (pointsTo s.acked tag)
      (blocksOf env tag (.start env config disk none) ops) range := by
  have hblocks := inBlocks_run hempty h
  obtain ⟨files, hfiles⟩ := hblocks.files
  constructor
  · intro hwins p hp hin
    have hlist : (s.engine.disk.tagDir env tag).IsListing _ := List.Perm.refl _
    obtain ⟨hread, honly⟩ := (hblocks.reads_iff hp hin hlist).mp (hwins.reads p hp hin _ hlist)
    refine ⟨hread, honly, fun htwo => ?_⟩
    obtain ⟨threshold, hsmall⟩ := exists_threshold _
    have hlen := hfiles.length_entries hlist
    exact (hblocks.merges_iff hlist hsmall htwo).mp
      (hwins.merges p hp hin _ hlist (hlen ▸ htwo) threshold hsmall)
  · intro hstands
    constructor
    · intro p hp hin entries hlist
      obtain ⟨hread, honly, -⟩ := hstands p hp hin
      exact (hblocks.reads_iff hp hin hlist).mpr ⟨hread, honly⟩
    · intro p hp hin entries hlist htwo threshold hsmall
      have hlen := hfiles.length_entries hlist
      have htwo' : 2 ≤ (blocksOf env tag (.start env config disk none) ops).length := hlen ▸ htwo
      exact (hblocks.merges_iff hlist hsmall htwo').mpr ((hstands p hp hin).2.2 htwo')

/-! ## Two values at one time -/

/-- A write to the tag `a` of this double. -/
def writeBits (ts : Timestamp) (bits : UInt64) : EngineOp :=
  .write (.replicate 3 0) (ascii "a") ts bits

def flushA : EngineOp := .flush [ascii "a"]

/-- The session after the operations. -/
def afterAll (s : Session Bytes) (ops : List EngineOp) : Session Bytes :=
  ops.foldl (fun s op => s.after plainEnv op) s

theorem freshOp_of_no_calls {env : Env Loc} {tag : Bytes} {s : Session Loc} {op : EngineOp}
    (h : (s.table op).2 = []) : FreshOp env tag s op := by
  rw [FreshOp, h]
  trivial

/-- One flush of the tag `a`, and a directory that is empty before it. -/
theorem freshOp_flushA {s : Session Bytes} {block : List DataPoint}
    (hcalls : (s.table flushA).2 = [{ tag := ascii "a", points := block }])
    (hdisk : s.engine.disk.tagDir plainEnv (ascii "a") = .empty) (hstreams : StreamsFit block) :
    FreshOp plainEnv (ascii "a") s flushA := by
  rw [FreshOp, hcalls]
  refine ⟨⟨fun _ => rfl, fun _ p _ => ?_, fun _ => hstreams⟩, trivial⟩
  rw [hdisk, Dir.lookup_empty]

/-- One point. -/
def writtenOnce : Session Bytes := afterAll freshSession [writeBits 1 0, flushA]

theorem run_writtenOnce :
    Run (Guarded (EngineStep plainEnv) (FreshOp plainEnv (ascii "a"))) freshSession
      [writeBits 1 0, flushA] writtenOnce := by
  have hwrite : (freshSession.table (writeBits 1 0)).2 = [] := by
    rw [freshSession_eq]
    rfl
  have hkeys : (afterAll freshSession [writeBits 1 0]).engine.memTable.buffers.keys
      = [ascii "a"] := by
    rw [freshSession_eq]
    rfl
  have hfresh : FreshOp plainEnv (ascii "a") (afterAll freshSession [writeBits 1 0]) flushA := by
    have hstreams : StreamsFit [⟨1, .double 0⟩] := streamsFit_of_length (by decide)
    apply freshOp_flushA _ _ hstreams
    · rw [freshSession_eq]
      rfl
    · rw [freshSession_eq]
      rfl
  show Run _ _ ([] ++ [writeBits 1 0] ++ [flushA]) _
  exact .snoc (.snoc .start ⟨engineStep_write .., freshOp_of_no_calls hwrite⟩)
    ⟨engineStep_flush _ (List.Perm.of_eq hkeys.symm), hfresh⟩

/-- A point that is written once is read, whatever else could be. -/
theorem lastWriteWins_once : LastWriteWins plainEnv writtenOnce (ascii "a") ⟨1, 1⟩ := by
  have hflushed : (writtenOnce.engine.memTable.buffer (ascii "a")).points = [] := by
    rw [writtenOnce, freshSession_eq]
    rfl
  have hpoints : pointsTo writtenOnce.acked (ascii "a") = [⟨1, .double 0⟩] := by
    rw [writtenOnce, freshSession_eq]
    rfl
  have hblocks : blocksOf plainEnv (ascii "a") freshSession [writeBits 1 0, flushA]
      = [[⟨1, .double 0⟩]] := by
    rw [freshSession_eq]
    rfl
  refine (lastWriteWins_iff ⟨1, 1⟩ rfl run_writtenOnce hflushed).mpr ?_
  change LastStands _ _ (blocksOf plainEnv (ascii "a") freshSession [writeBits 1 0, flushA]) _
  rw [hpoints, hblocks]
  intro p hp _
  have heq := List.mem_singleton.mp (mem_of_lastAt hp)
  rw [heq]
  refine ⟨.inl ⟨by decide, by decide⟩, ?_, fun htwo => absurd htwo (by decide)⟩
  intro block hblock q hshown _
  rw [List.mem_singleton.mp hblock] at hshown
  have hmem : q ∈ [(⟨1, .double 0⟩ : DataPoint)] := hshown.2
  exact List.mem_singleton.mp hmem

/-- The point at 1, and once more. -/
def writtenTwice : Session Bytes :=
  afterAll freshSession [writeBits 1 0, writeBits 1 1, writeBits 2 0, flushA]

theorem run_writtenTwice :
    Run (Guarded (EngineStep plainEnv) (FreshOp plainEnv (ascii "a"))) freshSession
      [writeBits 1 0, writeBits 1 1, writeBits 2 0, flushA] writtenTwice := by
  have hfirst : (freshSession.table (writeBits 1 0)).2 = [] := by
    rw [freshSession_eq]
    rfl
  have hsecond : ((afterAll freshSession [writeBits 1 0]).table (writeBits 1 1)).2 = [] := by
    rw [freshSession_eq]
    rfl
  have hthird : ((afterAll freshSession [writeBits 1 0, writeBits 1 1]).table
      (writeBits 2 0)).2 = [] := by
    rw [freshSession_eq]
    rfl
  have hkeys : (afterAll freshSession
      [writeBits 1 0, writeBits 1 1, writeBits 2 0]).engine.memTable.buffers.keys
        = [ascii "a"] := by
    rw [freshSession_eq]
    rfl
  have hfresh : FreshOp plainEnv (ascii "a")
      (afterAll freshSession [writeBits 1 0, writeBits 1 1, writeBits 2 0]) flushA := by
    have hstreams : StreamsFit [⟨1, .double 0⟩, ⟨1, .double 1⟩, ⟨2, .double 0⟩] :=
      streamsFit_of_length (by decide)
    apply freshOp_flushA _ _ hstreams
    · rw [freshSession_eq]
      rfl
    · rw [freshSession_eq]
      rfl
  show Run _ _ ([] ++ [writeBits 1 0] ++ [writeBits 1 1] ++ [writeBits 2 0] ++ [flushA]) _
  exact .snoc (.snoc (.snoc (.snoc .start
    ⟨engineStep_write .., freshOp_of_no_calls hfirst⟩)
    ⟨engineStep_write .., freshOp_of_no_calls hsecond⟩)
    ⟨engineStep_write .., freshOp_of_no_calls hthird⟩)
    ⟨engineStep_flush _ (List.Perm.of_eq hkeys.symm), hfresh⟩

/-- **The first write is read**, not the last one of its time. -/
theorem first_write_wins :
    Run (Guarded (EngineStep plainEnv) (FreshOp plainEnv (ascii "a"))) freshSession
        [writeBits 1 0, writeBits 1 1, writeBits 2 0, flushA] writtenTwice ∧
      (writtenTwice.engine.memTable.buffer (ascii "a")).points = [] ∧
      ¬ LastWriteWins plainEnv writtenTwice (ascii "a") ⟨1, 2⟩ := by
  refine ⟨run_writtenTwice, ?_, fun hwins => ?_⟩
  · rw [writtenTwice, freshSession_eq]
    rfl
  · have hpoints : pointsTo writtenTwice.acked (ascii "a")
        = [⟨1, .double 0⟩, ⟨1, .double 1⟩, ⟨2, .double 0⟩] := by
      rw [writtenTwice, freshSession_eq]
      rfl
    have hblocks : blocksOf plainEnv (ascii "a") freshSession
        [writeBits 1 0, writeBits 1 1, writeBits 2 0, flushA]
          = [[⟨1, .double 0⟩, ⟨1, .double 1⟩, ⟨2, .double 0⟩]] := by
      rw [freshSession_eq]
      rfl
    have hin : InBlocks plainEnv (ascii "a") _ writtenTwice := inBlocks_run rfl run_writtenTwice
    have hlast : lastAt (pointsTo writtenTwice.acked (ascii "a")) 1 = some ⟨1, .double 1⟩ := by
      rw [hpoints]
      decide
    have hlist : (writtenTwice.engine.disk.tagDir plainEnv (ascii "a")).IsListing _ :=
      List.Perm.refl _
    have hreads := hwins.reads ⟨1, .double 1⟩ hlast (by decide) _ hlist
    have honly := ((hin.reads_iff hlast (by decide) hlist).mp hreads).2
    change OnlyShown _ (blocksOf plainEnv (ascii "a") freshSession _) _ at honly
    rw [hblocks] at honly
    have hsame := honly _ List.mem_cons_self ⟨1, .double 0⟩ ⟨by decide, by decide⟩ rfl
    exact absurd hsame (by decide)

end Storage
end MiniTSDB
