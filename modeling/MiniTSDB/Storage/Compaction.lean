import MiniTSDB.Lib.SortedUnique
import MiniTSDB.Storage.TagDir

/-!
# Compaction of a tag's directory (`compaction.cpp`)

`CompactTag` reads every small SSTable of the directory with one query, sorts what it read, drops
repeated timestamps, writes the rest to a temporary file, renames that, and removes the files it
has read. `compactTag` is the list of the directories this goes through, one for each file
operation, so that a run cut short anywhere is a prefix of it.

What the merged block is compressed from is `mergedPoints`. Its timestamps are the union of what
was written to the inputs exactly when the query drops nothing and adds nothing:
`mergeExact_iff`.
-/

namespace MiniTSDB
namespace Storage

open Lib Os

/-- `full_range`, from 0 to the greatest timestamp. -/
def compactionRange : TimeRange := { start := 0, stop := Int64.maxValue }

/-- The paths of the small SSTables, `small_files`; here their names. -/
def smallFiles (entries : List DirEntry) (thresholdBytes : Nat) : List Bytes :=
  (entries.filter fun entry => isSst entry.name && entry.fileSize < thresholdBytes).map
    DirEntry.name

/-- The loop over `small_files`: `read_files` and `all_points`. -/
def readSmallFiles (d : Dir) (files : List Bytes) : List Bytes × List DataPoint :=
  files.foldl (fun s f =>
    match openTable d f with
    | none => s
    | some r => (s.1 ++ [f], s.2 ++ r.readRange compactionRange)) ([], [])

/-- What `CompactTag` reads; nothing if there are fewer than two small files. -/
def compactionInput (d : Dir) (entries : List DirEntry) (thresholdBytes : Nat) :
    List Bytes × List DataPoint :=
  let files := smallFiles entries thresholdBytes
  if files.length < 2 then ([], []) else readSmallFiles d files

/-- The key the points are sorted and compared by; `Int64` and `Int` agree on the order. -/
def tsKey (p : DataPoint) : Int := p.ts.toInt

/-- `all_points` after `std::sort`, `std::unique` and `erase`: what the new block is compressed
from. -/
def mergedPoints (s : KeySort tsKey) (d : Dir) (entries : List DirEntry) (thresholdBytes : Nat) :
    List DataPoint :=
  uniqueKeys tsKey (s.sort (compactionInput d entries thresholdBytes).2)

/-- `front().ts` and `back().ts` as they stand in the two names. -/
def frontBack (points : List DataPoint) : Bytes :=
  decimal (blockRange points).start.toInt ++ ascii "_" ++ decimal (blockRange points).stop.toInt

/-- The name of `tmp_file`. -/
def tmpFile (points : List DataPoint) : Bytes :=
  ascii ".tmp_merge_" ++ frontBack points ++ ascii ".sst"

/-- The name of `merged_file`. -/
def mergedFile (points : List DataPoint) : Bytes :=
  ascii "merged_" ++ frontBack points ++ ascii ".sst"

/-- The directories that removing files one after the other goes through. -/
def removeFiles (d : Dir) : List Bytes → List Dir
  | [] => []
  | f :: files => d.remove f :: removeFiles (d.remove f) files

/-- `CompactTag` from the compression on: the directory after each file operation. -/
def installMerged (d : Dir) (readFiles : List Bytes) (points : List DataPoint) : List Dir :=
  match d.create (tmpFile points) (tableBytes [points]) with
  | none => []
  | some d₁ =>
    match d₁.rename (tmpFile points) (mergedFile points) with
    | none => [d₁, d₁.remove (tmpFile points)]
    | some d₂ => d₁ :: d₂ :: removeFiles d₂ readFiles

/-- `Compaction::CompactTag`: the directory after each of its file operations. -/
def compactTag (s : KeySort tsKey) (d : Dir) (entries : List DirEntry) (thresholdBytes : Nat) :
    List Dir :=
  let input := compactionInput d entries thresholdBytes
  if input.2.isEmpty then []
  else installMerged d input.1 (mergedPoints s d entries thresholdBytes)

/-! ## What is read, and what is merged -/

/-- What the query of a compaction gives of a file, if it opens. -/
def compactionQuery (d : Dir) (f : Bytes) : List DataPoint :=
  ((openTable d f).map (·.readRange compactionRange)).getD []

/-- The files that are read are those that open, and each of them is read. -/
theorem readSmallFiles_eq (d : Dir) (files : List Bytes) :
    readSmallFiles d files = (files.filter fun f => (openTable d f).isSome,
      (files.filter fun f => (openTable d f).isSome).flatMap (compactionQuery d)) := by
  have hfold : ∀ (names : List Bytes) (points : List DataPoint),
      files.foldl (fun s f =>
        match openTable d f with
        | none => s
        | some r => (s.1 ++ [f], s.2 ++ r.readRange compactionRange)) (names, points)
      = (names ++ files.filter fun f => (openTable d f).isSome,
        points ++ (files.filter fun f => (openTable d f).isSome).flatMap (compactionQuery d)) := by
    induction files with
    | nil => simp
    | cons f files ih =>
      intro names points
      rw [List.foldl_cons]
      cases hopen : openTable d f with
      | none => simp [ih, hopen]
      | some r => simp [ih, hopen, compactionQuery]
  rw [readSmallFiles, hfold]
  simp

/-- `read_files`: the small files that open, if there are two small files. -/
def readFiles (d : Dir) (entries : List DirEntry) (thresholdBytes : Nat) : List Bytes :=
  (compactionInput d entries thresholdBytes).1

theorem readFiles_eq (d : Dir) (entries : List DirEntry) (threshold : Nat) :
    readFiles d entries threshold =
      if (smallFiles entries threshold).length < 2 then []
      else (smallFiles entries threshold).filter fun f => (openTable d f).isSome := by
  rw [readFiles, compactionInput, readSmallFiles_eq]
  split <;> rfl

theorem compactionInput_snd (d : Dir) (entries : List DirEntry) (threshold : Nat) :
    (compactionInput d entries threshold).2
      = (readFiles d entries threshold).flatMap (compactionQuery d) := by
  rw [readFiles, compactionInput, readSmallFiles_eq]
  split <;> rfl

theorem mergedPoints_spec (s : KeySort tsKey) (d : Dir) (entries : List DirEntry)
    (threshold : Nat) :
    IsMergeOf tsKey (compactionInput d entries threshold).2 (mergedPoints s d entries threshold) :=
  sortedUnique_spec s _

theorem tsKey_inj {p q : DataPoint} : tsKey p = tsKey q ↔ p.ts = q.ts := Int64.toInt_inj

theorem compactionRange_contains {t : Timestamp} : compactionRange.contains t = true ↔ 0 ≤ t := by
  rw [TimeRange.contains_iff]
  exact ⟨And.left, fun h => ⟨h, (TimeRange.contains_iff.mp (fullRange_contains t)).2⟩⟩

theorem mem_tsOf_mergedPoints {s : KeySort tsKey} {d : Dir} {entries : List DirEntry}
    {threshold : Nat} {t : Timestamp} :
    t ∈ tsOf (mergedPoints s d entries threshold) ↔
      ∃ f ∈ readFiles d entries threshold, t ∈ tsOf (compactionQuery d f) := by
  have hspec := mergedPoints_spec s d entries threshold
  rw [compactionInput_snd] at hspec
  constructor
  · intro h
    obtain ⟨p, hp, rfl⟩ := List.mem_map.mp h
    obtain ⟨f, hf, hp⟩ := List.mem_flatMap.mp (hspec.subset p hp)
    exact ⟨f, hf, List.mem_map_of_mem hp⟩
  · rintro ⟨f, hf, ht⟩
    obtain ⟨p, hp, rfl⟩ := List.mem_map.mp ht
    obtain ⟨q, hq, hkey⟩ := hspec.covers p (List.mem_flatMap.mpr ⟨f, hf, hp⟩)
    exact List.mem_map.mpr ⟨q, hq, tsKey_inj.mp hkey⟩

/-! ## When the merge is exact -/

/-- A list of points a writer may have been given as a block. -/
structure BlockList (points : List DataPoint) : Prop where
  nonempty : points ≠ []
  doubles : AllDoubles points
  ascending : points.Pairwise fun p q => p.ts < q.ts
  fits : FitsInt32 (tsOf points)
  streams : StreamsFit points

instance (points : List DataPoint) : Decidable (BlockList points) :=
  decidable_of_iff (points ≠ [] ∧ AllDoubles points ∧ (points.Pairwise fun p q => p.ts < q.ts) ∧
      FitsInt32 (tsOf points) ∧ StreamsFit points)
    ⟨fun ⟨h₁, h₂, h₃, h₄, h₅⟩ => ⟨h₁, h₂, h₃, h₄, h₅⟩,
      fun h => ⟨h.nonempty, h.doubles, h.ascending, h.fits, h.streams⟩⟩

theorem blockList_of_lengths {lists : List (List DataPoint)}
    (hlen : ∀ points ∈ lists, points.length ≤ 2 ^ 28)
    (h : ∀ points ∈ lists, points ≠ [] ∧ AllDoubles points ∧
      (points.Pairwise fun p q => p.ts < q.ts) ∧ FitsInt32 (tsOf points)) :
    ∀ points ∈ lists, BlockList points := by
  intro points hp
  obtain ⟨hne, hdoubles, hascending, hfits⟩ := h points hp
  exact ⟨hne, hdoubles, hascending, hfits, streamsFit_of_lengths hlen points hp⟩

/-- The small SSTables of the directory that open are these files, written from these lists of
points, and there are at least two. -/
structure WrittenFrom (d : Dir) (entries : List DirEntry) (thresholdBytes : Nat)
    (inputs : List (Bytes × List (List DataPoint))) : Prop where
  distinct : (inputs.map Prod.fst).Nodup
  two : 2 ≤ inputs.length
  small : ∀ e ∈ inputs, e.1 ∈ smallFiles entries thresholdBytes
  written : ∀ e ∈ inputs, d.readFile e.1 = some (tableBytes e.2)
  complete : ∀ f ∈ smallFiles entries thresholdBytes, (openTable d f).isSome = true →
    f ∈ inputs.map Prod.fst
  count : ∀ e ∈ inputs, e.2.length < 2 ^ 32
  blocks : ∀ e ∈ inputs, ∀ points ∈ e.2, BlockList points

def WrittenTs (inputs : List (Bytes × List (List DataPoint))) (t : Timestamp) : Prop :=
  ∃ e ∈ inputs, ∃ points ∈ e.2, t ∈ tsOf points

/-- **The merge is exact**: the block `CompactTag` writes is compressed from a list with the
timestamps that were written to the inputs, each once and in ascending order. Where there is no
such timestamp, there is no block. -/
structure MergeExact (s : KeySort tsKey) (d : Dir) (entries : List DirEntry)
    (thresholdBytes : Nat) (inputs : List (Bytes × List (List DataPoint))) : Prop where
  block : ∀ d₁ ∈ (compactTag s d entries thresholdBytes).head?,
    ∃ name, d₁.readFile name = some (tableBytes [mergedPoints s d entries thresholdBytes])
  ascending : (tsOf (mergedPoints s d entries thresholdBytes)).Pairwise (· < ·)
  union : ∀ t, t ∈ tsOf (mergedPoints s d entries thresholdBytes) ↔ WrittenTs inputs t

def NoneNegative (inputs : List (Bytes × List (List DataPoint))) : Prop :=
  ∀ t, WrittenTs inputs t → 0 ≤ t

/-- The padding of the inputs' blocks reads as timestamps that were written, or as negative
ones. -/
def PaddingWritten (inputs : List (Bytes × List (List DataPoint))) : Prop :=
  ∀ e ∈ inputs, ∀ points ∈ e.2, ∀ p ∈ paddingPoints points, 0 ≤ p.ts → WrittenTs inputs p.ts

/-- The first file operation writes the merged points, as one block. -/
theorem readFile_head_compactTag {s : KeySort tsKey} {d d₁ : Dir} {entries : List DirEntry}
    {threshold : Nat} (h : d₁ ∈ (compactTag s d entries threshold).head?) :
    ∃ name, d₁.readFile name = some (tableBytes [mergedPoints s d entries threshold]) := by
  rw [compactTag] at h
  split at h
  · simp at h
  · rw [installMerged] at h
    generalize tmpFile _ = tmp at h
    cases hcreate : d.create tmp (tableBytes [mergedPoints s d entries threshold]) with
    | none => simp [hcreate] at h
    | some d' =>
      have hd : d₁ = d' := by
        simp only [hcreate] at h
        split at h <;> simpa using h.symm
      exact ⟨tmp, by rw [hd, Dir.create_eq_some hcreate, Dir.readFile_set_file]⟩

theorem ascending_mergedPoints (s : KeySort tsKey) (d : Dir) (entries : List DirEntry)
    (threshold : Nat) : (tsOf (mergedPoints s d entries threshold)).Pairwise (· < ·) := by
  rw [List.pairwise_map]
  exact (mergedPoints_spec s d entries threshold).ascending.imp Int64.lt_iff_toInt_lt.mpr

namespace WrittenFrom

variable {s : KeySort tsKey} {d : Dir} {entries : List DirEntry} {threshold : Nat}
  {inputs : List (Bytes × List (List DataPoint))}

theorem mem_readFiles_iff (h : WrittenFrom d entries threshold inputs) {f : Bytes} :
    f ∈ readFiles d entries threshold ↔ f ∈ inputs.map Prod.fst := by
  have hsub : inputs.map Prod.fst ⊆ smallFiles entries threshold := by
    intro f hf
    obtain ⟨e, he, rfl⟩ := List.mem_map.mp hf
    exact h.small e he
  have hlen := (List.subperm_of_subset h.distinct hsub).length_le
  rw [List.length_map] at hlen
  rw [readFiles_eq, if_neg (by have := h.two; omega), List.mem_filter]
  refine ⟨fun hf => h.complete f hf.1 hf.2, fun hf => ⟨hsub hf, ?_⟩⟩
  obtain ⟨e, he, rfl⟩ := List.mem_map.mp hf
  obtain ⟨r, hopen, -⟩ := open_sstableBytes (e.2.map compress)
  rw [openTable, h.written e he, Option.bind_some, tableBytes, hopen]
  rfl

/-- What is read of an input: its non-negative points, and the padding of the blocks that end at
a non-negative timestamp. -/
theorem compactionQuery_eq (h : WrittenFrom d entries threshold inputs)
    {e : Bytes × List (List DataPoint)} (he : e ∈ inputs) :
    compactionQuery d e.1 = e.2.flatMap (queryBlock compactionRange) := by
  have hquery := queryFile_tableBytes (h.count e he)
    (fun points hp => (h.blocks e he points hp).streams)
    (fun points hp => (h.blocks e he points hp).doubles.noStringData) compactionRange
  rw [queryFile, Option.map_eq_some_iff] at hquery
  obtain ⟨r, hopen, hread⟩ := hquery
  rw [compactionQuery, openTable, h.written e he, Option.bind_some, hopen, Option.map_some, hread,
    Option.getD_some]

theorem tablePoints_eq (h : WrittenFrom d entries threshold inputs)
    {e : Bytes × List (List DataPoint)} (he : e ∈ inputs) :
    tablePoints d e.1 = e.2.flatMap (queryBlock fullRange) := by
  rw [tablePoints, h.written e he]
  dsimp only
  rw [dataPoints, queryFile_tableBytes (h.count e he)
    (fun points hp => (h.blocks e he points hp).streams)
    (fun points hp => (h.blocks e he points hp).doubles.noStringData), Option.getD_some]

theorem mem_merged_iff (h : WrittenFrom d entries threshold inputs) {t : Timestamp} :
    t ∈ tsOf (mergedPoints s d entries threshold) ↔ (WrittenTs inputs t ∧ 0 ≤ t) ∨
      ∃ e ∈ inputs, ∃ points ∈ e.2, (blockRange points).overlaps compactionRange = true ∧
        0 ≤ t ∧ t ∈ tsOf (paddingPoints points) := by
  have hblock : ∀ points, BlockList points → (t ∈ tsOf (queryBlock compactionRange points) ↔
      (t ∈ tsOf points ∧ 0 ≤ t) ∨ ((blockRange points).overlaps compactionRange = true ∧
        0 ≤ t ∧ t ∈ tsOf (paddingPoints points))) := by
    intro points hp
    have hfilter : ∀ l : List DataPoint,
        t ∈ tsOf (l.filter fun p => compactionRange.contains p.ts) ↔ t ∈ tsOf l ∧ 0 ≤ t := by
      intro l
      simp only [tsOf, List.mem_map, List.mem_filter, compactionRange_contains]
      constructor
      · rintro ⟨p, ⟨hp, hpos⟩, rfl⟩
        exact ⟨⟨p, hp, rfl⟩, hpos⟩
      · rintro ⟨⟨p, hp, rfl⟩, hpos⟩
        exact ⟨p, ⟨hp, hpos⟩, rfl⟩
    rw [queryBlock_eq hp.ascending hp.fits, tsOf, List.map_append, List.mem_append, hfilter]
    split
    case isTrue hov => rw [hfilter]; simp [hov, and_comm]
    case isFalse hov => simp [hov]
  rw [mem_tsOf_mergedPoints]
  constructor
  · rintro ⟨f, hf, ht⟩
    obtain ⟨e, he, rfl⟩ := List.mem_map.mp (h.mem_readFiles_iff.mp hf)
    rw [h.compactionQuery_eq he, tsOf, List.map_flatMap] at ht
    obtain ⟨points, hp, ht⟩ := List.mem_flatMap.mp ht
    rcases (hblock points (h.blocks e he points hp)).mp ht with ⟨ht, hpos⟩ | ⟨hov, hpos, ht⟩
    · exact .inl ⟨⟨e, he, points, hp, ht⟩, hpos⟩
    · exact .inr ⟨e, he, points, hp, hov, hpos, ht⟩
  · intro ht
    obtain ⟨e, he, points, hp, hread⟩ : ∃ e ∈ inputs, ∃ points ∈ e.2,
        t ∈ tsOf (queryBlock compactionRange points) := by
      rcases ht with ⟨⟨e, he, points, hp, ht⟩, hpos⟩ | ⟨e, he, points, hp, hov, hpos, ht⟩
      · exact ⟨e, he, points, hp, (hblock points (h.blocks e he points hp)).mpr (.inl ⟨ht, hpos⟩)⟩
      · exact ⟨e, he, points, hp,
          (hblock points (h.blocks e he points hp)).mpr (.inr ⟨hov, hpos, ht⟩)⟩
    refine ⟨e.1, h.mem_readFiles_iff.mpr (List.mem_map_of_mem he), ?_⟩
    rw [h.compactionQuery_eq he, tsOf, List.map_flatMap]
    exact List.mem_flatMap.mpr ⟨points, hp, hread⟩

end WrittenFrom

/-! ## Two files -/

def twoFiles (a : Bytes) (as : List (List DataPoint)) (b : Bytes) (bs : List (List DataPoint)) :
    Dir :=
  (Dir.empty.set b (.file (tableBytes bs))).set a (.file (tableBytes as))

def twoEntries (a : Bytes) (as : List (List DataPoint)) (b : Bytes)
    (bs : List (List DataPoint)) : List DirEntry :=
  [Node.entry a (.file (tableBytes as)), Node.entry b (.file (tableBytes bs))]

def twoThreshold (as bs : List (List DataPoint)) : Nat :=
  (tableBytes as).length + (tableBytes bs).length + 1

def onePoint (t : Timestamp) : List (List DataPoint) := [[⟨t, .double 0⟩]]

theorem twoFiles_smallFiles {a b : Bytes} {as bs : List (List DataPoint)} (ha : isSst a = true)
    (hb : isSst b = true) :
    smallFiles (twoEntries a as b bs) (twoThreshold as bs) = [a, b] := by
  have hlen : (tableBytes as).length < twoThreshold as bs ∧
      (tableBytes bs).length < twoThreshold as bs := by
    unfold twoThreshold
    omega
  simp [smallFiles, twoEntries, Node.entry, ha, hb, hlen]

theorem twoFiles_writtenFrom {a b : Bytes} (as bs : List (List DataPoint)) (hab : a ≠ b)
    (ha : isSst a = true) (hb : isSst b = true) (hcount : as.length < 2 ^ 32 ∧ bs.length < 2 ^ 32)
    (hblocks : ∀ points ∈ as ++ bs, BlockList points) :
    WrittenFrom (twoFiles a as b bs) (twoEntries a as b bs) (twoThreshold as bs)
      [(a, as), (b, bs)] where
  distinct := by simpa using hab
  two := by simp
  small := by simp [twoFiles_smallFiles ha hb]
  written := by
    simp [twoFiles, Dir.readFile_set_ne (Ne.symm hab)]
  complete := by
    intro f hf _
    simpa [twoFiles_smallFiles ha hb] using hf
  count := by simpa using hcount
  blocks := by
    intro e he points hp
    refine hblocks points (List.mem_append.mpr ?_)
    rcases List.mem_pair.mp he with rfl | rfl
    · exact .inl hp
    · exact .inr hp

theorem twoFiles_input {a b : Bytes} (as bs : List (List DataPoint)) (hab : a ≠ b)
    (ha : isSst a = true) (hb : isSst b = true) (hcount : as.length < 2 ^ 32 ∧ bs.length < 2 ^ 32)
    (hblocks : ∀ points ∈ as ++ bs, BlockList points) :
    compactionInput (twoFiles a as b bs) (twoEntries a as b bs) (twoThreshold as bs)
      = ([a, b], (as ++ bs).flatMap (queryBlock compactionRange)) := by
  have hwritten := twoFiles_writtenFrom as bs hab ha hb hcount hblocks
  have hread : readFiles (twoFiles a as b bs) (twoEntries a as b bs) (twoThreshold as bs)
      = [a, b] := by
    have hopen : ∀ f ∈ [a, b], (openTable (twoFiles a as b bs) f).isSome = true := by
      intro f hf
      have hmem := hwritten.mem_readFiles_iff.mpr (by simpa using hf)
      rw [readFiles_eq, twoFiles_smallFiles ha hb, if_neg (by simp)] at hmem
      exact (List.mem_filter.mp hmem).2
    rw [readFiles_eq, twoFiles_smallFiles ha hb, if_neg (by simp), List.filter_eq_self]
    exact hopen
  refine Prod.ext hread ?_
  rw [compactionInput_snd, hread, List.flatMap_cons, List.flatMap_singleton,
    hwritten.compactionQuery_eq (e := (a, as)) (by simp),
    hwritten.compactionQuery_eq (e := (b, bs)) (by simp), List.flatMap_append]

theorem twoFiles_isListing {a b : Bytes} {as bs : List (List DataPoint)} (hab : a ≠ b) :
    (twoFiles a as b bs).IsListing (twoEntries a as b bs) := by
  have hentries : (twoFiles a as b bs).nodes.entries
      = [⟨a, .file (tableBytes as)⟩, ⟨b, .file (tableBytes bs)⟩] := by
    simp [twoFiles, Dir.set, Dir.empty, AList.insert, List.kinsert, hab]
  rw [Dir.IsListing, hentries]
  exact .refl _

/-! ## The theorem -/

theorem overlaps_compactionRange {points : List DataPoint} (hne : points ≠ [])
    (hpos : ∀ t ∈ tsOf points, 0 ≤ t) : (blockRange points).overlaps compactionRange = true := by
  have hlast : (blockRange points).stop = (points.getLast hne).ts := by
    simp [blockRange, List.getLast?_eq_some_getLast hne]
  refine TimeRange.overlaps_iff.mpr ⟨?_, ?_⟩
  · exact (TimeRange.contains_iff.mp (fullRange_contains _)).2
  · rw [hlast]
    exact hpos _ (List.mem_map_of_mem (List.getLast_mem hne))

/-- **The merge is exact exactly when no negative timestamp was written and every padding
timestamp that is not negative was.** -/
theorem mergeExact_iff {s : KeySort tsKey} {d : Dir} {entries : List DirEntry} {threshold : Nat}
    {inputs : List (Bytes × List (List DataPoint))} (h : WrittenFrom d entries threshold inputs) :
    MergeExact s d entries threshold inputs ↔ NoneNegative inputs ∧ PaddingWritten inputs := by
  constructor
  · intro hexact
    have hpos : NoneNegative inputs := by
      intro t ht
      rcases h.mem_merged_iff.mp ((hexact.union t).mpr ht) with ⟨-, hpos⟩ | ⟨-, -, -, -, -, hpos, -⟩
      · exact hpos
      · exact hpos
    refine ⟨hpos, fun e he points hp p hpad hp0 => (hexact.union p.ts).mp ?_⟩
    refine h.mem_merged_iff.mpr (.inr ⟨e, he, points, hp, ?_, hp0, List.mem_map_of_mem hpad⟩)
    exact overlaps_compactionRange (h.blocks e he points hp).nonempty
      fun t ht => hpos t ⟨e, he, points, hp, ht⟩
  · rintro ⟨hpos, hpad⟩
    refine ⟨fun _ => readFile_head_compactTag, ascending_mergedPoints s d entries threshold,
      fun t => h.mem_merged_iff.trans ?_⟩
    constructor
    · rintro (⟨ht, -⟩ | ⟨e, he, points, hp, -, hpos, ht⟩)
      · exact ht
      · obtain ⟨p, hp', rfl⟩ := List.mem_map.mp ht
        exact hpad e he points hp p hp' hpos
    · exact fun ht => .inl ⟨ht, hpos t ht⟩

/-- A file with one block of one point and a file with another. -/
theorem mergeExact_iff_onePointEach :
    MergeExact (.stable tsKey) (twoFiles (ascii "a.sst") (onePoint 1) (ascii "b.sst") (onePoint 2))
      (twoEntries (ascii "a.sst") (onePoint 1) (ascii "b.sst") (onePoint 2))
      (twoThreshold (onePoint 1) (onePoint 2))
      [(ascii "a.sst", onePoint 1), (ascii "b.sst", onePoint 2)] :=
  (mergeExact_iff (twoFiles_writtenFrom _ _ (by decide) (by decide) (by decide) (by decide)
    (blockList_of_lengths (by decide) (by decide)))).mpr
    ⟨by
      rintro t ⟨e, he, points, hp, ht⟩
      have hpos : ∀ points ∈ onePoint 1 ++ onePoint 2, ∀ t ∈ tsOf points, 0 ≤ t := by
        simp [onePoint]
      refine hpos points (List.mem_append.mpr ?_) t ht
      rcases List.mem_pair.mp he with rfl | rfl
      · exact .inl hp
      · exact .inr hp,
    by
      have hnone : ∀ points ∈ onePoint 1 ++ onePoint 2, paddingPoints points = [] := by decide
      intro e he points hp p hpad
      rw [hnone points (List.mem_append.mpr ?_)] at hpad
      · simp at hpad
      · rcases List.mem_pair.mp he with rfl | rfl
        · exact .inl hp
        · exact .inr hp⟩

/-- **A timestamp before 1970 is dropped**: of `-1` and `1`, only `1` is merged. -/
theorem compactTag_drops_negative :
    WrittenFrom (twoFiles (ascii "a.sst") (onePoint (-1)) (ascii "b.sst") (onePoint 1))
        (twoEntries (ascii "a.sst") (onePoint (-1)) (ascii "b.sst") (onePoint 1))
        (twoThreshold (onePoint (-1)) (onePoint 1))
        [(ascii "a.sst", onePoint (-1)), (ascii "b.sst", onePoint 1)] ∧
      ¬ MergeExact (.stable tsKey)
        (twoFiles (ascii "a.sst") (onePoint (-1)) (ascii "b.sst") (onePoint 1))
        (twoEntries (ascii "a.sst") (onePoint (-1)) (ascii "b.sst") (onePoint 1))
        (twoThreshold (onePoint (-1)) (onePoint 1))
        [(ascii "a.sst", onePoint (-1)), (ascii "b.sst", onePoint 1)] := by
  have hwritten := twoFiles_writtenFrom (a := ascii "a.sst") (b := ascii "b.sst")
    (onePoint (-1)) (onePoint 1) (by decide) (by decide) (by decide)
    (by decide) (blockList_of_lengths (by decide) (by decide))
  refine ⟨hwritten, fun hexact => ?_⟩
  have hin := (hexact.union (-1)).mpr
    ⟨_, List.mem_cons_self, _, List.mem_cons_self, List.mem_cons_self⟩
  rcases hwritten.mem_merged_iff.mp hin with ⟨-, hpos⟩ | ⟨-, -, -, -, -, hpos, -⟩
  · exact absurd hpos (by decide)
  · exact absurd hpos (by decide)

end Storage
end MiniTSDB
