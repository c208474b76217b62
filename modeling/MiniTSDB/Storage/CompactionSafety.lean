import MiniTSDB.Lib.Runs
import MiniTSDB.Storage.Compaction

/-!
# What repeated compactions keep

A run of compactions is any number of `CompactTag` calls on one directory, each with a threshold
of its own and each cut short after any of its file operations. The inputs are removed by name
after the merged file has been renamed into place, and the merged file is named after its first
and last timestamp only. So what keeps the data is a relation between names: `MergeSafe` is the
condition on the directory before a call under which no non-negative timestamp is lost, wherever
the call stops (`compactTag_preserves`), and runs of such calls lose none (`compactions_preserve`).

The step lemmas follow the file operations. Up to the rename, everything but the temporary file
is where it was. From the rename on, the merged file is in place, and everything but the inputs
is where it was: `Installed` is that state, and each removal keeps it.
-/

namespace MiniTSDB
namespace Storage

open Lib Os

/-- One call of `CompactTag`, with what it is given and what is left open. -/
structure CompactionCall where
  sort : KeySort tsKey
  entries : List DirEntry
  thresholdBytes : Nat

/-- A call that may be cut short after any of its file operations. -/
def CompactStep (d : Dir) (c : CompactionCall) (d' : Dir) : Prop :=
  d.IsListing c.entries ∧ d' ∈ d :: compactTag c.sort d c.entries c.thresholdBytes

/-- Every timestamp from 0 on that the one directory holds, the other holds. -/
def Preserves (d d' : Dir) : Prop := ∀ t, 0 ≤ t → Holds d t → Holds d' t

/-- Merging the read files into a block of these points is safe. -/
structure MergeSafe (d : Dir) (entries : List DirEntry) (thresholdBytes : Nat)
    (merged : List DataPoint) : Prop where
  /-- the merged list can be stored -/
  fits : FitsInt32 (tsOf merged)
  streams : StreamsFit merged
  /-- every timestamp from 0 on that a read file holds is found by the compaction's query -/
  found : ∀ f ∈ readFiles d entries thresholdBytes, ∀ p ∈ tablePoints d f, 0 ≤ p.ts →
    p.ts ∈ tsOf (compactionQuery d f)
  /-- the merged file does not get the name of a read file -/
  fresh : mergedFile merged ∉ readFiles d entries thresholdBytes
  /-- a file that is written over holds nothing that is not merged -/
  replaced : ∀ name, (name = tmpFile merged ∨ name = mergedFile merged) →
    ∀ p ∈ tablePoints d name, 0 ≤ p.ts → p.ts ∈ tsOf merged
  /-- if the rename is going to fail, the temporary file is not a read file -/
  blocked : (∃ empty, d.lookup (mergedFile merged) = some (.dir empty)) →
    tmpFile merged ∉ readFiles d entries thresholdBytes

/-- A call that merges nothing, or merges safely whichever point it keeps of each timestamp. -/
def SafeCall (d : Dir) (c : CompactionCall) : Prop :=
  ∀ merged, IsMergeOf tsKey (compactionInput d c.entries c.thresholdBytes).2 merged →
    merged ≠ [] → MergeSafe d c.entries c.thresholdBytes merged

/-! ## One call -/

theorem tmpFile_ne_mergedFile (points points' : List DataPoint) :
    tmpFile points ≠ mergedFile points' := by
  intro h
  have hhead := congrArg List.head? h
  have htmp : (tmpFile points).head? = some 46 := by simp [tmpFile, ascii]
  have hmerged : (mergedFile points').head? = some 109 := by simp [mergedFile, ascii]
  rw [htmp, hmerged] at hhead
  revert hhead
  decide

theorem isSst_tmpFile (points : List DataPoint) : isSst (tmpFile points) = true := isSst_append _

theorem isSst_mergedFile (points : List DataPoint) : isSst (mergedFile points) = true :=
  isSst_append _

theorem compactionQuery_subset (d : Dir) (f : Bytes) : compactionQuery d f ⊆ tablePoints d f := by
  intro p hp
  cases hopen : openTable d f with
  | none => simp [compactionQuery, hopen] at hp
  | some r =>
    rw [tablePoints_of_openTable hopen]
    exact readRange_subset_full r _ (by simpa [compactionQuery, hopen] using hp)

theorem mem_readFiles {d : Dir} {entries : List DirEntry} {threshold : Nat} {f : Bytes}
    (h : f ∈ readFiles d entries threshold) : isSst f = true := by
  rw [readFiles_eq] at h
  split at h
  · simp at h
  · obtain ⟨entry, hentry, rfl⟩ := List.mem_map.mp (List.mem_filter.mp h).1
    have := (List.mem_filter.mp hentry).2
    simp only [Bool.and_eq_true] at this
    exact this.1

theorem holds_of_lookup_eq {d d' : Dir} {name : Bytes} {p : DataPoint} (hsst : isSst name = true)
    (h : d'.lookup name = d.lookup name) (hp : p ∈ tablePoints d name) : Holds d' p.ts :=
  ⟨p, ⟨name, hsst, by rwa [tablePoints_congr h]⟩, rfl⟩

section Call

variable {d : Dir} {entries : List DirEntry} {threshold : Nat} {merged : List DataPoint}

theorem MergeSafe.mem_merged (h : MergeSafe d entries threshold merged)
    (hmerge : IsMergeOf tsKey (compactionInput d entries threshold).2 merged) {f : Bytes}
    (hf : f ∈ readFiles d entries threshold) {p : DataPoint} (hp : p ∈ tablePoints d f)
    (hpos : 0 ≤ p.ts) : p.ts ∈ tsOf merged := by
  obtain ⟨q, hq, hts⟩ := List.mem_map.mp (h.found f hf p hp hpos)
  have hin : q ∈ (compactionInput d entries threshold).2 := by
    rw [compactionInput_snd]
    exact List.mem_flatMap.mpr ⟨f, hf, hq⟩
  obtain ⟨r, hr, hkey⟩ := hmerge.covers q hin
  exact List.mem_map.mpr ⟨r, hr, by rw [tsKey_inj.mp hkey, hts]⟩

theorem mem_readFile_of_mem_merged
    (hmerge : IsMergeOf tsKey (compactionInput d entries threshold).2 merged) {t : Timestamp}
    (ht : t ∈ tsOf merged) :
    ∃ f ∈ readFiles d entries threshold, ∃ p ∈ tablePoints d f, p.ts = t := by
  obtain ⟨p, hp, rfl⟩ := List.mem_map.mp ht
  have hin := hmerge.subset p hp
  rw [compactionInput_snd] at hin
  obtain ⟨f, hf, hp⟩ := List.mem_flatMap.mp hin
  exact ⟨f, hf, p, compactionQuery_subset d f hp, rfl⟩

/-- No point read from a file needs string data, so none of the merged ones does. -/
theorem noStringData_merged
    (hmerge : IsMergeOf tsKey (compactionInput d entries threshold).2 merged) :
    NoStringData merged := by
  intro p hp
  have hin := hmerge.subset p hp
  rw [compactionInput_snd] at hin
  obtain ⟨f, -, hp⟩ := List.mem_flatMap.mp hin
  exact noStringData_tablePoints d f p (compactionQuery_subset d f hp)

theorem MergeSafe.holds_merged (h : MergeSafe d entries threshold merged)
    (hmerge : IsMergeOf tsKey (compactionInput d entries threshold).2 merged) {d' : Dir}
    {name : Bytes} (hsst : isSst name = true)
    (hfile : d'.lookup name = some (.file (tableBytes [merged]))) {t : Timestamp}
    (ht : t ∈ tsOf merged) : Holds d' t := by
  obtain ⟨p, hp, rfl⟩ := List.mem_map.mp ht
  refine ⟨p, ⟨name, hsst, ?_⟩, rfl⟩
  rw [tablePoints_of_lookup hfile]
  exact subset_dataPoints h.streams (noStringData_merged hmerge) h.fits hp

/-- The state from the rename on: the merged file is in place, and only inputs and the files
written over are missing. -/
structure Installed (d : Dir) (entries : List DirEntry) (threshold : Nat)
    (merged : List DataPoint) (d' : Dir) : Prop where
  inPlace : d'.lookup (mergedFile merged) = some (.file (tableBytes [merged]))
  kept : ∀ name, name ∉ readFiles d entries threshold → name ≠ tmpFile merged →
    name ≠ mergedFile merged → d'.lookup name = d.lookup name

/-- **In that state nothing is lost.** -/
theorem Installed.preserves {d' : Dir} (hin : Installed d entries threshold merged d')
    (h : MergeSafe d entries threshold merged)
    (hmerge : IsMergeOf tsKey (compactionInput d entries threshold).2 merged) :
    Preserves d d' := by
  rintro t hpos ⟨p, ⟨name, hsst, hp⟩, rfl⟩
  have hmerged : p.ts ∈ tsOf merged → Holds d' p.ts :=
    h.holds_merged hmerge (isSst_mergedFile _) hin.inPlace
  by_cases hread : name ∈ readFiles d entries threshold
  · exact hmerged (h.mem_merged hmerge hread hp hpos)
  · by_cases htmp : name = tmpFile merged
    · exact hmerged (h.replaced name (.inl htmp) p hp hpos)
    · by_cases hname : name = mergedFile merged
      · exact hmerged (h.replaced name (.inr hname) p hp hpos)
      · exact holds_of_lookup_eq hsst (hin.kept name hread htmp hname) hp

theorem Installed.remove {d' : Dir} (hin : Installed d entries threshold merged d')
    (h : MergeSafe d entries threshold merged) {f : Bytes}
    (hf : f ∈ readFiles d entries threshold) :
    Installed d entries threshold merged (d'.remove f) where
  inPlace := by
    have hne : mergedFile merged ≠ f := by
      rintro rfl
      exact h.fresh hf
    rw [Dir.lookup_remove_ne hne, hin.inPlace]
  kept name hread htmp hname := by
    have hne : name ≠ f := by
      rintro rfl
      exact hread hf
    rw [Dir.lookup_remove_ne hne, hin.kept name hread htmp hname]

/-- And so do all the removals, at each of which the call may stop. -/
theorem Installed.removeFiles {d' : Dir} (hin : Installed d entries threshold merged d')
    (h : MergeSafe d entries threshold merged) {files : List Bytes}
    (hfiles : files ⊆ readFiles d entries threshold) {d'' : Dir}
    (hd : d'' ∈ removeFiles d' files) : Installed d entries threshold merged d'' := by
  induction files generalizing d' with
  | nil => simp [Storage.removeFiles] at hd
  | cons f files ih =>
    have hstep := hin.remove h (hfiles List.mem_cons_self)
    rcases List.mem_cons.mp hd with rfl | hd
    · exact hstep
    · exact ih hstep (fun g hg => hfiles (List.mem_cons_of_mem f hg)) hd

/-- Until the rename, only the temporary file is new. -/
theorem MergeSafe.preserves_set_tmp (h : MergeSafe d entries threshold merged)
    (hmerge : IsMergeOf tsKey (compactionInput d entries threshold).2 merged) :
    Preserves d (d.set (tmpFile merged) (.file (tableBytes [merged]))) := by
  rintro t hpos ⟨p, ⟨name, hsst, hp⟩, rfl⟩
  by_cases htmp : name = tmpFile merged
  · exact h.holds_merged hmerge (isSst_tmpFile _) Dir.lookup_set
      (h.replaced name (.inl htmp) p hp hpos)
  · exact holds_of_lookup_eq hsst (Dir.lookup_set_ne htmp) hp

/-- If the rename fails, the temporary file is removed and the inputs stay. -/
theorem MergeSafe.preserves_remove_tmp (h : MergeSafe d entries threshold merged)
    (hmerge : IsMergeOf tsKey (compactionInput d entries threshold).2 merged)
    (hblocked : tmpFile merged ∉ readFiles d entries threshold) {d' : Dir}
    (hd : ∀ name, name ≠ tmpFile merged → d'.lookup name = d.lookup name) :
    Preserves d d' := by
  rintro t hpos ⟨p, ⟨name, hsst, hp⟩, rfl⟩
  by_cases htmp : name = tmpFile merged
  · -- what was in a file of that name is in one of the inputs
    obtain ⟨f, hf, q, hq, hts⟩ :=
      mem_readFile_of_mem_merged hmerge (h.replaced name (.inl htmp) p hp hpos)
    have hne : f ≠ tmpFile merged := by
      rintro rfl
      exact hblocked hf
    rw [← hts]
    exact holds_of_lookup_eq (mem_readFiles hf) (hd f hne) hq
  · exact holds_of_lookup_eq hsst (hd name htmp) hp

end Call

/-- **One call, wherever it stops, loses nothing** from a directory where it is safe. -/
theorem compactTag_preserves {d d' : Dir} {c : CompactionCall} (hsafe : SafeCall d c)
    (hd : d' ∈ d :: compactTag c.sort d c.entries c.thresholdBytes) : Preserves d d' := by
  rcases List.mem_cons.mp hd with rfl | hd
  · exact fun t _ h => h
  rw [compactTag] at hd
  split at hd
  case isTrue => simp at hd
  case isFalse hne =>
    have hmerge := mergedPoints_spec c.sort d c.entries c.thresholdBytes
    generalize mergedPoints c.sort d c.entries c.thresholdBytes = merged at hmerge hd
    have hmerged : merged ≠ [] := by
      rw [ne_eq, hmerge.eq_nil_iff, ← List.isEmpty_iff]
      exact hne
    have h := hsafe merged hmerge hmerged
    rw [installMerged] at hd
    cases hcreate : d.create (tmpFile merged) (tableBytes [merged]) with
    | none => simp [hcreate] at hd
    | some d₁ =>
      obtain rfl := Dir.create_eq_some hcreate
      simp only [hcreate] at hd
      have htmp : (d.set (tmpFile merged) (.file (tableBytes [merged]))).lookup (tmpFile merged)
          = some (.file (tableBytes [merged])) := Dir.lookup_set
      rcases Dir.rename_file htmp (mergedFile merged) with ⟨⟨empty, hdir⟩, hrename⟩ | hrename
      · -- a directory is in the way of the rename
        rw [Dir.lookup_set_ne (tmpFile_ne_mergedFile merged merged).symm] at hdir
        simp only [hrename, List.mem_cons, List.not_mem_nil, or_false] at hd
        rcases hd with rfl | rfl
        · exact h.preserves_set_tmp hmerge
        · refine h.preserves_remove_tmp hmerge (h.blocked ⟨empty, hdir⟩) fun name hname => ?_
          rw [Dir.lookup_remove_ne hname, Dir.lookup_set_ne hname]
      · -- stopped before the rename, behind it, or behind some of the removals
        simp only [hrename, List.mem_cons] at hd
        rcases hd with rfl | rfl | hd
        · exact h.preserves_set_tmp hmerge
        all_goals
          have hinstalled : Installed d c.entries c.thresholdBytes merged
              (((d.set (tmpFile merged) (.file (tableBytes [merged]))).erase (tmpFile merged)).set
                (mergedFile merged) (.file (tableBytes [merged]))) :=
            ⟨Dir.lookup_set, fun name _ htmp hname => by
              rw [Dir.lookup_set_ne hname, Dir.lookup_erase_ne htmp, Dir.lookup_set_ne htmp]⟩
        · exact hinstalled.preserves h hmerge
        · exact (hinstalled.removeFiles h (fun f hf => hf) hd).preserves h hmerge

/-! ## Runs -/

/-- **Runs of safe compactions lose no timestamp**, whatever their thresholds and wherever each
of them stops. -/
theorem compactions_preserve {d d' : Dir} {calls : List CompactionCall}
    (h : Run (Guarded CompactStep SafeCall) d calls d') : Preserves d d' := by
  refine h.invariant (fun _ d' => Preserves d d') (fun t _ ht => ht) ?_
  rintro calls d₁ c d₂ hbefore ⟨⟨-, hd⟩, hsafe⟩ t hpos ht
  exact compactTag_preserves hsafe hd t hpos (hbefore t hpos ht)

theorem installMerged_eq {d : Dir} {points : List DataPoint} {data : Bytes} (files : List Bytes)
    (htmp : d.lookup (tmpFile points) = none)
    (hmerged : d.lookup (mergedFile points) = some (.file data)) :
    ∃ d₁ d₂, installMerged d files points = d₁ :: d₂ :: removeFiles d₂ files ∧
      d₂.lookup (mergedFile points) = some (.file (tableBytes [points])) ∧
      ∀ name, name ≠ mergedFile points → d₂.lookup name = d.lookup name := by
  have hcreate : d.create (tmpFile points) (tableBytes [points])
      = some (d.set (tmpFile points) (.file (tableBytes [points]))) := by
    rw [Dir.create, htmp]
  have hrename : (d.set (tmpFile points) (.file (tableBytes [points]))).rename (tmpFile points)
      (mergedFile points) = some (((d.set (tmpFile points) (.file (tableBytes [points]))).erase
        (tmpFile points)).set (mergedFile points) (.file (tableBytes [points]))) := by
    rw [Dir.rename, Dir.lookup_set, Dir.lookup_set_ne (tmpFile_ne_mergedFile _ _).symm, hmerged]
  refine ⟨d.set (tmpFile points) (.file (tableBytes [points])),
    ((d.set (tmpFile points) (.file (tableBytes [points]))).erase (tmpFile points)).set
      (mergedFile points) (.file (tableBytes [points])), ?_, Dir.lookup_set, ?_⟩
  · rw [installMerged, hcreate]
    simp only [hrename]
  intro name hname
  rw [Dir.lookup_set_ne hname]
  by_cases h : name = tmpFile points
  · rw [h, Dir.lookup_erase, htmp]
  · rw [Dir.lookup_erase_ne h, Dir.lookup_set_ne h]

def twoFilesCall (a : Bytes) (as : List (List DataPoint)) (b : Bytes)
    (bs : List (List DataPoint)) : CompactionCall :=
  { sort := .stable tsKey, entries := twoEntries a as b bs, thresholdBytes := twoThreshold as bs }

/-- Where the call on a directory of two files has come to when it ends. -/
def twoFilesMerged (a : Bytes) (as : List (List DataPoint)) (b : Bytes)
    (bs : List (List DataPoint)) : Dir :=
  (twoFiles a as b bs :: compactTag (.stable tsKey) (twoFiles a as b bs) (twoEntries a as b bs)
    (twoThreshold as bs)).getLast (List.cons_ne_nil _ _)

theorem twoFiles_lookup_ne {a b : Bytes} {as bs : List (List DataPoint)} {name : Bytes}
    (ha : name ≠ a) (hb : name ≠ b) : (twoFiles a as b bs).lookup name = none := by
  rw [twoFiles, Dir.lookup_set_ne ha, Dir.lookup_set_ne hb, Dir.lookup_empty]

/-- Two files of one point each are merged safely. -/
theorem compactions_preserve_onePointEach :
    Preserves (twoFiles (ascii "a.sst") (onePoint 1) (ascii "b.sst") (onePoint 2))
      (twoFilesMerged (ascii "a.sst") (onePoint 1) (ascii "b.sst") (onePoint 2)) :=
  compactions_preserve <| show Run _ _ ([] ++ [twoFilesCall (ascii "a.sst") (onePoint 1)
      (ascii "b.sst") (onePoint 2)]) _ by
    have hblocks : ∀ points ∈ onePoint 1 ++ onePoint 2, BlockList points :=
      blockList_of_lengths (by decide) (by decide)
    have hwritten := twoFiles_writtenFrom (a := ascii "a.sst") (b := ascii "b.sst")
      (onePoint 1) (onePoint 2) (by decide) (by decide) (by decide) (by decide) hblocks
    have hinput := twoFiles_input (a := ascii "a.sst") (b := ascii "b.sst") (onePoint 1)
      (onePoint 2) (by decide) (by decide) (by decide) (by decide) hblocks
    have hread := congrArg Prod.fst hinput
    refine .snoc .start ⟨⟨twoFiles_isListing (by decide), List.getLast_mem _⟩, ?_⟩
    intro merged hmerge _
    obtain rfl : merged = [⟨1, .double 0⟩, ⟨2, .double 0⟩] := by
      have hpoints : (onePoint 1 ++ onePoint 2).flatMap (queryBlock compactionRange)
          = [⟨1, .double 0⟩, ⟨2, .double 0⟩] := by decide
      simp only [twoFilesCall, hinput, hpoints] at hmerge
      exact hmerge.eq_of_ascending (by decide)
    have hnone : ∀ name, name = tmpFile [⟨1, .double 0⟩, ⟨2, .double 0⟩] ∨
        name = mergedFile [⟨1, .double 0⟩, ⟨2, .double 0⟩] →
        (twoFiles (ascii "a.sst") (onePoint 1) (ascii "b.sst") (onePoint 2)).lookup name
          = none := by
      rintro name (rfl | rfl)
      · exact twoFiles_lookup_ne (by decide) (by decide)
      · exact twoFiles_lookup_ne (by decide) (by decide)
    refine ⟨by decide, streamsFit_of_length (by decide), ?_, ?_, ?_, ?_⟩
    · -- in both files, the query finds all there is
      intro f hf p hp _
      obtain ⟨e, he, rfl⟩ := List.mem_map.mp (hwritten.mem_readFiles_iff.mp hf)
      have hall : ∀ e ∈ [(ascii "a.sst", onePoint 1), (ascii "b.sst", onePoint 2)],
          e.2.flatMap (queryBlock compactionRange) = e.2.flatMap (queryBlock fullRange) := by
        decide
      rw [hwritten.compactionQuery_eq he, hall e he, ← hwritten.tablePoints_eq he]
      exact List.mem_map_of_mem hp
    · intro hfresh
      exact absurd (hwritten.mem_readFiles_iff.mp hfresh) (by decide)
    · intro name hname p hp
      simp [tablePoints, Dir.readFile, hnone name hname] at hp
    · rintro ⟨empty, hdir⟩
      simp [hnone _ (.inr rfl)] at hdir

def threePoints : List (List DataPoint) := [[⟨0, .double 0⟩, ⟨1, .double 0⟩, ⟨2, .double 0⟩]]

/-- **The merged file is removed as one of the inputs**: merging `merged_0_2.sst` with a file
that repeats its middle point leaves nothing. -/
theorem compactTag_removes_merged :
    ∃ d' c, CompactStep (twoFiles (ascii "merged_0_2.sst") threePoints (ascii "a.sst") (onePoint 1))
        c d' ∧
      Holds (twoFiles (ascii "merged_0_2.sst") threePoints (ascii "a.sst") (onePoint 1)) 0 ∧
      (∀ name, d'.lookup name = none) ∧
      ¬ Preserves (twoFiles (ascii "merged_0_2.sst") threePoints (ascii "a.sst") (onePoint 1))
        d' := by
  have hne : ascii "merged_0_2.sst" ≠ ascii "a.sst" := by decide
  have hblocks : ∀ points ∈ threePoints ++ onePoint 1, BlockList points :=
    blockList_of_lengths (by decide) (by decide)
  have hwritten := twoFiles_writtenFrom threePoints (onePoint 1) hne (by decide)
    (by decide) (by decide) hblocks
  have hinput := twoFiles_input threePoints (onePoint 1) hne (by decide)
    (by decide) (by decide) hblocks
  set d := twoFiles (ascii "merged_0_2.sst") threePoints (ascii "a.sst") (onePoint 1) with hd
  set entries := twoEntries (ascii "merged_0_2.sst") threePoints (ascii "a.sst") (onePoint 1)
  set merged : List DataPoint := [⟨0, .double 0⟩, ⟨1, .double 0⟩, ⟨2, .double 0⟩]
  have hpoints : mergedPoints (.stable tsKey) d entries (twoThreshold threePoints (onePoint 1))
      = merged := by
    rw [mergedPoints, hinput]
    decide
  have hname : mergedFile merged = ascii "merged_0_2.sst" := by decide
  have hlookupm : d.lookup (mergedFile merged) = some (.file (tableBytes threePoints)) := by
    rw [hname]
    exact Dir.lookup_set
  have hlookupa : d.lookup (ascii "a.sst") = some (.file (tableBytes (onePoint 1))) := by
    rw [hd, twoFiles, Dir.lookup_set_ne hne.symm, Dir.lookup_set]
  -- the rename puts the merged file in the place of the first input, which is then removed
  have htmp : d.lookup (tmpFile merged) = none := twoFiles_lookup_ne (by decide) (by decide)
  obtain ⟨d₁, d₂, htrace, hd₂, hother⟩ :=
    installMerged_eq [ascii "merged_0_2.sst", ascii "a.sst"] htmp hlookupm
  have htag : compactTag (.stable tsKey) d entries (twoThreshold threePoints (onePoint 1))
      = d₁ :: d₂ :: removeFiles d₂ [ascii "merged_0_2.sst", ascii "a.sst"] := by
    rw [compactTag, if_neg (by rw [hinput]; decide), hpoints, hinput, htrace]
  rw [hname] at hd₂ hother
  have hafter : (d₂.erase (ascii "merged_0_2.sst")).lookup (ascii "a.sst")
      = some (.file (tableBytes (onePoint 1))) := by
    rw [Dir.lookup_erase_ne hne.symm, hother _ hne.symm, hlookupa]
  rw [removeFiles, removeFiles, removeFiles, Dir.remove_file hd₂, Dir.remove_file hafter] at htag
  have hgone : ∀ name, ((d₂.erase (ascii "merged_0_2.sst")).erase (ascii "a.sst")).lookup name
      = none := by
    intro name
    by_cases ha : name = ascii "a.sst"
    · rw [ha, Dir.lookup_erase]
    rw [Dir.lookup_erase_ne ha]
    by_cases hm : name = ascii "merged_0_2.sst"
    · rw [hm, Dir.lookup_erase]
    rw [Dir.lookup_erase_ne hm, hother name hm, hd, twoFiles_lookup_ne hm ha]
  have hholds : Holds d 0 := by
    refine ⟨⟨0, .double 0⟩, ⟨ascii "merged_0_2.sst", by decide, ?_⟩, rfl⟩
    rw [hwritten.tablePoints_eq (e := (ascii "merged_0_2.sst", threePoints)) (by simp)]
    decide
  refine ⟨_, twoFilesCall (ascii "merged_0_2.sst") threePoints (ascii "a.sst") (onePoint 1),
    ⟨twoFiles_isListing hne, ?_⟩, hholds, hgone, fun hkeep => ?_⟩
  · rw [twoFilesCall, htag]
    simp
  · obtain ⟨p, ⟨name, -, hp⟩, -⟩ := hkeep 0 (by decide) hholds
    simp [tablePoints, Dir.readFile, hgone name] at hp

end Storage
end MiniTSDB
