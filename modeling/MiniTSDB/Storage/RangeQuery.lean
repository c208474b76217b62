import MiniTSDB.Storage.SSTable
import Mathlib.Data.List.Perm.Basic
import Mathlib.Data.List.Perm.Subperm

/-!
# What a range query returns

`SSTable.lean` says what a query of a written file gives in terms of its blocks. Here the blocks
are compressed from points, and the question is what comes back of the points. Two things stand
between a list of points and the answer:

* the reader does not know a block's point count, so the padding points come along, where they
  lie in the range (`neverInvents_iff`);
* the range of a block is its first and its last timestamp, so a block is skipped whenever these
  two are on one side of the range, wherever its other points are (`losesNothing_iff`).

What does come back has its own value, except for strings: their bytes are in neither stream
(`bringsBack_iff`).
-/

namespace MiniTSDB
namespace Storage

open Lib

/-- The file a writer leaves that was given one block per list of points. -/
def tableBytes (lists : List (List DataPoint)) : Bytes := sstableBytes (lists.map compress)

/-- `Open` and one `ReadRange`. -/
def queryFile (data : Bytes) (range : TimeRange) : Option (List DataPoint) :=
  (SSTableReader.open data).map fun r => r.readRange range

/-- Both streams of the block fit its two `uint32_t` length fields. -/
structure StreamsFit (points : List DataPoint) : Prop where
  timestamps : (compress points).timestamps.length < 2 ^ 32
  values : (compress points).values.length < 2 ^ 32

instance (points : List DataPoint) : Decidable (StreamsFit points) :=
  decidable_of_iff ((compress points).timestamps.length < 2 ^ 32 ∧
      (compress points).values.length < 2 ^ 32)
    ⟨fun h => ⟨h.1, h.2⟩, fun h => ⟨h.1, h.2⟩⟩

/-- Eight bytes a timestamp and ten a value are enough. -/
theorem streamsFit_of_length {points : List DataPoint} (h : points.length ≤ 2 ^ 28) :
    StreamsFit points where
  timestamps := by
    have hlen := length_timestamps_compress_le points
    omega
  values := by
    have hlen := length_values_compress_le points
    omega

theorem streamsFit_of_lengths {lists : List (List DataPoint)}
    (h : ∀ points ∈ lists, points.length ≤ 2 ^ 28) : ∀ points ∈ lists, StreamsFit points :=
  fun points hp => streamsFit_of_length (h points hp)

def AllDoubles (points : List DataPoint) : Prop := ∀ p ∈ points, p.value.isDouble = true

instance (points : List DataPoint) : Decidable (AllDoubles points) :=
  inferInstanceAs (Decidable (∀ p ∈ points, p.value.isDouble = true))

/-- The range `Compress` gives the block: the first timestamp and the last. -/
def blockRange (points : List DataPoint) : TimeRange :=
  { start := (points.head?.map DataPoint.ts).getD 0
    stop := (points.getLast?.map DataPoint.ts).getD 0 }

@[simp] theorem range_compress (points : List DataPoint) :
    (compress points).range = blockRange points := by
  cases points with
  | nil => rfl
  | cons p ps =>
    show TimeRange.mk _ _ = _
    simp [blockRange, List.getLast?_cons, List.getLast_eq_getLastD]

/-- No value needs the string data that a file does not have. -/
def NoStringData (points : List DataPoint) : Prop := ∀ p ∈ points, stringBytes p.value = []

theorem AllDoubles.noStringData {points : List DataPoint} (h : AllDoubles points) :
    NoStringData points := by
  intro p hp
  have := h p hp
  cases hv : p.value with
  | double bits => rfl
  | int64 i => rfl
  | string s => simp [hv, Value.isDouble] at this

instance (points : List DataPoint) : Decidable (NoStringData points) :=
  inferInstanceAs (Decidable (∀ p ∈ points, stringBytes p.value = []))

/-- What a query gives of a block of these points. -/
def queryBlock (range : TimeRange) (points : List DataPoint) : List DataPoint :=
  if (blockRange points).overlaps range then
    (storedPoints points ++ paddingPoints points).filter fun p => range.contains p.ts
  else []

theorem readRange_compress {points : List DataPoint} (hfit : StreamsFit points)
    (hstr : NoStringData points) (range : TimeRange) :
    (compress points).readRange range = queryBlock range points := by
  have hkept : (compress points).inFile
      = { timestamps := (compress points).timestamps, values := (compress points).values } := by
    rw [CompressedBlock.inFile, Nat.mod_eq_of_lt hfit.timestamps, Nat.mod_eq_of_lt hfit.values,
      List.take_length, List.take_length]
  rw [CompressedBlock.readRange, range_compress, hkept,
    decompress_uncounted hstr, queryBlock]

/-- A query of a file written from points, block by block. -/
theorem queryFile_tableBytes {lists : List (List DataPoint)} (hcount : lists.length < 2 ^ 32)
    (hfit : ∀ points ∈ lists, StreamsFit points) (hstr : ∀ points ∈ lists, NoStringData points)
    (range : TimeRange) :
    queryFile (tableBytes lists) range = some (lists.flatMap (queryBlock range)) := by
  obtain ⟨r, hopen, hread⟩ := open_sstableBytes (lists.map compress)
  rw [queryFile, tableBytes, hopen, Option.map_some, hread, List.length_map,
    Nat.mod_eq_of_lt hcount, ← List.length_map (f := compress), List.take_length,
    List.flatMap_map]
  congr 1
  refine List.flatMap_congr fun points hp => ?_
  exact readRange_compress (hfit points hp) (hstr points hp) range

/-! ## What a query gives of any file -/

private theorem stringBytes_readValue (s : ValueReader) :
    stringBytes (readValue [] s).1 = [] := by
  unfold readValue
  dsimp only
  repeat' split
  all_goals simp [stringBytes]

private theorem stringBytes_decodeValues (s : ValueReader) (remaining : Option Nat) :
    ∀ v ∈ decodeValues [] s remaining, stringBytes v = [] := by
  induction s, remaining using decodeValues.induct [] with
  | case1 s remaining h step ih =>
    rw [decodeValues, dif_pos h]
    intro v hv
    rcases List.mem_cons.mp hv with rfl | hv
    · exact stringBytes_readValue s
    · exact ih v hv
  | case2 s remaining h =>
    rw [decodeValues, dif_neg h]
    simp

private theorem value_mem_of_mem_zipWith {ts : List Timestamp} {vs : List Value} {p : DataPoint}
    (h : p ∈ List.zipWith DataPoint.mk ts vs) : p.value ∈ vs := by
  induction ts generalizing vs with
  | nil => simp at h
  | cons t ts ih =>
    cases vs with
    | nil => simp at h
    | cons v vs =>
      rcases List.mem_cons.mp h with rfl | h
      · exact List.mem_cons_self
      · exact List.mem_cons_of_mem _ (ih h)

private theorem stringData_readBlock (r : SSTableReader) (idx : BlockIndex) :
    (r.readBlock idx).stringData = [] := rfl

/-- Without the string data of a block there are only empty strings to read. -/
theorem SSTableReader.noStringData_readRange (r : SSTableReader) (range : TimeRange) :
    NoStringData (r.readRange range) := by
  intro p hp
  obtain ⟨idx, -, hp⟩ := List.mem_flatMap.mp hp
  have hv := value_mem_of_mem_zipWith (List.mem_filter.mp hp).1
  rw [ValueEncoder.decode, stringData_readBlock] at hv
  split at hv
  · simp at hv
  · exact stringBytes_decodeValues _ _ _ hv

theorem SSTableReader.readRange_subset {r : SSTableReader} {range wide : TimeRange}
    (hstart : wide.start ≤ range.start) (hstop : range.stop ≤ wide.stop) :
    r.readRange range ⊆ r.readRange wide := by
  intro p hp
  obtain ⟨idx, hidx, hp⟩ := List.mem_flatMap.mp hp
  obtain ⟨hidx, hov⟩ := List.mem_filter.mp hidx
  obtain ⟨hp, hin⟩ := List.mem_filter.mp hp
  rw [TimeRange.overlaps_iff] at hov
  rw [TimeRange.contains_iff] at hin
  refine List.mem_flatMap.mpr ⟨idx, List.mem_filter.mpr ⟨hidx, ?_⟩, List.mem_filter.mpr ⟨hp, ?_⟩⟩
  · rw [TimeRange.overlaps_iff]
    exact ⟨by grind, by grind⟩
  · rw [TimeRange.contains_iff]
    exact ⟨by grind, by grind⟩

/-! ## Points that were never written -/

/-- Each point the query returns was written, and is not returned more often than that. -/
def NeverInvents (lists : List (List DataPoint)) (range : TimeRange) : Prop :=
  ∀ result, queryFile (tableBytes lists) range = some result → result.Subperm lists.flatten

/-- No block that the query reads has a padding point in the range. -/
def NoPaddingIn (lists : List (List DataPoint)) (range : TimeRange) : Prop :=
  ∀ points ∈ lists, (blockRange points).overlaps range = true →
    ∀ p ∈ paddingPoints points, range.contains p.ts = false

instance (lists : List (List DataPoint)) (range : TimeRange) :
    Decidable (NoPaddingIn lists range) :=
  inferInstanceAs (Decidable (∀ points ∈ lists, (blockRange points).overlaps range = true →
    ∀ p ∈ paddingPoints points, range.contains p.ts = false))

def phantoms (lists : List (List DataPoint)) (range : TimeRange) : List DataPoint :=
  lists.flatMap fun points =>
    if (blockRange points).overlaps range then
      (paddingPoints points).filter fun p => range.contains p.ts
    else []

theorem phantoms_eq_nil_iff {lists : List (List DataPoint)} {range : TimeRange} :
    phantoms lists range = [] ↔ NoPaddingIn lists range := by
  simp only [phantoms, List.flatMap_eq_nil_iff, NoPaddingIn]
  refine forall₂_congr fun points _ => ?_
  split
  case isTrue hov =>
    simp only [hov, forall_true_left, List.filter_eq_nil_iff, Bool.not_eq_true]
  case isFalse hov => simp [hov]

theorem mem_blockRange {points : List DataPoint}
    (hsorted : points.Pairwise fun p q => p.ts < q.ts) {p : DataPoint} (hp : p ∈ points) :
    (blockRange points).start ≤ p.ts ∧ p.ts ≤ (blockRange points).stop := by
  obtain ⟨before, after, rfl⟩ := List.append_of_mem hp
  rw [List.pairwise_append, List.pairwise_cons] at hsorted
  obtain ⟨-, ⟨hafter, -⟩, hbefore⟩ := hsorted
  constructor
  · cases before with
    | nil => simp [blockRange]
    | cons q qs =>
      have hq : q.ts < p.ts := hbefore q (by simp) p (by simp)
      simp only [blockRange, List.cons_append, List.head?_cons, Option.map_some,
        Option.getD_some]
      grind
  · rcases List.eq_nil_or_concat after with rfl | ⟨qs, q, rfl⟩
    · simp [blockRange]
    · have hq : p.ts < q.ts := hafter q (by simp)
      have hlast : (before ++ p :: qs.concat q).getLast? = some q := by
        rw [List.concat_eq_append, ← List.cons_append, ← List.append_assoc, List.getLast?_concat]
      simp only [blockRange, hlast, Option.map_some, Option.getD_some]
      grind

theorem queryBlock_eq {points : List DataPoint} {range : TimeRange}
    (hsorted : points.Pairwise fun p q => p.ts < q.ts) (hfits : FitsInt32 (tsOf points)) :
    queryBlock range points = (points.filter fun p => range.contains p.ts)
      ++ if (blockRange points).overlaps range then
          (paddingPoints points).filter fun p => range.contains p.ts
        else [] := by
  rw [queryBlock, hfits.storedPoints_eq]
  split
  case isTrue => rw [List.filter_append]
  case isFalse hov =>
    -- a block out of the range has no point in it
    have hnone : (points.filter fun p => range.contains p.ts) = [] := by
      rw [List.filter_eq_nil_iff]
      intro p hp hin
      obtain ⟨hlo, hhi⟩ := mem_blockRange hsorted hp
      rw [TimeRange.contains_iff] at hin
      exact hov (TimeRange.overlaps_iff.mpr ⟨by grind, by grind⟩)
    simp [hnone]

/-- Anything a filter let through a second time is one too many. -/
private theorem filter_append_subperm_iff {α : Type} [DecidableEq α] {q : α → Bool}
    {xs extra : List α} (hextra : ∀ x ∈ extra, q x = true) :
    (xs.filter q ++ extra).Subperm xs ↔ extra = [] := by
  constructor
  · intro hsub
    refine List.eq_nil_iff_forall_not_mem.mpr fun x hx => ?_
    have hcount := hsub.count_le x
    have hfilter : (xs.filter q).count x = xs.count x := List.count_filter (hextra x hx)
    have hpos : 0 < extra.count x := List.count_pos_iff.mpr hx
    rw [List.count_append, hfilter] at hcount
    omega
  · rintro rfl
    rw [List.append_nil]
    exact List.filter_sublist.subperm

/-- **A range query invents nothing exactly when no padding point lies in the range** of a block
it reads. -/
theorem neverInvents_iff {lists : List (List DataPoint)} {range : TimeRange}
    (hcount : lists.length < 2 ^ 32) (hfit : ∀ points ∈ lists, StreamsFit points)
    (hdouble : ∀ points ∈ lists, AllDoubles points)
    (hsorted : ∀ points ∈ lists, points.Pairwise fun p q => p.ts < q.ts)
    (hfits : ∀ points ∈ lists, FitsInt32 (tsOf points)) :
    NeverInvents lists range ↔ NoPaddingIn lists range := by
  have hresult : (lists.flatMap (queryBlock range)).Perm
      ((lists.flatten.filter fun p => range.contains p.ts) ++ phantoms lists range) := by
    rw [List.flatMap_congr fun points hp => queryBlock_eq (hsorted points hp) (hfits points hp),
      List.filter_flatten, ← List.flatMap_def]
    exact (List.flatMap_append_perm lists _ _).symm
  have hin : ∀ p ∈ phantoms lists range, range.contains p.ts = true := by
    intro p hp
    obtain ⟨points, -, hp⟩ := List.mem_flatMap.mp hp
    split at hp
    · exact (List.mem_filter.mp hp).2
    · simp at hp
  rw [← phantoms_eq_nil_iff, ← filter_append_subperm_iff hin, NeverInvents,
    queryFile_tableBytes hcount hfit fun points hp => (hdouble points hp).noStringData]
  simp only [Option.some.injEq, forall_eq']
  exact hresult.subperm_right

/-- Two points one second apart, asked for up to the second one. -/
theorem neverInvents_iff_twoSeconds :
    NeverInvents [[⟨1000000, .double 0⟩, ⟨2000000, .double 0⟩]] ⟨0, 2000000⟩ :=
  (neverInvents_iff (by decide) (streamsFit_of_lengths (by decide)) (by decide) (by decide)
    (by decide)).mpr (by decide)

def twoPoints : List DataPoint := [⟨0, .double 0⟩, ⟨1, .double 0⟩]

/-- **A point nobody wrote**: asked for `[0, 10]`, the file of two points answers with three. -/
theorem query_twoPoints_invents :
    (∀ points ∈ [twoPoints], AllDoubles points ∧ FitsInt32 (tsOf points) ∧
        points.Pairwise fun p q => p.ts < q.ts) ∧
      queryFile (tableBytes [twoPoints]) ⟨0, 10⟩
        = some [⟨0, .double 0⟩, ⟨1, .double 0⟩, ⟨2, .double 0⟩] ∧
      ¬ NeverInvents [twoPoints] ⟨0, 10⟩ := by
  have hread : queryFile (tableBytes [twoPoints]) ⟨0, 10⟩
      = some [⟨0, .double 0⟩, ⟨1, .double 0⟩, ⟨2, .double 0⟩] := by
    rw [queryFile_tableBytes (by decide) (streamsFit_of_lengths (by decide)) (by decide)]
    decide
  refine ⟨by decide, hread, fun hnever => ?_⟩
  have hlen := (hnever _ hread).length_le
  revert hlen
  decide

/-! ## Points that are not found -/

/-- Each written point that lies in the range is returned, as often as it was written. -/
def LosesNothing (points : List DataPoint) (range : TimeRange) : Prop :=
  ∃ result, queryFile (tableBytes [points]) range = some result ∧
    (points.filter fun p => range.contains p.ts).Subperm result

/-- **A range query loses nothing exactly when the first and the last timestamp meet the range**,
if any point does. -/
theorem losesNothing_iff {points : List DataPoint} {range : TimeRange} (hfit : StreamsFit points)
    (hdouble : AllDoubles points) (hfits : FitsInt32 (tsOf points)) :
    LosesNothing points range ↔
      ((∃ p ∈ points, range.contains p.ts = true) →
        (blockRange points).overlaps range = true) := by
  rw [LosesNothing, queryFile_tableBytes (by simp) (by simpa using hfit)
    (by simpa using hdouble.noStringData)]
  simp only [List.flatMap_cons, List.flatMap_nil, List.append_nil, Option.some.injEq,
    exists_eq_left', queryBlock, hfits.storedPoints_eq]
  by_cases hov : (blockRange points).overlaps range = true
  · rw [if_pos hov, List.filter_append]
    exact ⟨fun _ _ => hov, fun _ => (List.sublist_append_left _ _).subperm⟩
  · rw [if_neg hov, List.subperm_nil, List.filter_eq_nil_iff]
    constructor
    · rintro hnone ⟨p, hp, hin⟩
      exact absurd hin (hnone p hp)
    · intro hmeets p hp hin
      exact hov (hmeets ⟨p, hp, hin⟩)

/-- Points out of order whose first and last are around the range. -/
theorem losesNothing_iff_unsorted :
    LosesNothing [⟨5, .double 0⟩, ⟨7, .double 0⟩, ⟨6, .double 0⟩] ⟨5, 6⟩ :=
  (losesNothing_iff (streamsFit_of_length (by decide)) (by decide) (by decide)).mpr
    fun _ => by decide

def valley : List DataPoint := [⟨10, .double 0⟩, ⟨5, .double 0⟩, ⟨7, .double 0⟩]

/-- **A written point is not found**: the block of `valley` has the range `[10, 7]`, which does
not overlap `[5, 5]`. -/
theorem query_valley_loses :
    AllDoubles valley ∧ FitsInt32 (tsOf valley) ∧
      queryFile (tableBytes [valley]) ⟨5, 5⟩ = some [] ∧ ¬ LosesNothing valley ⟨5, 5⟩ := by
  have hread : queryFile (tableBytes [valley]) ⟨5, 5⟩ = some [] := by
    rw [queryFile_tableBytes (by decide) (streamsFit_of_lengths (by decide)) (by decide)]
    decide
  refine ⟨by decide, by decide, hread, ?_⟩
  rintro ⟨result, hresult, hsub⟩
  rw [hread, Option.some.injEq] at hresult
  subst hresult
  rw [List.subperm_nil] at hsub
  revert hsub
  decide

/-! ## Points that come back with another value -/

/-- Each written point is returned, with its own value. -/
def BringsBack (lists : List (List DataPoint)) (range : TimeRange) : Prop :=
  ∃ result, queryFile (tableBytes lists) range = some result ∧
    ∀ points ∈ lists, ∀ p ∈ points, p ∈ result

theorem noStringData_queryFile {data : Bytes} {range : TimeRange} {result : List DataPoint}
    (h : queryFile data range = some result) : NoStringData result := by
  obtain ⟨r, -, rfl⟩ := Option.map_eq_some_iff.mp h
  exact r.noStringData_readRange range

/-- **A file brings back every point exactly if no string is other than empty**: the values are
stored, the side buffer with the strings is not. -/
theorem bringsBack_iff {lists : List (List DataPoint)} {range : TimeRange}
    (hcount : lists.length < 2 ^ 32) (hfit : ∀ points ∈ lists, StreamsFit points)
    (hsorted : ∀ points ∈ lists, points.Pairwise fun p q => p.ts < q.ts)
    (hfits : ∀ points ∈ lists, FitsInt32 (tsOf points))
    (hrange : ∀ t, range.contains t = true) :
    BringsBack lists range ↔ ∀ points ∈ lists, ∀ p ∈ points, stringBytes p.value = [] := by
  constructor
  · intro ⟨result, hquery, hback⟩ points hpoints p hp
    exact noStringData_queryFile hquery p (hback points hpoints p hp)
  · intro hstr
    refine ⟨_, queryFile_tableBytes hcount hfit hstr range, ?_⟩
    intro points hpoints p hp
    refine List.mem_flatMap.mpr ⟨points, hpoints, ?_⟩
    rw [queryBlock_eq (hsorted points hpoints) (hfits points hpoints)]
    exact List.mem_append_left _ (List.mem_filter.mpr ⟨hp, hrange p.ts⟩)

/-- Every timestamp there is. -/
def fullRange : TimeRange := { start := Int64.minValue, stop := Int64.maxValue }

theorem fullRange_contains (t : Timestamp) : fullRange.contains t = true := by
  rw [TimeRange.contains_iff, Int64.le_iff_toInt_le, Int64.le_iff_toInt_le]
  exact ⟨Int64.minValue_le_toInt t, Int64.toInt_le t⟩

/-- Doubles, integers and the empty string, in two blocks. -/
theorem bringsBack_iff_mixed :
    BringsBack [[⟨0, .double 0⟩, ⟨1000000, .int64 7⟩], [⟨5, .string []⟩, ⟨6, .int64 (-1)⟩]]
      fullRange :=
  (bringsBack_iff (by decide) (streamsFit_of_lengths (by decide)) (by decide) (by decide)
    fullRange_contains).mpr (by decide)

/-- **A string comes back empty.** -/
theorem query_string_lost :
    StreamsFit [⟨0, .string (ascii "on")⟩] ∧
      ¬ BringsBack [[⟨0, .string (ascii "on")⟩]] fullRange := by
  refine ⟨streamsFit_of_length (by decide), ?_⟩
  intro ⟨result, hquery, hback⟩
  have hempty := noStringData_queryFile hquery _ (hback _ List.mem_cons_self _ List.mem_cons_self)
  revert hempty
  decide

end Storage
end MiniTSDB
