import MiniTSDB.Lib.GroupFold
import MiniTSDB.Lib.Rounding
import MiniTSDB.Storage.Engine
import Mathlib.Order.Bounds.Basic

/-!
# `StorageEngine::ReadAggregated` (`engine.cpp`)

The raw points are folded into buckets, by the multiple of the width that the division of
`int64_t` leaves of their timestamp, and the buckets are sorted. The values are of any ordered type
with the operations the code does on its doubles.

The division rounds towards zero. A bucket's points lie in the window behind its timestamp exactly
if no timestamp before 1970 is off the grid (`aggregate_partitions_iff`): of the others the window
is on the wrong side.
-/

namespace MiniTSDB
namespace Storage

open Lib Os

/-- `StorageEngine::AggResult`. -/
structure AggResult (V : Type) where
  bucketTs : Timestamp
  avg : V
  max : V
  min : V
  sum : V
  count : Nat
  firstTs : Timestamp
  firstVal : V
  lastTs : Timestamp
  lastVal : V
  sumSq : V
  deriving DecidableEq, Repr

def AggResult.empty (V : Type) [Zero V] : AggResult V :=
  { bucketTs := 0, avg := 0, max := 0, min := 0, sum := 0, count := 0, firstTs := 0, firstVal := 0,
    lastTs := 0, lastVal := 0, sumSq := 0 }

/-- The order the results are sorted by. -/
def bucketKey {V : Type} (b : AggResult V) : Int := b.bucketTs.toInt

/-- `(p.ts / bucket_ms) * bucket_ms`. -/
def bucketTsOf (bucketMs ts : Int64) : Timestamp := ts / bucketMs * bucketMs

/-! ## Windows -/

/-- The bucket's window: from its timestamp on, up to the next one's. -/
def InWindow (bucketMs : Int64) (k ts : Timestamp) : Prop :=
  k.toInt ≤ ts.toInt ∧ ts.toInt < k.toInt + bucketMs.toInt

instance decidableInWindow (bucketMs : Int64) (k ts : Timestamp) :
    Decidable (InWindow bucketMs k ts) :=
  inferInstanceAs (Decidable (_ ∧ _))

/-- The timestamp lies in the window of the bucket the division puts it into. -/
def OnGrid (bucketMs : Int64) (ts : Timestamp) : Prop := 0 ≤ ts ∨ ts % bucketMs = 0

instance decidableOnGrid (bucketMs : Int64) (ts : Timestamp) : Decidable (OnGrid bucketMs ts) :=
  inferInstanceAs (Decidable (_ ∨ _))

section
variable {bucketMs : Int64} (hpos : 0 < bucketMs)
include hpos

theorem toInt_bucketMs_pos : 0 < bucketMs.toInt := Int64.lt_iff_toInt_lt.mp hpos

/-- Nothing overflows. -/
theorem toInt_bucketTsOf (ts : Timestamp) :
    (bucketTsOf bucketMs ts).toInt = ts.toInt.tdiv bucketMs.toInt * bucketMs.toInt := by
  have hint := toInt_bucketMs_pos hpos
  have hne : bucketMs ≠ -1 := by
    intro h
    rw [h] at hpos
    exact absurd hpos (by decide)
  obtain ⟨hup, hdown⟩ := tdiv_mul_between (t := ts.toInt) hint
  have hlo := Int64.le_toInt ts
  have hhi := Int64.toInt_lt ts
  rw [bucketTsOf, Int64.toInt_mul, Int64.toInt_div_of_ne_right _ _ hne]
  rcases Int.le_total 0 ts.toInt with h | h
  · have hbetween := hup h
    exact Int.bmod_eq_of_le (by omega) (by omega)
  · have hbetween := hdown h
    exact Int.bmod_eq_of_le (by omega) (by omega)

theorem dvd_bucketTsOf (ts : Timestamp) : bucketMs.toInt ∣ (bucketTsOf bucketMs ts).toInt := by
  rw [toInt_bucketTsOf hpos]
  exact ⟨_, Int.mul_comm _ _⟩

theorem inWindow_bucketTsOf_iff {ts : Timestamp} :
    InWindow bucketMs (bucketTsOf bucketMs ts) ts ↔ OnGrid bucketMs ts := by
  have hint := toInt_bucketMs_pos hpos
  have hmod : ts % bucketMs = 0 ↔ bucketMs.toInt ∣ ts.toInt := by
    rw [← Int64.toInt_inj, Int64.toInt_mod]
    exact Int.dvd_iff_tmod_eq_zero.symm
  rw [InWindow, toInt_bucketTsOf hpos, and_iff_left (lt_tdiv_mul_add hint), tdiv_mul_le_iff hint,
    OnGrid, hmod, Int64.le_iff_toInt_le]
  rfl

end

/-! ## One bucket -/

section
variable {V : Type} [LinearOrder V] [Zero V] [Add V] [Mul V]

/-- What is aggregated of a value: the double, and `0.0` of the other types. -/
def aggValue (ofBits : UInt64 → V) : Value → V
  | .double bits => ofBits bits
  | _ => 0

/-- The body of the loop over the raw points. -/
def AggResult.addPoint (ofBits : UInt64 → V) (bucketMs : Int64) (b : AggResult V) (p : DataPoint) :
    AggResult V :=
  let val := aggValue ofBits p.value
  let b := if b.count = 0 then
      { b with bucketTs := bucketTsOf bucketMs p.ts, firstTs := p.ts, firstVal := val }
    else b
  let b := { b with
    count := b.count + 1, sum := b.sum + val, sumSq := b.sumSq + val * val, lastTs := p.ts,
    lastVal := val }
  let b := if b.count = 1 ∨ val > b.max then { b with max := val } else b
  if b.count = 1 ∨ val < b.min then { b with min := val } else b

/-- What `ReadAggregated` makes of the raw points. The order of the unordered map does not come
through the sort: no two buckets have one timestamp. -/
def aggregate [Div V] [NatCast V] (sort : KeySort (bucketKey (V := V))) (ofBits : UInt64 → V)
    (bucketMs : Int64) (raw : List DataPoint) : List (AggResult V) :=
  if raw = [] then []
  else
    let buckets := groupFold (fun p => bucketTsOf bucketMs p.ts) (AggResult.empty V)
      (AggResult.addPoint ofBits bucketMs) raw
    sort.sort (buckets.entries.map fun e => { e.2 with avg := e.2.sum / e.2.count })

/-- `StorageEngine::ReadAggregated`; the aggregation asked for is not looked at. -/
def Engine.readAggregated {Loc : Type} [DecidableEq Loc] [Div V] [NatCast V] (env : Env Loc)
    (s : KeySort tsKey) (sort : KeySort (bucketKey (V := V))) (ofBits : UInt64 → V)
    (e : Engine Loc) (tag : Bytes) (range : TimeRange) (entries : List DirEntry)
    (bucketMs : Int64) : List (AggResult V) :=
  aggregate sort ofBits bucketMs (e.readRaw env s tag range entries)

/-- What a bucket says of a list of points. -/
structure AggResult.Summary (ofBits : UInt64 → V) (b : AggResult V) (points : List DataPoint) :
    Prop where
  count : b.count = points.length
  first : ∃ p, points.head? = some p ∧ b.firstTs = p.ts ∧ b.firstVal = aggValue ofBits p.value
  last : ∃ p, points.getLast? = some p ∧ b.lastTs = p.ts ∧ b.lastVal = aggValue ofBits p.value
  max : IsGreatest {v | ∃ p ∈ points, aggValue ofBits p.value = v} b.max
  min : IsLeast {v | ∃ p ∈ points, aggValue ofBits p.value = v} b.min

variable {ofBits : UInt64 → V} {bucketMs : Int64}

theorem summary_addPoint_empty (p : DataPoint) :
    ((AggResult.empty V).addPoint ofBits bucketMs p).Summary ofBits [p] ∧
      ((AggResult.empty V).addPoint ofBits bucketMs p).bucketTs = bucketTsOf bucketMs p.ts := by
  have hnew : (AggResult.empty V).addPoint ofBits bucketMs p =
      { bucketTs := bucketTsOf bucketMs p.ts, avg := 0, max := aggValue ofBits p.value,
        min := aggValue ofBits p.value, sum := 0 + aggValue ofBits p.value, count := 1,
        firstTs := p.ts, firstVal := aggValue ofBits p.value, lastTs := p.ts,
        lastVal := aggValue ofBits p.value,
        sumSq := 0 + aggValue ofBits p.value * aggValue ofBits p.value } := by
    simp [AggResult.addPoint, AggResult.empty]
  rw [hnew]
  refine ⟨⟨rfl, ⟨p, rfl, rfl, rfl⟩, ⟨p, rfl, rfl, rfl⟩, ?_, ?_⟩, rfl⟩
  · exact ⟨⟨p, List.mem_singleton.mpr rfl, rfl⟩, by simp [upperBounds]⟩
  · exact ⟨⟨p, List.mem_singleton.mpr rfl, rfl⟩, by simp [lowerBounds]⟩

/-- Behind the first point of a bucket, the extremes are kept by comparing. -/
theorem addPoint_of_pos {b : AggResult V} (hpos : 0 < b.count) (p : DataPoint) :
    b.addPoint ofBits bucketMs p = { b with
      count := b.count + 1
      sum := b.sum + aggValue ofBits p.value
      sumSq := b.sumSq + aggValue ofBits p.value * aggValue ofBits p.value
      lastTs := p.ts
      lastVal := aggValue ofBits p.value
      max := max (aggValue ofBits p.value) b.max
      min := min (aggValue ofBits p.value) b.min } := by
  have hmax : (if aggValue ofBits p.value > b.max then aggValue ofBits p.value else b.max)
      = max (aggValue ofBits p.value) b.max := by
    split
    · exact (max_eq_left (le_of_lt ‹_›)).symm
    · exact (max_eq_right (not_lt.mp ‹_›)).symm
  have hmin : (if aggValue ofBits p.value < b.min then aggValue ofBits p.value else b.min)
      = min (aggValue ofBits p.value) b.min := by
    split
    · exact (min_eq_left (le_of_lt ‹_›)).symm
    · exact (min_eq_right (not_lt.mp ‹_›)).symm
  rw [← hmax, ← hmin, AggResult.addPoint]
  have hzero : b.count ≠ 0 := Nat.ne_of_gt hpos
  by_cases hgt : aggValue ofBits p.value > b.max
  · by_cases hlt : aggValue ofBits p.value < b.min
    · simp [hzero, hgt, hlt]
    · simp [hzero, hgt, hlt]
  · by_cases hlt : aggValue ofBits p.value < b.min
    · simp [hzero, hgt, hlt]
    · simp [hzero, hgt, hlt]

theorem summary_addPoint {b : AggResult V} {points : List DataPoint}
    (h : b.Summary ofBits points) (p : DataPoint) :
    (b.addPoint ofBits bucketMs p).Summary ofBits (points ++ [p]) ∧
      (b.addPoint ofBits bucketMs p).bucketTs = b.bucketTs := by
  obtain ⟨q, hhead, hfirstTs, hfirstVal⟩ := h.first
  have hpos : 0 < b.count := by
    rw [h.count]
    exact List.length_pos_of_mem (List.mem_of_mem_head? hhead)
  have hvalues : {v | ∃ q ∈ points ++ [p], aggValue ofBits q.value = v}
      = insert (aggValue ofBits p.value) {v | ∃ q ∈ points, aggValue ofBits q.value = v} := by
    ext v
    simp [or_comm, eq_comm]
  rw [addPoint_of_pos hpos]
  refine ⟨⟨?_, ⟨q, ?_, hfirstTs, hfirstVal⟩, ⟨p, List.getLast?_concat .., rfl, rfl⟩, ?_, ?_⟩, rfl⟩
  · rw [List.length_append, List.length_singleton, ← h.count]
  · rw [List.head?_append, hhead]
    rfl
  · rw [hvalues]
    exact h.max.insert _
  · rw [hvalues]
    exact h.min.insert _

variable (ofBits) in
theorem summary_foldl {k : Timestamp} {points : List DataPoint} (hne : points ≠ [])
    (hkey : ∀ p ∈ points, bucketTsOf bucketMs p.ts = k) :
    (points.foldl (AggResult.addPoint ofBits bucketMs) (AggResult.empty V)).Summary ofBits points ∧
      (points.foldl (AggResult.addPoint ofBits bucketMs) (AggResult.empty V)).bucketTs = k := by
  induction points using List.reverseRecOn with
  | nil => exact absurd rfl hne
  | append_singleton points p ih =>
    rw [List.foldl_append, List.foldl_cons, List.foldl_nil]
    by_cases hnil : points = []
    · rw [hnil, List.foldl_nil, List.nil_append, ← hkey p (by simp)]
      exact summary_addPoint_empty p
    · obtain ⟨hsummary, hbucket⟩ := ih hnil fun q hq => hkey q (List.mem_append_left _ hq)
      rw [← hbucket]
      exact summary_addPoint hsummary p

/-! ## All buckets -/

/-- The points that the division puts into the bucket of this timestamp. -/
def bucketPoints (bucketMs : Int64) (k : Timestamp) (raw : List DataPoint) : List DataPoint :=
  group (fun p => bucketTsOf bucketMs p.ts) k raw

theorem mem_bucketPoints {k : Timestamp} {raw : List DataPoint} {p : DataPoint} :
    p ∈ bucketPoints bucketMs k raw ↔ p ∈ raw ∧ bucketTsOf bucketMs p.ts = k := by
  simp [bucketPoints, group]

omit [Add V] [Mul V] in
/-- A bucket whose first point is its window's first has all of its points behind its timestamp. -/
theorem le_of_summaries {raw : List DataPoint} (hsorted : raw.Pairwise fun p q => p.ts < q.ts) {b : AggResult V}
    {k : Timestamp} (hcode : b.Summary ofBits (bucketPoints bucketMs k raw))
    (hwindow : b.Summary ofBits (raw.filter fun p => InWindow bucketMs k p.ts))
    {p : DataPoint} (hp : p ∈ bucketPoints bucketMs k raw) : k.toInt ≤ p.ts.toInt := by
  obtain ⟨q, hq, hqts, -⟩ := hcode.first
  obtain ⟨q', hq', hqts', -⟩ := hwindow.first
  have hin := (List.mem_filter.mp (List.mem_of_mem_head? hq')).2
  have hle : k.toInt ≤ q'.ts.toInt := (of_decide_eq_true hin).1
  obtain ⟨rest, hrest⟩ : ∃ rest, bucketPoints bucketMs k raw = q :: rest := by
    cases hpoints : bucketPoints bucketMs k raw with
    | nil =>
      rw [hpoints] at hq
      cases hq
    | cons x rest =>
      rw [hpoints] at hq
      cases hq
      exact ⟨rest, rfl⟩
  have hfirst : q.ts.toInt ≤ p.ts.toInt := by
    have hgroup : (bucketPoints bucketMs k raw).Pairwise fun p q => p.ts < q.ts :=
      hsorted.sublist List.filter_sublist
    rw [hrest] at hp hgroup
    cases List.mem_cons.mp hp with
    | inl heq => rw [heq]
    | inr hmem =>
      exact Int.le_of_lt (Int64.lt_iff_toInt_lt.mp ((List.pairwise_cons.mp hgroup).1 p hmem))
  rw [← hqts', hqts] at hle
  exact Int.le_trans hle hfirst

/-- The map's key is the bucket's timestamp. -/
theorem bucketTs_of_mem_entries {raw : List DataPoint} {e : Sigma fun _ : Timestamp => AggResult V}
    (h : e ∈ (groupFold (fun p => bucketTsOf bucketMs p.ts) (AggResult.empty V)
      (AggResult.addPoint ofBits bucketMs) raw).entries) :
    bucketPoints bucketMs e.1 raw ≠ [] ∧
      e.2.Summary ofBits (bucketPoints bucketMs e.1 raw) ∧ e.2.bucketTs = e.1 := by
  obtain ⟨hne, hfold⟩ := (mem_entries_groupFold _ _ _).mp h
  obtain ⟨hsummary, hbucket⟩ := summary_foldl ofBits hne fun p hp =>
    (mem_bucketPoints.mp hp).2
  rw [← hfold] at hsummary hbucket
  exact ⟨hne, hsummary, hbucket⟩

variable [Div V] [NatCast V] {sort : KeySort (bucketKey (V := V))} {raw : List DataPoint}

/-- **The results are the buckets that have points.** -/
theorem mem_aggregate {b : AggResult V} (h : b ∈ aggregate sort ofBits bucketMs raw) :
    bucketPoints bucketMs b.bucketTs raw ≠ [] ∧
      b.Summary ofBits (bucketPoints bucketMs b.bucketTs raw) := by
  rw [aggregate] at h
  split at h
  · cases h
  · obtain ⟨e, he, hb⟩ := List.mem_map.mp ((sort.perm _).mem_iff.mp h)
    obtain ⟨hne, hsummary, hbucket⟩ := bucketTs_of_mem_entries he
    have hts : b.bucketTs = e.1 := by
      rw [← hb]
      exact hbucket
    rw [hts, ← hb]
    exact ⟨hne, hsummary.count, hsummary.first, hsummary.last, hsummary.max, hsummary.min⟩

variable (sort ofBits) in
theorem exists_mem_aggregate {p : DataPoint} (hp : p ∈ raw) :
    ∃ b ∈ aggregate sort ofBits bucketMs raw, b.bucketTs = bucketTsOf bucketMs p.ts := by
  have hraw : raw ≠ [] := List.ne_nil_of_mem hp
  obtain ⟨e, he, hkey⟩ := exists_mem_entries_groupFold (fun p => bucketTsOf bucketMs p.ts)
    (AggResult.empty V) (AggResult.addPoint ofBits bucketMs) hp
  have hbucket := (bucketTs_of_mem_entries he).2.2
  rw [aggregate, if_neg hraw]
  exact ⟨_, (sort.perm _).mem_iff.mpr (List.mem_map_of_mem he), hbucket.trans hkey⟩

theorem aggregate_increasing :
    (aggregate sort ofBits bucketMs raw).Pairwise fun a b => a.bucketTs < b.bucketTs := by
  rw [aggregate]
  split
  · exact .nil
  · generalize hbuckets : groupFold (fun p => bucketTsOf bucketMs p.ts) (AggResult.empty V)
      (AggResult.addPoint ofBits bucketMs) raw = buckets
    have hkeys : (buckets.entries.map fun e => { e.2 with avg := e.2.sum / e.2.count }).map
        AggResult.bucketTs = buckets.keys := by
      rw [List.map_map, AList.keys, List.keys]
      refine List.map_congr_left ?_
      intro e he
      rw [← hbuckets] at he
      exact (bucketTs_of_mem_entries he).2.2
    have hnodup := buckets.keys_nodup
    rw [← hkeys, ← ((sort.perm _).map AggResult.bucketTs).nodup_iff, List.nodup_iff_pairwise_ne,
      List.pairwise_map] at hnodup
    refine ((sort.sorted _).and hnodup).imp ?_
    intro a b ⟨hle, hne⟩
    have hlt : a.bucketTs.toInt < b.bucketTs.toInt :=
      lt_of_le_of_ne hle fun heq => hne (Int64.toInt_inj.mp heq)
    exact Int64.lt_iff_toInt_lt.mpr hlt

/-- The results are the raw points, window by window. -/
structure Partitions (ofBits : UInt64 → V) (bucketMs : Int64) (raw : List DataPoint)
    (results : List (AggResult V)) : Prop where
  increasing : results.Pairwise fun a b => a.bucketTs < b.bucketTs
  multiple : ∀ b ∈ results, bucketMs.toInt ∣ b.bucketTs.toInt
  counted : ∀ p ∈ raw, ∃! b, b ∈ results ∧ InWindow bucketMs b.bucketTs p.ts
  summary : ∀ b ∈ results,
    b.Summary ofBits (raw.filter fun p => InWindow bucketMs b.bucketTs p.ts)

theorem dvd_bucketTs {b : AggResult V} (hpos : 0 < bucketMs)
    (hb : b ∈ aggregate sort ofBits bucketMs raw) : bucketMs.toInt ∣ b.bucketTs.toInt := by
  obtain ⟨p, hp⟩ := List.exists_mem_of_ne_nil _ (mem_aggregate hb).1
  rw [← (mem_bucketPoints.mp hp).2]
  exact dvd_bucketTsOf hpos p.ts

/-- Where every timestamp is in the window of its bucket, the points of a bucket are those of its
window. -/
theorem bucketPoints_eq_filter (hpos : 0 < bucketMs) (hgrid : ∀ p ∈ raw, OnGrid bucketMs p.ts)
    {k : Timestamp} (hk : bucketMs.toInt ∣ k.toInt) :
    bucketPoints bucketMs k raw = raw.filter fun p => InWindow bucketMs k p.ts := by
  refine List.filter_congr ?_
  intro p hp
  have hown := (inWindow_bucketTsOf_iff hpos).mpr (hgrid p hp)
  rw [decide_eq_decide]
  constructor
  · intro hkey
    rwa [← hkey]
  · intro hin
    exact Int64.toInt_inj.mp (eq_of_windows (dvd_bucketTsOf hpos p.ts) hk hown hin)

/-- **The results are the raw points, window by window, exactly if no timestamp before 1970 is off
the grid of the buckets.** -/
theorem aggregate_partitions_iff (hpos : 0 < bucketMs)
    (hsorted : raw.Pairwise fun p q => p.ts < q.ts) :
    Partitions ofBits bucketMs raw (aggregate sort ofBits bucketMs raw) ↔
      ∀ p ∈ raw, OnGrid bucketMs p.ts := by
  constructor
  · intro h p hp
    obtain ⟨b, hb, hkey⟩ := exists_mem_aggregate ofBits sort hp
    have hle := le_of_summaries hsorted (mem_aggregate hb).2 (h.summary b hb)
      (mem_bucketPoints.mpr ⟨hp, hkey.symm⟩)
    rw [← inWindow_bucketTsOf_iff hpos, ← hkey]
    refine ⟨hle, ?_⟩
    rw [hkey, toInt_bucketTsOf hpos]
    exact lt_tdiv_mul_add (toInt_bucketMs_pos hpos)
  · intro hgrid
    refine ⟨aggregate_increasing, fun b hb => dvd_bucketTs hpos hb, ?_, ?_⟩
    · intro p hp
      obtain ⟨b, hb, hkey⟩ := exists_mem_aggregate ofBits sort hp
      have hin : InWindow bucketMs b.bucketTs p.ts := by
        rw [hkey]
        exact (inWindow_bucketTsOf_iff hpos).mpr (hgrid p hp)
      refine ⟨b, ⟨hb, hin⟩, ?_⟩
      intro b' ⟨hb', hin'⟩
      have hkeys : (aggregate sort ofBits bucketMs raw).Pairwise fun a b =>
          bucketKey a < bucketKey b :=
        aggregate_increasing.imp fun hlt => Int64.lt_iff_toInt_lt.mp hlt
      have hsame : bucketKey b' = bucketKey b :=
        eq_of_windows (dvd_bucketTs hpos hb') (dvd_bucketTs hpos hb) hin' hin
      exact eq_of_key_eq hkeys hb' hb hsame
    · intro b hb
      rw [← bucketPoints_eq_filter hpos hgrid (dvd_bucketTs hpos hb)]
      exact (mem_aggregate hb).2

end

/-- The raw points of a query come from `ReadRaw` in the order of their timestamps, each timestamp
once. -/
theorem pairwise_readRaw {Loc : Type} (env : Env Loc) (s : KeySort tsKey) (e : Engine Loc)
    (tag : Bytes) (range : TimeRange) (entries : List DirEntry) :
    (e.readRaw env s tag range entries).Pairwise fun p q => p.ts < q.ts :=
  (sortedUnique_spec s _).ascending.imp fun hlt => Int64.lt_iff_toInt_lt.mpr hlt

/-- The values of the examples: the pattern as a number. -/
def patternValue (bits : UInt64) : Int := bits.toNat

/-- Four points, the first before 1970 and on the grid of ten. -/
theorem aggregate_partitions_iff_onGrid :
    Partitions patternValue 10 [⟨-20, .double 5⟩, ⟨3, .double 1⟩, ⟨9, .double 4⟩, ⟨10, .double 2⟩]
      (aggregate (KeySort.stable bucketKey) patternValue 10
        [⟨-20, .double 5⟩, ⟨3, .double 1⟩, ⟨9, .double 4⟩, ⟨10, .double 2⟩]) :=
  (aggregate_partitions_iff (by decide) (by decide)).mpr (by decide)

/-- **A microsecond before 1970** is counted in the bucket that begins with 1970. -/
theorem aggregate_before_1970 :
    aggregate (KeySort.stable bucketKey) patternValue 10 [⟨-1, .double 7⟩]
        = [⟨0, 7, 7, 7, 7, 1, -1, 7, -1, 7, 49⟩] ∧
      ¬ Partitions patternValue 10 [⟨-1, .double 7⟩]
        (aggregate (KeySort.stable bucketKey) patternValue 10 [⟨-1, .double 7⟩]) := by
  have hrun : aggregate (KeySort.stable bucketKey) patternValue 10 [⟨-1, .double 7⟩]
      = [⟨0, 7, 7, 7, 7, 1, -1, 7, -1, 7, 49⟩] := by decide
  refine ⟨hrun, ?_⟩
  rw [hrun]
  intro h
  obtain ⟨b, ⟨hb, hin⟩, -⟩ := h.counted _ List.mem_cons_self
  rw [List.mem_singleton.mp hb] at hin
  revert hin
  decide

end Storage
end MiniTSDB
