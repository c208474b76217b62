import MiniTSDB.Storage.TimestampCompressor
import MiniTSDB.Storage.ValueEncoder

/-!
# `BlockCompressor` (`compressor.cpp`)

A block is a timestamp stream and a value stream over the same points. Decompressed with its own
`pointCount`, a block gives the restored timestamps paired with the values
(`decompress_compress`). Decompressed with a point count of 0, which is how an SSTable reader
does it (the count is not stored), both streams run into the padding of their last bytes, and
`min` of the two run-overs is the number of points that come out in excess
(`decompress_uncounted`).
-/

namespace MiniTSDB
namespace Storage

open Lib

structure CompressedBlock where
  range : TimeRange := { start := 0, stop := 0 }
  timestamps : Bytes := []
  values : Bytes := []
  stringData : Bytes := []
  pointCount : Nat := 0
  deriving DecidableEq, Repr

abbrev tsOf (points : List DataPoint) : List Timestamp := points.map DataPoint.ts

abbrev valuesOf (points : List DataPoint) : List Value := points.map DataPoint.value

/-- One turn of `Compress`'s loop. -/
def compressPoint (s : TimestampCompressor × ValueEncoder) (p : DataPoint) :
    TimestampCompressor × ValueEncoder :=
  (s.1.encode p.ts, s.2.encode p.value)

/-- `BlockCompressor::Compress`; `tsComp` is the member `ts_comp_`. -/
def BlockCompressor.compress (tsComp : TimestampCompressor) (points : List DataPoint) :
    CompressedBlock :=
  match points with
  | [] => {}
  | p :: ps =>
    let s := points.foldl compressPoint (tsComp.reset, {})
    { range := { start := p.ts, stop := ((p :: ps).getLast (by simp)).ts }
      timestamps := s.1.getBytes
      values := s.2.getBytes
      stringData := s.2.getStringData
      pointCount := points.length }

/-- `BlockCompressor::Decompress`: as many points as both streams gave. -/
def BlockCompressor.decompress (block : CompressedBlock) : List DataPoint :=
  List.zipWith DataPoint.mk
    (TimestampCompressor.decode block.timestamps block.pointCount)
    (ValueEncoder.decode block.values block.stringData block.pointCount)

/-- A block compressed by a compressor just constructed. -/
abbrev compress (points : List DataPoint) : CompressedBlock := BlockCompressor.compress {} points

/-- The compressor's history does not matter: `Compress` resets it. -/
theorem compress_reset (tsComp : TimestampCompressor) (points : List DataPoint) :
    BlockCompressor.compress tsComp points = compress points := by
  cases points <;> rfl

private theorem foldl_compressPoint (points : List DataPoint) (c : TimestampCompressor)
    (e : ValueEncoder) :
    points.foldl compressPoint (c, e)
      = (c.encodeAll (tsOf points), e.encodeAll (valuesOf points)) := by
  induction points generalizing c e with
  | nil => rfl
  | cons p ps ih => exact ih (c.encode p.ts) (e.encode p.value)

theorem timestamps_compress (points : List DataPoint) :
    (compress points).timestamps = (TimestampCompressor.encodeAll {} (tsOf points)).getBytes := by
  cases points with
  | nil => rfl
  | cons p ps =>
    show (List.foldl compressPoint _ (p :: ps)).1.getBytes = _
    rw [foldl_compressPoint, TimestampCompressor.reset]

theorem values_compress (points : List DataPoint) :
    (compress points).values = (ValueEncoder.encodeAll {} (valuesOf points)).getBytes := by
  cases points with
  | nil => rfl
  | cons p ps =>
    show (List.foldl compressPoint _ (p :: ps)).2.getBytes = _
    rw [foldl_compressPoint]

theorem stringData_compress (points : List DataPoint) :
    (compress points).stringData
      = (ValueEncoder.encodeAll {} (valuesOf points)).getStringData := by
  cases points with
  | nil => rfl
  | cons p ps =>
    show (List.foldl compressPoint _ (p :: ps)).2.getStringData = _
    rw [foldl_compressPoint]

theorem length_timestamps_compress_le (points : List DataPoint) :
    (compress points).timestamps.length ≤ 8 * points.length := by
  have hlen : (tsOf points).length = points.length := List.length_map _
  rw [timestamps_compress, ← hlen]
  show (TimestampCompressor.encodeAll {} (tsOf points)).buffer.buf.length ≤ 8 * (tsOf points).length
  cases tsOf points with
  | nil => exact Nat.le_refl 0
  | cons t ts =>
    have hbuf := (encodeAll_holds t ts).length_buf_le
    have hcode := length_timestampCode_le (t :: ts)
    omega

theorem length_values_compress_le (points : List DataPoint) :
    (compress points).values.length ≤ 10 * points.length := by
  have hlen : (valuesOf points).length = points.length := List.length_map _
  rw [values_compress, ← hlen]
  show (ValueEncoder.encodeAll {} (valuesOf points)).buffer.buf.length
    ≤ 10 * (valuesOf points).length
  have hbuf := (ValueEncoder.encodeAll_holds (valuesOf points)).length_buf_le
  have hcode : (valueCode (valuesOf points)).length ≤ 79 * (valuesOf points).length :=
    ValueState.start.length_codeAll_le (valuesOf points)
  omega

@[simp] theorem pointCount_compress (points : List DataPoint) :
    (compress points).pointCount = points.length := by
  cases points <;> rfl

/-- **A block's round trip**: the values come back, the timestamps as `restoreTimestamps`. -/
theorem decompress_compress {points : List DataPoint}
    (hlen : ∀ p ∈ points, (stringBytes p.value).length < 2 ^ 32) :
    BlockCompressor.decompress (compress points)
      = List.zipWith DataPoint.mk (restoreTimestamps (tsOf points)) (valuesOf points) := by
  have hts := decode_counted (tsOf points)
  have hvs := ValueEncoder.decode_counted (valuesOf points) (by simpa using hlen)
  rw [List.length_map] at hts hvs
  rw [BlockCompressor.decompress, pointCount_compress, timestamps_compress, values_compress,
    stringData_compress, hts, hvs]

private theorem zipWith_mk_eq_iff {ts : List Timestamp} {points : List DataPoint}
    (hlen : ts.length = points.length) :
    List.zipWith DataPoint.mk ts (valuesOf points) = points ↔ ts = tsOf points := by
  induction points generalizing ts with
  | nil => simpa using hlen
  | cons p ps ih =>
    cases ts with
    | nil => exact absurd hlen (by simp)
    | cons t ts =>
      simp only [List.length_cons, Nat.add_right_cancel_iff] at hlen
      simp only [List.map_cons, List.zipWith_cons_cons, List.cons.injEq, ih hlen]
      constructor
      · rintro ⟨h, hts⟩
        exact ⟨congrArg DataPoint.ts h, hts⟩
      · rintro ⟨rfl, hts⟩
        exact ⟨rfl, hts⟩

/-! ## The lossless domain -/

/-- The differences of consecutive timestamps, as integers. -/
def deltas : List Timestamp → List Int
  | [] => []
  | t :: ts => diffs t.toInt (ts.map Int64.toInt)

/-- The delta-of-deltas of a timestamp list, as integers; the first delta is taken against 0. -/
def deltaOfDeltas : List Timestamp → List Int
  | [] => []
  | t :: ts => secondDiffs t.toInt 0 (ts.map Int64.toInt)

/-- No `int64_t` subtraction of `Encode` overflows on the list. -/
structure NoOverflow (ts : List Timestamp) : Prop where
  delta : ∀ d ∈ deltas ts, -2 ^ 63 ≤ d ∧ d < 2 ^ 63
  deltaDelta : ∀ dd ∈ deltaOfDeltas ts, -2 ^ 63 ≤ dd ∧ dd < 2 ^ 63

/-- Every delta-of-delta fits in the 32 bits of the widest class. -/
def FitsInt32 (ts : List Timestamp) : Prop :=
  ∀ dd ∈ deltaOfDeltas ts, -2 ^ 31 ≤ dd ∧ dd ≤ 2 ^ 31 - 1

instance (ts : List Timestamp) : Decidable (FitsInt32 ts) :=
  inferInstanceAs (Decidable (∀ dd ∈ deltaOfDeltas ts, -2 ^ 31 ≤ dd ∧ dd ≤ 2 ^ 31 - 1))

/-- The second differences the encoder computes are the integer ones, wrapped. -/
theorem secondDiffs_eq_map_ofInt (t : Timestamp) (ts : List Timestamp) :
    secondDiffs t 0 ts = (deltaOfDeltas (t :: ts)).map Int64.ofInt := by
  have hts : ts = (ts.map Int64.toInt).map Int64.ofInt := by simp [Function.comp_def]
  have hmap := secondDiffs_map (f := Int64.ofInt) Int64.ofInt_sub t.toInt 0 (ts.map Int64.toInt)
  rw [← hts, Int64.ofInt_toInt] at hmap
  exact hmap

private theorem restoreDD_ofInt_eq_iff {dd : Int} (h : -2 ^ 63 ≤ dd ∧ dd < 2 ^ 63) :
    restoreDD (Int64.ofInt dd) = Int64.ofInt dd ↔ -2 ^ 31 ≤ dd ∧ dd ≤ 2 ^ 31 - 1 := by
  rw [restoreDD_eq_iff, Int64.toInt_ofInt_of_le h.1 h.2]

theorem FitsInt32.restoreTimestamps_eq {ts : List Timestamp} (h : FitsInt32 ts) :
    restoreTimestamps ts = ts := by
  cases ts with
  | nil => rfl
  | cons t ts =>
    rw [restoreTimestamps, List.cons.injEq, integrate_map_eq_iff, secondDiffs_eq_map_ofInt]
    refine ⟨rfl, fun x hx => ?_⟩
    obtain ⟨dd, hdd, rfl⟩ := List.mem_map.mp hx
    have hb := h dd hdd
    exact (restoreDD_ofInt_eq_iff ⟨by omega, by omega⟩).mpr hb

theorem restoreTimestamps_eq_iff_fits {ts : List Timestamp} (h : NoOverflow ts) :
    restoreTimestamps ts = ts ↔ FitsInt32 ts := by
  refine ⟨fun heq => ?_, FitsInt32.restoreTimestamps_eq⟩
  cases ts with
  | nil => exact nofun
  | cons t ts =>
    rw [restoreTimestamps, List.cons.injEq, integrate_map_eq_iff, secondDiffs_eq_map_ofInt] at heq
    intro dd hdd
    exact (restoreDD_ofInt_eq_iff (h.deltaDelta dd hdd)).mp (heq.2 _ (List.mem_map_of_mem hdd))

/-- **The timestamps come back as many as they were, and as they were exactly when every
delta-of-delta fits in an `int32_t`.** -/
theorem decode_encodeAll_eq_iff {ts : List Timestamp} (h : NoOverflow ts) :
    (TimestampCompressor.decode (TimestampCompressor.encodeAll {} ts).getBytes ts.length).length
        = ts.length ∧
      (TimestampCompressor.decode (TimestampCompressor.encodeAll {} ts).getBytes ts.length = ts ↔
        ∀ dd ∈ deltaOfDeltas ts, -2 ^ 31 ≤ dd ∧ dd ≤ 2 ^ 31 - 1) := by
  rw [decode_counted]
  exact ⟨length_restoreTimestamps ts, restoreTimestamps_eq_iff_fits h⟩

/-- A step that gets longer by 2^31 - 1 µs, and one that gets longer by 2^31 µs. -/
theorem decode_encodeAll_eq_iff_steps :
    TimestampCompressor.decode (TimestampCompressor.encodeAll {} [0, 0, 2147483647]).getBytes 3
        = [0, 0, 2147483647] ∧
      TimestampCompressor.decode (TimestampCompressor.encodeAll {} [0, 0, 2147483648]).getBytes 3
        ≠ [0, 0, 2147483648] := by
  constructor
  · exact (decode_encodeAll_eq_iff ⟨by decide, by decide⟩).2.mpr (by decide)
  · exact mt (decode_encodeAll_eq_iff ⟨by decide, by decide⟩).2.mp (by decide)

/-! ## Decompressing without the point count -/

/-- How many points both streams give past their end: a timestamp per padding bit, a value per
three. -/
def paddingCount (points : List DataPoint) : Nat :=
  min (timestampPadding (tsOf points)) ((valuePadding (valuesOf points) + 2) / 3)

/-- The points that come out after the written ones: the last step goes on, with the last
double. -/
def paddingPoints (points : List DataPoint) : List DataPoint :=
  (continuation (paddingCount points) (restoreTimestamps (tsOf points))).map fun t =>
    { ts := t, value := .double (ValueState.start.nextAll (valuesOf points)).prevBits }

/-- What a block's timestamps and values are stored as. -/
def storedPoints (points : List DataPoint) : List DataPoint :=
  List.zipWith DataPoint.mk (restoreTimestamps (tsOf points)) (valuesOf points)

theorem FitsInt32.storedPoints_eq {points : List DataPoint} (h : FitsInt32 (tsOf points)) :
    storedPoints points = points := by
  rw [storedPoints, h.restoreTimestamps_eq]
  exact (zipWith_mk_eq_iff (by simp)).mpr rfl

private theorem zipWith_continued (p d : Timestamp) (v : Value) (k m : Nat) :
    List.zipWith DataPoint.mk (continued p d k) (List.replicate m v)
      = (continued p d (min k m)).map fun t => { ts := t, value := v } := by
  induction k generalizing p m with
  | zero => simp [continued]
  | succ k ih =>
    cases m with
    | zero => simp [continued]
    | succ m =>
      rw [continued, List.replicate_succ, List.zipWith_cons_cons, ih, Nat.succ_min_succ,
        continued, List.map_cons]

/-- **A block read without its point count** gives the stored points and then the padding
points. Strings other than empty ones need the side buffer, which such a reader does not have. -/
theorem decompress_uncounted {points : List DataPoint}
    (hstr : ∀ p ∈ points, stringBytes p.value = []) :
    BlockCompressor.decompress
        { timestamps := (compress points).timestamps, values := (compress points).values }
      = storedPoints points ++ paddingPoints points := by
  by_cases hne : points = []
  · rw [hne]
    rfl
  have hvne : valuesOf points ≠ [] := by simpa using hne
  have hflat : (valuesOf points).flatMap stringBytes = [] := by
    simpa [List.flatMap_eq_nil_iff] using hstr
  have hside : (ValueEncoder.encodeAll {} (valuesOf points)).getStringData = [] := by
    rw [ValueEncoder.getStringData, ValueEncoder.stringData_encodeAll, hflat]
    rfl
  have hlen : ∀ v ∈ valuesOf points, (stringBytes v).length < 2 ^ 32 := by
    intro v hv
    obtain ⟨p, hp, rfl⟩ := List.mem_map.mp hv
    simp [hstr p hp]
  have hvs := ValueEncoder.decode_unbounded hvne hlen
  rw [hside] at hvs
  rw [BlockCompressor.decompress, timestamps_compress, values_compress, decode_unbounded, hvs,
    List.zipWith_append (by simp), storedPoints, paddingPoints, paddingCount]
  congr 1
  cases restoreTimestamps (tsOf points) with
  | nil => rfl
  | cons t ts => exact zipWith_continued _ _ _ _ _

/-! ## The round trip -/

/-- **Block compression is lossless exactly when every delta-of-delta fits in an `int32_t`.** -/
theorem decompress_compress_eq_iff {points : List DataPoint} (hfit : NoOverflow (tsOf points))
    (hlen : ∀ p ∈ points, (stringBytes p.value).length < 2 ^ 32) :
    BlockCompressor.decompress (compress points) = points ↔ FitsInt32 (tsOf points) := by
  rw [decompress_compress hlen, zipWith_mk_eq_iff (by simp), restoreTimestamps_eq_iff_fits hfit]

/-- Three seconds-apart points of the three types come back. -/
theorem decompress_compress_eq_iff_mixed :
    BlockCompressor.decompress (compress [⟨0, .double 0⟩, ⟨1000000, .int64 7⟩,
        ⟨2000000, .string (ascii "on")⟩])
      = [⟨0, .double 0⟩, ⟨1000000, .int64 7⟩, ⟨2000000, .string (ascii "on")⟩] :=
  (decompress_compress_eq_iff ⟨by decide, by decide⟩ (by decide)).mpr (by decide)

def hourGap : List DataPoint := [⟨0, .double 0⟩, ⟨3600000000, .double 0⟩]

/-- **An hour's gap is not recovered**: its second difference needs 33 bits, and the second
point comes back 694967296 µs before the first. -/
theorem decompress_compress_hourGap :
    NoOverflow (tsOf hourGap) ∧ (∀ p ∈ hourGap, (stringBytes p.value).length < 2 ^ 32) ∧
      BlockCompressor.decompress (compress hourGap)
        = [⟨0, .double 0⟩, ⟨-694967296, .double 0⟩] ∧
      BlockCompressor.decompress (compress hourGap) ≠ hourGap := by
  have hread : BlockCompressor.decompress (compress hourGap)
      = [⟨0, .double 0⟩, ⟨-694967296, .double 0⟩] := by
    rw [decompress_compress (by decide)]
    decide
  refine ⟨⟨by decide, by decide⟩, by decide, hread, ?_⟩
  rw [hread]
  decide

end Storage
end MiniTSDB
