import MiniTSDB.Lib.Decimal
import MiniTSDB.Os.Dir
import MiniTSDB.Storage.RangeQuery

/-!
# The SSTables of a tag's directory

Reading a tag and compacting it both go through its directory the same way: every entry whose
name ends in `.sst` is opened, and one that does not open is passed over. What a directory
*holds* is what is found so, with the widest query there is.
-/

namespace MiniTSDB
namespace Storage

open Lib Os

/-- The test on `entry.name` before an SSTable is opened. -/
def isSst (name : Bytes) : Bool :=
  ¬ (name.length < 4 ∨ name.drop (name.length - 4) ≠ ascii ".sst")

/-- A reader opened on a file of the directory. -/
def openTable (d : Dir) (name : Bytes) : Option SSTableReader :=
  (d.readFile name).bind SSTableReader.open

/-- All that can be read from a file of these bytes. -/
def dataPoints (data : Bytes) : List DataPoint := (queryFile data fullRange).getD []

/-- All that can be read from a file of the directory. -/
def tablePoints (d : Dir) (name : Bytes) : List DataPoint :=
  match d.readFile name with
  | some data => dataPoints data
  | none => []

/-- Some SSTable of the directory holds the point. -/
def HoldsPoint (d : Dir) (p : DataPoint) : Prop :=
  ∃ name, isSst name = true ∧ p ∈ tablePoints d name

/-- Some SSTable of the directory holds the timestamp. -/
def Holds (d : Dir) (t : Timestamp) : Prop := ∃ p, HoldsPoint d p ∧ p.ts = t

theorem isSst_append (stem : Bytes) : isSst (stem ++ ascii ".sst") = true := by
  have hlen : (ascii ".sst").length = 4 := rfl
  simp [isSst, hlen]

theorem fullRange_overlaps (range : TimeRange) : range.overlaps fullRange = true := by
  have hstart := TimeRange.contains_iff.mp (fullRange_contains range.start)
  have hstop := TimeRange.contains_iff.mp (fullRange_contains range.stop)
  exact TimeRange.overlaps_iff.mpr ⟨hstart.2, hstop.1⟩

theorem readRange_subset_full (r : SSTableReader) (range : TimeRange) :
    r.readRange range ⊆ r.readRange fullRange := by
  have hstart := TimeRange.contains_iff.mp (fullRange_contains range.start)
  have hstop := TimeRange.contains_iff.mp (fullRange_contains range.stop)
  exact SSTableReader.readRange_subset hstart.1 hstop.2

theorem queryBlock_fullRange (points : List DataPoint) :
    queryBlock fullRange points = storedPoints points ++ paddingPoints points := by
  rw [queryBlock, if_pos (fullRange_overlaps _), List.filter_eq_self]
  exact fun p _ => fullRange_contains p.ts

/-- What is read from the file of a name depends on what the name stands for and nothing else. -/
theorem tablePoints_congr {d d' : Dir} {name : Bytes} (h : d'.lookup name = d.lookup name) :
    tablePoints d' name = tablePoints d name := by
  rw [tablePoints, tablePoints, Dir.readFile_congr h]

theorem tablePoints_of_lookup {d : Dir} {name data : Bytes}
    (h : d.lookup name = some (.file data)) : tablePoints d name = dataPoints data := by
  rw [tablePoints, Dir.readFile, h]

theorem tablePoints_of_openTable {d : Dir} {name : Bytes} {r : SSTableReader}
    (h : openTable d name = some r) : tablePoints d name = r.readRange fullRange := by
  obtain ⟨data, hread, hopen⟩ := Option.bind_eq_some_iff.mp h
  rw [tablePoints, hread]
  simp only [dataPoints, queryFile, hopen, Option.map_some, Option.getD_some]

theorem openTable_of_mem {d : Dir} {name : Bytes} {p : DataPoint} (h : p ∈ tablePoints d name) :
    ∃ r, openTable d name = some r := by
  unfold tablePoints at h
  split at h
  case h_1 data hread =>
    cases hopen : SSTableReader.open data with
    | none => simp [dataPoints, queryFile, hopen] at h
    | some r => exact ⟨r, by rw [openTable, hread, Option.bind_some, hopen]⟩
  case h_2 => simp at h

theorem noStringData_tablePoints (d : Dir) (name : Bytes) : NoStringData (tablePoints d name) := by
  intro p hp
  obtain ⟨r, hopen⟩ := openTable_of_mem hp
  rw [tablePoints_of_openTable hopen] at hp
  exact r.noStringData_readRange _ p hp

theorem dataPoints_tableBytes {points : List DataPoint} (hfit : StreamsFit points)
    (hstr : NoStringData points) :
    dataPoints (tableBytes [points]) = storedPoints points ++ paddingPoints points := by
  rw [dataPoints, queryFile_tableBytes (by simp) (by simpa using hfit) (by simpa using hstr),
    List.flatMap_singleton, queryBlock_fullRange, Option.getD_some]

/-- **A flushed or merged list is in its file**, as long as its delta-of-deltas fit. -/
theorem subset_dataPoints {points : List DataPoint} (hfit : StreamsFit points)
    (hstr : NoStringData points) (hfits : FitsInt32 (tsOf points)) :
    points ⊆ dataPoints (tableBytes [points]) := by
  rw [dataPoints_tableBytes hfit hstr, hfits.storedPoints_eq]
  exact List.subset_append_left _ _

end Storage
end MiniTSDB
