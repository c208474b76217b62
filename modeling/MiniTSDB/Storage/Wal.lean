import MiniTSDB.Lib.Fields
import MiniTSDB.Lib.Framing
import MiniTSDB.Storage.Crc32
import Mathlib.Data.Set.List

/-!
# The write-ahead log (`wal.h`, `wal.cpp`)

An entry is a 12-byte header, as the compiler lays `WalEntryHeader` out, and a payload with the
tag, the timestamp and the double. The three bytes of padding behind the type are whatever was on
the stack, so every statement here is about any padding.

The log is a file of frames in the sense of `Lib.FrameReader`: an entry whose tag fits its 16-bit
length is read back whatever follows it, and one that the file ends in is not read.
`walEntries_take` is the result for every cut.
-/

namespace MiniTSDB
namespace Storage

open Lib Os

inductive WalEntryType
  | dataPoint
  | tagMeta
  | checkpoint
  deriving DecidableEq, Repr

def WalEntryType.toByte : WalEntryType → UInt8
  | .dataPoint => 0
  | .tagMeta => 1
  | .checkpoint => 2

/-- The padding of a `WalEntryHeader`. -/
abbrev HeaderPad := Vector UInt8 3

/-- A `WalEntryHeader` in memory: `crc`, `type`, padding, `data_len`. -/
def walHeader (crc : UInt32) (type : WalEntryType) (pad : HeaderPad) (dataLen : Nat) : Bytes :=
  leBytes 4 crc.toNat ++ [type.toByte] ++ pad.toList ++ leBytes 4 dataLen

/-- The payload `AppendWrite` builds. -/
def walData (tag : Bytes) (ts : Timestamp) (bits : UInt64) : Bytes :=
  let tagLen := tag.length % 2 ^ 16
  leBytes 2 tagLen ++ tag.take tagLen ++ timestampBytes ts ++ leBytes 8 bits.toNat

/-! ## The writer -/

/-- `WalWriter::AppendWrite` on a log of these bytes; `none` where `std::get<double>` throws. -/
def appendWrite (log : Bytes) (pad : HeaderPad) (tag : Bytes) (point : DataPoint) : Option Bytes :=
  match point.value with
  | .double bits =>
    let data := walData tag point.ts bits
    some (log ++ walHeader (calculateCrc32 data) .dataPoint pad (data.length % 2 ^ 32) ++ data)
  | _ => none

/-- `WalWriter::AppendBatch`: one `AppendWrite` per point, each with a padding of its own. -/
def appendBatch (log : Bytes) (pads : Nat → HeaderPad) (batches : List DataBatch) : Option Bytes :=
  (batches.flatMap fun batch => batch.points.map fun point => (batch.tagName, point)).zipIdx.foldlM
    (fun log e => appendWrite log (pads e.2) e.1.1 e.1.2) log

/-- `WalWriter::WriteCheckpoint` on a log of these bytes. -/
def writeCheckpoint (log : Bytes) (pad : HeaderPad) : Bytes :=
  log ++ walHeader 0 .checkpoint pad 0

/-! ## The reader -/

/-- `WalReader::Entry`. -/
structure WalEntry where
  type : WalEntryType
  tagName : Bytes := []
  points : List DataPoint := []
  deriving DecidableEq, Repr

/-- `WalReader::ReadEntry`: the entry, or `none` where it returns false. A payload that passes
its checksum is parsed as it stands. -/
def readEntry (file : File) : Option (WalEntry × File) := do
  let (header, file) ← file.readExact 12
  let crc := ofLeBytes (header.take 4)
  let type := (header.drop 4).take 1
  let dataLen := ofLeBytes (header.drop 8)
  if type = [WalEntryType.checkpoint.toByte] then
    pure ({ type := .checkpoint }, file)
  else do
    guard (type = [WalEntryType.dataPoint.toByte])
    let (data, file) ← file.readExact dataLen
    guard ((calculateCrc32 data).toNat = crc)
    let tagLen := ofLeBytes (data.take 2)
    let tagName := (data.drop 2).take tagLen
    let point : DataPoint :=
      { ts := timestampOfBytes ((data.drop (2 + tagLen)).take 8)
        value := .double (UInt64.ofNat (ofLeBytes ((data.drop (2 + tagLen + 8)).take 8))) }
    pure ({ type := .dataPoint, tagName := tagName, points := [point] }, file)

theorem readEntry_pos {file file' : File} {entry : WalEntry}
    (h : readEntry file = some (entry, file')) :
    file'.data = file.data ∧ file.pos + 12 ≤ file'.pos := by
  rw [readEntry] at h
  simp only [Option.bind_eq_bind, Option.bind_eq_some_iff, Prod.exists] at h
  obtain ⟨header, f₁, hheader, h⟩ := h
  obtain ⟨hdata₁, hpos₁, -⟩ := File.readExact_eq_some hheader
  split at h
  case isTrue =>
    simp only [Option.pure_def, Option.some.injEq, Prod.mk.injEq] at h
    obtain ⟨-, rfl⟩ := h
    exact ⟨hdata₁, hpos₁.ge⟩
  case isFalse =>
    simp only [Option.bind_eq_some_iff, Prod.exists] at h
    obtain ⟨-, -, data, f₂, hread, -, -, h⟩ := h
    obtain ⟨hdata₂, hpos₂, -⟩ := File.readExact_eq_some hread
    simp only [Option.pure_def, Option.some.injEq, Prod.mk.injEq] at h
    obtain ⟨-, rfl⟩ := h
    exact ⟨hdata₂.trans hdata₁, by omega⟩

/-- The loop of `WalReader::Open`. -/
def readEntries (file : File) : List WalEntry :=
  if _h : file.pos < file.size then
    match _hentry : readEntry file with
    | none => []
    | some (entry, file') => entry :: readEntries file'
  else []
termination_by file.size - file.pos
decreasing_by
  obtain ⟨hdata, hpos⟩ := readEntry_pos _hentry
  rw [File.size, File.size] at *
  rw [hdata]
  omega

/-- `WalReader::Open` on a log of these bytes; `Entries()`. -/
def walEntries (log : Bytes) : List WalEntry := readEntries { data := log }

/-! ## The log as a file of frames -/

/-- What is appended to a log. -/
inductive WalRecord
  | write (pad : HeaderPad) (tag : Bytes) (ts : Timestamp) (bits : UInt64)
  | checkpoint (pad : HeaderPad)
  deriving DecidableEq, Repr

def WalRecord.append (log : Bytes) : WalRecord → Bytes
  | .write pad tag ts bits => (appendWrite log pad tag { ts := ts, value := .double bits }).getD log
  | .checkpoint pad => writeCheckpoint log pad

def WalRecord.bytes : WalRecord → Bytes
  | .write pad tag ts bits =>
    walHeader (calculateCrc32 (walData tag ts bits)) .dataPoint pad
      ((walData tag ts bits).length % 2 ^ 32) ++ walData tag ts bits
  | .checkpoint pad => walHeader 0 .checkpoint pad 0

/-- The tag's length fits the `uint16_t` it is stored in. -/
def WalRecord.Fits : WalRecord → Prop
  | .write _ tag _ _ => tag.length ≤ 65535
  | .checkpoint _ => True

def WalRecord.entry : WalRecord → WalEntry
  | .write _ tag ts bits =>
    { type := .dataPoint, tagName := tag, points := [{ ts := ts, value := .double bits }] }
  | .checkpoint _ => { type := .checkpoint }

theorem WalRecord.append_eq (log : Bytes) (record : WalRecord) :
    record.append log = log ++ record.bytes := by
  cases record with
  | write pad tag ts bits =>
    simp only [append, appendWrite, Option.getD_some, bytes, List.append_assoc]
  | checkpoint pad => rfl

theorem foldl_append (log : Bytes) (records : List WalRecord) :
    records.foldl WalRecord.append log = log ++ records.flatMap WalRecord.bytes := by
  induction records generalizing log with
  | nil => simp
  | cons record records ih => simp [ih, WalRecord.append_eq]

private theorem foldlM_appendWrite (pads : Nat → HeaderPad) (points : List (Bytes × DataPoint))
    (hdouble : ∀ e ∈ points, e.2.value.isDouble = true) :
    ∀ (k : Nat) (log : Bytes), ∃ records : List WalRecord,
      (points.zipIdx k).foldlM (fun log e => appendWrite log (pads e.2) e.1.1 e.1.2) log
        = some (records.foldl WalRecord.append log) ∧
      records.map WalRecord.entry = points.map fun e =>
        { type := .dataPoint, tagName := e.1, points := [e.2] } := by
  induction points with
  | nil =>
    intro k log
    exact ⟨[], rfl, rfl⟩
  | cons e points ih =>
    intro k log
    obtain ⟨tag, ts, value⟩ := e
    have hhead : value.isDouble = true := hdouble _ List.mem_cons_self
    cases value with
    | double bits =>
      have hrest : ∀ e ∈ points, e.2.value.isDouble = true := by
        intro e he
        exact hdouble e (List.mem_cons_of_mem _ he)
      obtain ⟨records, hfold, hentries⟩ :=
        ih hrest (k + 1) ((WalRecord.write (pads k) tag ts bits).append log)
      refine ⟨.write (pads k) tag ts bits :: records, ?_, ?_⟩
      · rw [List.zipIdx_cons, List.foldlM_cons, List.foldl_cons, ← hfold]
        rfl
      · rw [List.map_cons, List.map_cons, hentries]
        rfl
    | int64 i => cases hhead
    | string s => cases hhead

/-- **A batch of doubles is appended point by point**, each as an entry of its own. -/
theorem appendBatch_eq (log : Bytes) (pads : Nat → HeaderPad) {batches : List DataBatch}
    (hdouble : ∀ batch ∈ batches, ∀ p ∈ batch.points, p.value.isDouble = true) :
    ∃ records : List WalRecord, appendBatch log pads batches
        = some (records.foldl WalRecord.append log) ∧
      records.map WalRecord.entry = batches.flatMap fun batch => batch.points.map fun p =>
        { type := .dataPoint, tagName := batch.tagName, points := [p] } := by
  have hpoints : ∀ e ∈ batches.flatMap fun batch => batch.points.map fun p => (batch.tagName, p),
      e.2.value.isDouble = true := by
    intro e he
    obtain ⟨batch, hbatch, he⟩ := List.mem_flatMap.mp he
    obtain ⟨p, hp, rfl⟩ := List.mem_map.mp he
    exact hdouble batch hbatch p hp
  obtain ⟨records, hfold, hentries⟩ := foldlM_appendWrite pads _ hpoints 0 log
  refine ⟨records, hfold, ?_⟩
  rw [hentries, List.map_flatMap]
  simp only [List.map_map, Function.comp_def]

@[simp] theorem length_walHeader (crc : UInt32) (type : WalEntryType) (pad : HeaderPad)
    (dataLen : Nat) : (walHeader crc type pad dataLen).length = 12 := by
  simp [walHeader]

/-- What is done with a payload once the header has been read. -/
def parseData (crc : UInt32) (data : Bytes) (file : File) : Option (WalEntry × File) :=
  if (calculateCrc32 data).toNat = crc.toNat then
    let tagLen := ofLeBytes (data.take 2)
    some ({
      type := .dataPoint
      tagName := (data.drop 2).take tagLen
      points := [{
        ts := timestampOfBytes ((data.drop (2 + tagLen)).take 8)
        value := .double (UInt64.ofNat (ofLeBytes ((data.drop (2 + tagLen + 8)).take 8))) }] }, file)
  else none

theorem readEntry_checkpoint {file file' : File} {crc : UInt32} {pad : HeaderPad} {dataLen : Nat}
    (h : file.readExact 12 = some (walHeader crc .checkpoint pad dataLen, file')) :
    readEntry file = some ({ type := .checkpoint }, file') := by
  have htype : ((walHeader crc .checkpoint pad dataLen).drop 4).take 1
      = [WalEntryType.checkpoint.toByte] := by simp [walHeader]
  rw [readEntry, h]
  simp only [Option.bind_eq_bind, Option.bind_some, htype, if_true, Option.pure_def]

theorem readEntry_dataPoint {file file' : File} {crc : UInt32} {pad : HeaderPad} {dataLen : Nat}
    (h : file.readExact 12 = some (walHeader crc .dataPoint pad dataLen, file'))
    (hlen : dataLen < 2 ^ 32) :
    readEntry file = (file'.readExact dataLen).bind fun e => parseData crc e.1 e.2 := by
  have htype : ((walHeader crc .dataPoint pad dataLen).drop 4).take 1
      = [WalEntryType.dataPoint.toByte] := by simp [walHeader]
  have hne : [WalEntryType.dataPoint.toByte] ≠ [WalEntryType.checkpoint.toByte] := by decide
  have hcrc : ofLeBytes ((walHeader crc .dataPoint pad dataLen).take 4) = crc.toNat := by
    have htake : (walHeader crc .dataPoint pad dataLen).take 4 = leBytes 4 crc.toNat := by
      simp [walHeader]
    rw [htake, ofLeBytes_leBytes_of_lt crc.toNat_lt]
  have hdata : ofLeBytes ((walHeader crc .dataPoint pad dataLen).drop 8) = dataLen := by
    have hdrop : (walHeader crc .dataPoint pad dataLen).drop 8 = leBytes 4 dataLen := by
      have hfront : (leBytes 4 crc.toNat ++ [WalEntryType.dataPoint.toByte] ++ pad.toList).length
          = 8 := by simp
      rw [walHeader, ← hfront, List.drop_left]
    rw [hdrop, ofLeBytes_leBytes_of_lt hlen]
  rw [readEntry, h]
  simp only [Option.bind_eq_bind, Option.bind_some, htype, if_neg hne, hcrc, hdata, guard,
    if_true, Option.pure_def]
  cases file'.readExact dataLen with
  | none => rfl
  | some e =>
    simp only [Option.bind_some, parseData]
    split <;> rfl

theorem parseData_walData {tag : Bytes} {ts : Timestamp} {bits : UInt64} {file : File}
    (htag : tag.length ≤ 65535) :
    parseData (calculateCrc32 (walData tag ts bits)) (walData tag ts bits) file
      = some ({ type := .dataPoint, tagName := tag,
                points := [{ ts := ts, value := .double bits }] }, file) := by
  have hmod : tag.length % 2 ^ 16 = tag.length := Nat.mod_eq_of_lt (by omega)
  have hdata : walData tag ts bits
      = leBytes 2 tag.length ++ (tag ++ (timestampBytes ts ++ leBytes 8 bits.toNat)) := by
    rw [walData, hmod, List.take_length]
    simp
  have hlen : ofLeBytes ((walData tag ts bits).take 2) = tag.length := by
    rw [hdata, List.take_left' (length_leBytes 2 _),
      ofLeBytes_leBytes_of_lt (by norm_num; omega)]
  have htagName : ((walData tag ts bits).drop 2).take tag.length = tag := by
    rw [hdata, List.drop_left' (length_leBytes 2 _), List.take_left]
  have hrest : (walData tag ts bits).drop (2 + tag.length)
      = timestampBytes ts ++ leBytes 8 bits.toNat := by
    rw [hdata, ← List.drop_drop, List.drop_left' (length_leBytes 2 _), List.drop_left]
  have hts : timestampOfBytes (((walData tag ts bits).drop (2 + tag.length)).take 8) = ts := by
    rw [hrest, List.take_left' (length_timestampBytes ts), timestampOfBytes_timestampBytes]
  have hbits : UInt64.ofNat (ofLeBytes (((walData tag ts bits).drop (2 + tag.length + 8)).take 8))
      = bits := by
    rw [← List.drop_drop, hrest, List.drop_left' (length_timestampBytes ts),
      List.take_of_length_le (by simp), ofLeBytes_leBytes_of_lt bits.toNat_lt, UInt64.ofNat_toNat]
  rw [parseData, if_pos rfl]
  simp only [hlen, htagName, hts, hbits]

theorem length_walData_lt {tag : Bytes} {ts : Timestamp} {bits : UInt64} :
    (walData tag ts bits).length < 2 ^ 32 := by
  have hlt : tag.length % 2 ^ 16 < 2 ^ 16 := Nat.mod_lt _ (by decide)
  simp only [walData, List.length_append, length_leBytes, length_timestampBytes, List.length_take]
  omega

/-- A whole entry is read, whatever comes behind it. -/
theorem readEntry_whole {file : File} {record : WalRecord} {rest : Bytes} (hfits : record.Fits)
    (h : file.data.drop file.pos = record.bytes ++ rest) :
    ∃ file', readEntry file = some (record.entry, file') ∧ file'.data.drop file'.pos = rest := by
  cases record with
  | write pad tag ts bits =>
    simp only [WalRecord.bytes, List.append_assoc] at h
    rw [Nat.mod_eq_of_lt length_walData_lt] at h
    have hat := File.At.of_drop h (by simp [walHeader])
    obtain ⟨f₁, hheader, hat₁⟩ := hat.readExact (n := 12) (by simp)
    obtain ⟨f₂, hdata, hat₂⟩ := hat₁.readExact rfl
    refine ⟨f₂, ?_, hat₂.drop_pos⟩
    rw [readEntry_dataPoint hheader length_walData_lt, hdata, Option.bind_some,
      parseData_walData hfits]
    rfl
  | checkpoint pad =>
    have hat := File.At.of_drop h (by simp [WalRecord.bytes, walHeader])
    obtain ⟨f₁, hheader, hat₁⟩ := hat.readExact (n := 12) (by simp [WalRecord.bytes])
    exact ⟨f₁, readEntry_checkpoint hheader, hat₁.drop_pos⟩

/-- An entry that the file ends in is not read. -/
theorem readEntry_torn {file : File} {record : WalRecord} {n : Nat} (hn : n < record.bytes.length)
    (h : file.data.drop file.pos = record.bytes.take n) : readEntry file = none := by
  have hlen : (file.data.drop file.pos).length = n := by
    rw [h, List.length_take]
    omega
  rcases Nat.lt_or_ge n 12 with h12 | h12
  · -- inside the header
    have hnone : file.readExact 12 = none := File.readExact_eq_none (by omega)
    rw [readEntry, hnone]
    rfl
  · cases record with
    | write pad tag ts bits =>
      -- inside the payload
      simp only [WalRecord.bytes] at h hn
      rw [Nat.mod_eq_of_lt length_walData_lt] at h hn
      rw [List.length_append, length_walHeader] at hn
      rw [List.take_append, length_walHeader, List.take_of_length_le (by simpa using h12)] at h
      have hat := File.At.of_drop h (by simp [walHeader])
      obtain ⟨f₁, hheader, hat₁⟩ := hat.readExact (n := 12) (by simp)
      have hnone : f₁.readExact (walData tag ts bits).length = none := by
        refine File.readExact_eq_none ?_
        rw [hat₁.drop_pos, List.length_take]
        omega
      rw [readEntry_dataPoint hheader length_walData_lt, hnone]
      rfl
    | checkpoint pad =>
      simp only [WalRecord.bytes, length_walHeader] at hn
      omega

/-- **The log's reader is a reader of frames.** -/
def walFrames : FrameReader { record : WalRecord // record.Fits } WalEntry UInt8 File where
  encode record := record.1.bytes
  value record := record.1.entry
  rest file := file.data.drop file.pos
  next := readEntry
  loop := readEntries
  loop_end file h := by
    rw [readEntries, dif_neg]
    have := List.drop_eq_nil_iff.mp h
    rw [File.size]
    omega
  loop_none file h := by
    rw [readEntries]
    split
    · split
      · rfl
      · simp_all
    · rfl
  loop_some file entry file' hne h := by
    have hlt : file.pos < file.size := by
      rw [ne_eq, List.drop_eq_nil_iff] at hne
      exact Nat.not_le.mp hne
    rw [readEntries, dif_pos hlt]
    split
    · simp_all
    · simp_all
  whole _ record _ h := readEntry_whole record.2 h
  torn _ _ _ hn h := readEntry_torn hn h
  encode_ne_nil record := by
    obtain ⟨record, -⟩ := record
    cases record <;> simp [WalRecord.bytes, walHeader]

/-! ## What is read of a log -/

theorem walEntries_append {records : List WalRecord} (hfits : ∀ record ∈ records, record.Fits)
    (rest : Bytes) : ∃ entries, walEntries (records.flatMap WalRecord.bytes ++ rest)
      = records.map WalRecord.entry ++ entries := by
  lift records to List { record : WalRecord // record.Fits } using hfits
  obtain ⟨s', -, hloop⟩ := walFrames.loop_append records (r := rest)
    (s := { data := (records.map Subtype.val).flatMap WalRecord.bytes ++ rest })
    (by simp [walFrames])
  refine ⟨readEntries s', ?_⟩
  rw [List.map_map]
  exact hloop

@[simp] theorem walEntries_nil : walEntries [] = [] := walFrames.loop_end _ rfl

/-- **Entries read back as written, up to any cut**: of the log that a sequence of writes and
checkpoints leaves, a reader of the first `k` bytes gets the entries that lie wholly in them. -/
theorem walEntries_take {records : List WalRecord} (hfits : ∀ record ∈ records, record.Fits)
    (k : Nat) :
    walEntries ((records.foldl WalRecord.append []).take k)
      = (wholeWithin WalRecord.bytes k records).map WalRecord.entry := by
  rw [foldl_append, List.nil_append]
  lift records to List { record : WalRecord // record.Fits } using hfits
  rw [← map_wholeWithin, List.map_map]
  exact walFrames.loop_take records k (by simp [walFrames])

/-- A point and a checkpoint, cut inside the checkpoint. -/
theorem walEntries_take_torn :
    walEntries (([.write (.replicate 3 0) (ascii "a") 1 0, .checkpoint (.replicate 3 0)].foldl
        WalRecord.append []).take 40)
      = [{ type := .dataPoint, tagName := ascii "a", points := [⟨1, .double 0⟩] }] :=
  (walEntries_take (by simp [WalRecord.Fits, ascii]) 40).trans (by decide)

end Storage
end MiniTSDB
