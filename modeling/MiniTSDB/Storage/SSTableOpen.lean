import MiniTSDB.Storage.SSTable

/-!
# What `SSTableReader::Open` accepts (`sstable.cpp`)

`Open` looks at the magic, the version and the room for the fields it reads, and at the checksum in
the last four bytes: `open_isSome_iff` is the list, for any bytes. It never compares where the
announced blocks end with where the checksum begins, so a file it accepts is well formed exactly if
its lengths happen to add up (`open_wellFormed_iff`).

A file that opens has the checksum of what is before it behind it, so the checksum of all of it is
one number, the same for every file. Two texts of one length that differ within four bytes do not
have the same checksum: a written file that is damaged there does not open (`open_damaged`).
-/

namespace MiniTSDB
namespace Storage

open Lib Os

/-! ## What a file announces -/

/-- The block count, behind the tag. -/
def blockCountField (data : Bytes) : Nat :=
  ofLeBytes ((data.drop (14 + ofLeBytes ((data.drop 12).take 2))).take 4)

def tsLenField (data : Bytes) (pos : Nat) : Nat := ofLeBytes ((data.drop (pos + 16)).take 4)

def valLenField (data : Bytes) (pos : Nat) : Nat :=
  ofLeBytes ((data.drop (pos + 20 + tsLenField data pos)).take 4)

/-- Where the block at `pos` ends by its own lengths: two timestamps, two lengths, two payloads. -/
def blockEnd (data : Bytes) (pos : Nat) : Nat :=
  pos + 24 + tsLenField data pos + valLenField data pos

/-- Where the last of `n` blocks from `pos` on ends. -/
def blocksEnd (data : Bytes) (pos : Nat) : Nat → Nat
  | 0 => pos
  | n + 1 => blocksEnd data (blockEnd data pos) n

/-- The fields of `n` blocks from `pos` on are in the file; the last of them is the length of the
values. -/
def FieldsFit (data : Bytes) (pos : Nat) : Nat → Prop
  | 0 => True
  | n + 1 => pos + 24 + tsLenField data pos ≤ data.length ∧ FieldsFit data (blockEnd data pos) n

instance decidableFieldsFit (data : Bytes) : ∀ pos n, Decidable (FieldsFit data pos n)
  | _, 0 => .isTrue trivial
  | pos, n + 1 =>
    have := decidableFieldsFit data (blockEnd data pos) n
    inferInstanceAs (Decidable (pos + 24 + tsLenField data pos ≤ data.length ∧
      FieldsFit data (blockEnd data pos) n))

/-- What `Open` asks of a file. -/
structure Accepted (data : Bytes) : Prop where
  magic : data.take 8 = sstableMagic
  version : ofLeBytes ((data.drop 8).take 4) = sstableVersionCrc
  header : 18 + ofLeBytes ((data.drop 12).take 2) ≤ data.length
  fields : FieldsFit data 32 (blockCountField data)
  crc : (crc32 (data.take (data.length - 4))).toNat = ofLeBytes (data.drop (data.length - 4))

/-! ## What a file that opens has been read as -/

theorem SSTableReader.readHeader_eq_some {r r' : SSTableReader} {n : Nat}
    (h : r.readHeader = some (r', n)) :
    r'.file.data = r.file.data ∧ r'.file.pos = 32 ∧ r'.blocks = r.blocks ∧
      n = blockCountField r.file.data := by
  rw [SSTableReader.readHeader] at h
  dsimp only at h
  obtain ⟨-, -, h⟩ := Option.bind_eq_some_iff.mp h
  obtain ⟨⟨version, f₁⟩, hversion, h⟩ := Option.bind_eq_some_iff.mp h
  obtain ⟨-, -, h⟩ := Option.bind_eq_some_iff.mp h
  obtain ⟨⟨tagLen, f₂⟩, htagLen, h⟩ := Option.bind_eq_some_iff.mp h
  obtain ⟨⟨tagName, f₃⟩, htagName, h⟩ := Option.bind_eq_some_iff.mp h
  obtain ⟨⟨count, f₄⟩, hcount, h⟩ := Option.bind_eq_some_iff.mp h
  obtain ⟨hdata₁, -, -⟩ := File.readExact_eq_some hversion
  obtain ⟨hdata₂, hpos₂, htag⟩ := File.readExact_eq_some htagLen
  obtain ⟨hdata₃, hpos₃, -⟩ := File.readExact_eq_some htagName
  obtain ⟨hdata₄, -, hcountBytes⟩ := File.readExact_eq_some hcount
  rw [File.data_read] at hdata₁
  rw [File.data_seek, hdata₁] at hdata₂
  rw [hdata₂] at hdata₃
  rw [hdata₃] at hdata₄
  have htagBytes : tagLen = (r.file.data.drop 12).take 2 := by
    rw [htag, File.data_seek, hdata₁]
    rfl
  have hpos : f₃.pos = 14 + ofLeBytes ((r.file.data.drop 12).take 2) := by
    rw [hpos₃, hpos₂, htagBytes]
    rfl
  cases h
  exact ⟨hdata₄, rfl, rfl, by rw [hcountBytes, hdata₃, hpos, blockCountField]⟩

/-- What an index entry says of the place it was read from. -/
def indexAt (data : Bytes) (pos : Nat) (idx : BlockIndex) : Prop :=
  idx.fileOffset = pos ∧ idx.tsCompSize = tsLenField data pos ∧
    idx.valCompSize = valLenField data pos

theorem SSTableReader.readIndex_eq_some {r r' : SSTableReader} (h : r.readIndex = some r') :
    r'.file.data = r.file.data ∧ r'.file.pos = blockEnd r.file.data r.file.pos ∧
      ∃ idx, r'.blocks = r.blocks ++ [idx] ∧ indexAt r.file.data r.file.pos idx := by
  rw [SSTableReader.readIndex] at h
  obtain ⟨⟨start, f₁⟩, hstart, h⟩ := Option.bind_eq_some_iff.mp h
  obtain ⟨⟨stop, f₂⟩, hstop, h⟩ := Option.bind_eq_some_iff.mp h
  obtain ⟨⟨tsLen, f₃⟩, htsLen, h⟩ := Option.bind_eq_some_iff.mp h
  obtain ⟨⟨valLen, f₄⟩, hvalLen, h⟩ := Option.bind_eq_some_iff.mp h
  obtain ⟨hdata₁, hpos₁, -⟩ := File.readExact_eq_some hstart
  obtain ⟨hdata₂, hpos₂, -⟩ := File.readExact_eq_some hstop
  obtain ⟨hdata₃, hpos₃, hts⟩ := File.readExact_eq_some htsLen
  obtain ⟨hdata₄, hpos₄, hval⟩ := File.readExact_eq_some hvalLen
  rw [hdata₁] at hdata₂
  rw [hdata₂] at hdata₃
  rw [File.data_seek, hdata₃] at hdata₄
  have htsField : ofLeBytes tsLen = tsLenField r.file.data r.file.pos := by
    rw [hts, hdata₂, hpos₂, hpos₁, tsLenField]
  have hpos : (f₃.seek (ofLeBytes tsLen) .cur).pos
      = r.file.pos + 20 + tsLenField r.file.data r.file.pos := by
    show f₃.pos + ofLeBytes tsLen = _
    rw [hpos₃, hpos₂, hpos₁, htsField]
  have hvalField : ofLeBytes valLen = valLenField r.file.data r.file.pos := by
    rw [hval, File.data_seek, hdata₃, hpos, valLenField]
  cases h
  refine ⟨by rw [File.data_seek, hdata₄], ?_, _, rfl, rfl, htsField, hvalField⟩
  show f₄.pos + ofLeBytes valLen = _
  rw [hpos₄, hpos, hvalField, blockEnd]
  omega

/-- The entries, each where the one before it ends. -/
def EntriesAt (data : Bytes) (pos : Nat) : List BlockIndex → Prop
  | [] => True
  | idx :: idxs => indexAt data pos idx ∧ EntriesAt data (blockEnd data pos) idxs

theorem SSTableReader.readIndices_eq_some {r r' : SSTableReader} {n : Nat}
    (h : r.readIndices n = some r') :
    r'.file.data = r.file.data ∧
      ∃ idxs, r'.blocks = r.blocks ++ idxs ∧ idxs.length = n ∧
        EntriesAt r.file.data r.file.pos idxs := by
  induction n generalizing r with
  | zero =>
    cases h
    exact ⟨rfl, [], by simp, rfl, trivial⟩
  | succ n ih =>
    obtain ⟨r₁, hindex, hrest⟩ := Option.bind_eq_some_iff.mp h
    obtain ⟨hdata₁, hpos₁, idx, hblocks₁, hidx⟩ := readIndex_eq_some hindex
    obtain ⟨hdata, idxs, hblocks, hlen, hentries⟩ := ih hrest
    rw [hdata₁, hpos₁] at hentries
    refine ⟨hdata.trans hdata₁, idx :: idxs, ?_, by rw [List.length_cons, hlen], hidx, hentries⟩
    rw [hblocks, hblocks₁, List.append_assoc]
    rfl

theorem SSTableReader.readIndex_isSome_iff {r : SSTableReader} :
    r.readIndex.isSome ↔
      r.file.pos + 24 + tsLenField r.file.data r.file.pos ≤ r.file.data.length := by
  constructor
  · intro h
    obtain ⟨r', hr'⟩ := Option.isSome_iff_exists.mp h
    rw [readIndex] at hr'
    obtain ⟨⟨start, f₁⟩, hstart, hr'⟩ := Option.bind_eq_some_iff.mp hr'
    obtain ⟨⟨stop, f₂⟩, hstop, hr'⟩ := Option.bind_eq_some_iff.mp hr'
    obtain ⟨⟨tsLen, f₃⟩, htsLen, hr'⟩ := Option.bind_eq_some_iff.mp hr'
    obtain ⟨⟨valLen, f₄⟩, hvalLen, -⟩ := Option.bind_eq_some_iff.mp hr'
    obtain ⟨hdata₁, hpos₁, -⟩ := File.readExact_eq_some hstart
    obtain ⟨hdata₂, hpos₂, -⟩ := File.readExact_eq_some hstop
    obtain ⟨hdata₃, hpos₃, hts⟩ := File.readExact_eq_some htsLen
    have hle : f₃.pos + ofLeBytes tsLen + 4 ≤ (f₃.seek (ofLeBytes tsLen) .cur).data.length :=
      File.le_of_readExact (by decide) hvalLen
    have hfield : ofLeBytes tsLen = tsLenField r.file.data r.file.pos := by
      rw [hts, hdata₂, hdata₁, hpos₂, hpos₁, tsLenField]
    rw [File.data_seek, hdata₃, hdata₂, hdata₁, hfield, hpos₃, hpos₂, hpos₁] at hle
    omega
  · intro h
    obtain ⟨f₁, hstart, hdata₁, hpos₁⟩ := File.readExact_of_le r.file 8 (by omega)
    obtain ⟨f₂, hstop, hdata₂, hpos₂⟩ := File.readExact_of_le f₁ 8
      (by rw [hdata₁, hpos₁]; omega)
    obtain ⟨f₃, htsLen, hdata₃, hpos₃⟩ := File.readExact_of_le f₂ 4
      (by rw [hdata₂, hdata₁, hpos₂, hpos₁]; omega)
    have hts : ofLeBytes ((f₂.data.drop f₂.pos).take 4) = tsLenField r.file.data r.file.pos := by
      rw [hdata₂, hdata₁, hpos₂, hpos₁, tsLenField]
    obtain ⟨f₄, hvalLen, -, -⟩ := File.readExact_of_le
      (f₃.seek (tsLenField r.file.data r.file.pos) .cur) 4 (by
        show f₃.pos + _ + 4 ≤ f₃.data.length
        rw [hdata₃, hdata₂, hdata₁, hpos₃, hpos₂, hpos₁]
        omega)
    simp only [readIndex, hstart, hstop, htsLen, hts, hvalLen, Option.bind_eq_bind,
      Option.bind_some, Option.pure_def, Option.isSome_some]

theorem SSTableReader.readIndices_isSome_iff {r : SSTableReader} {n : Nat} :
    (r.readIndices n).isSome ↔ FieldsFit r.file.data r.file.pos n := by
  induction n generalizing r with
  | zero => simp [readIndices, FieldsFit]
  | succ n ih =>
    rw [readIndices, FieldsFit, ← readIndex_isSome_iff]
    cases hindex : r.readIndex with
    | none => simp
    | some r₁ =>
      obtain ⟨hdata₁, hpos₁, -⟩ := readIndex_eq_some hindex
      rw [Option.bind_some, ih, hdata₁, hpos₁]
      simp

private theorem of_guard {p : Prop} [Decidable p] {u : Unit} (h : guard p = some u) : p := by
  by_contra hp
  rw [guard, if_neg hp] at h
  cases h

theorem SSTableReader.readHeader_isSome_iff {r : SSTableReader} (hstart : r.file.pos = 0) :
    r.readHeader.isSome ↔ r.file.data.take 8 = sstableMagic ∧
      ofLeBytes ((r.file.data.drop 8).take 4) = sstableVersionCrc ∧
      18 + ofLeBytes ((r.file.data.drop 12).take 2) ≤ r.file.data.length := by
  have hmagic : (r.file.read 8).1 = r.file.data.take 8 := by rw [File.read, hstart, List.drop_zero]
  have hbehind : r.file.data.take 8 = sstableMagic → (r.file.read 8).2.pos = 8 := by
    intro hmagicBytes
    rw [File.pos_read, hmagic, hmagicBytes, hstart]
    rfl
  constructor
  · intro h
    obtain ⟨e, he⟩ := Option.isSome_iff_exists.mp h
    rw [readHeader] at he
    dsimp only at he
    obtain ⟨_, hguard, he⟩ := Option.bind_eq_some_iff.mp he
    obtain ⟨⟨version, f₁⟩, hversion, he⟩ := Option.bind_eq_some_iff.mp he
    obtain ⟨_, hguard', he⟩ := Option.bind_eq_some_iff.mp he
    obtain ⟨⟨tagLen, f₂⟩, htagLen, he⟩ := Option.bind_eq_some_iff.mp he
    obtain ⟨⟨tagName, f₃⟩, htagName, he⟩ := Option.bind_eq_some_iff.mp he
    obtain ⟨⟨count, f₄⟩, hcount, -⟩ := Option.bind_eq_some_iff.mp he
    have hmagicBytes : r.file.data.take 8 = sstableMagic := by
      rw [← hmagic]
      exact of_guard hguard
    have hpos := hbehind hmagicBytes
    obtain ⟨hdata₁, -, hversionBytes⟩ := File.readExact_eq_some hversion
    obtain ⟨hdata₂, hpos₂, htag⟩ := File.readExact_eq_some htagLen
    obtain ⟨hdata₃, hpos₃, -⟩ := File.readExact_eq_some htagName
    have hle := File.le_of_readExact (by decide) hcount
    dsimp only at hdata₂ htag hdata₃ hpos₃ hle
    rw [File.data_read, hpos] at hversionBytes
    rw [File.data_seek, hdata₁, File.data_read] at hdata₂ htag
    rw [hdata₃, hdata₂, hpos₃, hpos₂, htag] at hle
    refine ⟨hmagicBytes, ?_, ?_⟩
    · rw [← hversionBytes]
      exact of_guard hguard'
    · -- the tag's length is at byte 12 wherever the version ended
      have hseek : (f₁.seek 12 .set).pos = 12 := rfl
      rw [hseek] at hle
      omega
  · rintro ⟨hmagicBytes, hversionBytes, hle⟩
    have hpos := hbehind hmagicBytes
    obtain ⟨f₁, hversion, hdata₁, -⟩ := File.readExact_of_le (r.file.read 8).2 4
      (by rw [hpos, File.data_read]; omega)
    obtain ⟨f₂, htagLen, hdata₂, hpos₂⟩ := File.readExact_of_le (f₁.seek 12 .set) 2
      (by
        rw [File.data_seek, hdata₁, File.data_read]
        show 12 + 2 ≤ _
        omega)
    rw [File.data_seek, hdata₁, File.data_read] at hdata₂
    have hpos₂ : f₂.pos = 14 := hpos₂
    obtain ⟨f₃, htagName, hdata₃, hpos₃⟩ := File.readExact_of_le f₂
      (ofLeBytes ((r.file.data.drop 12).take 2)) (by rw [hdata₂, hpos₂]; omega)
    obtain ⟨f₄, hcount, -, -⟩ := File.readExact_of_le f₃ 4
      (by rw [hdata₃, hdata₂, hpos₃, hpos₂]; omega)
    have hversionField : ofLeBytes (((r.file.read 8).2.data.drop (r.file.read 8).2.pos).take 4)
        = sstableVersionCrc := by rw [File.data_read, hpos, hversionBytes]
    have htag : ((f₁.seek 12 .set).data.drop (f₁.seek 12 .set).pos).take 2
        = (r.file.data.drop 12).take 2 := by
      rw [File.data_seek, hdata₁, File.data_read]
      rfl
    rw [htag] at htagLen
    simp only [readHeader, hmagic, hmagicBytes, hversion, hversionField, htagLen, htagName, hcount,
      guard, if_true, Option.bind_eq_bind, Option.bind_some, Option.pure_def, Option.isSome_some]

theorem SSTableReader.checkCrc_iff {r : SSTableReader} :
    r.checkCrc = true ↔ 4 ≤ r.file.data.length ∧
      (crc32 (r.file.data.take (r.file.data.length - 4))).toNat
        = ofLeBytes (r.file.data.drop (r.file.data.length - 4)) := by
  rw [checkCrc, File.size]
  by_cases hsize : r.file.data.length < 4
  · simp [hsize]
  · have hle : 4 ≤ r.file.data.length := Nat.not_lt.mp hsize
    obtain ⟨f, hread, hdata, -⟩ := File.readExact_of_le
      (r.file.seek (r.file.data.length - 4) .set) 4 (by simp [File.seek]; omega)
    have hsum : crcChunks (f.seek 0 .set) (r.file.data.length - 4) 0xFFFFFFFF ^^^ 0xFFFFFFFF
        = crc32 (r.file.data.take (r.file.data.length - 4)) := by
      rw [crcChunks_eq, File.data_seek, hdata, File.data_seek, crc32]
      rfl
    have hlast : (r.file.data.drop (r.file.data.length - 4)).take 4
        = r.file.data.drop (r.file.data.length - 4) :=
      List.take_of_length_le (by rw [List.length_drop]; omega)
    rw [if_neg hsize, hread, and_iff_right hle]
    dsimp only
    rw [hsum]
    show decide (_ = ofLeBytes ((r.file.data.drop (r.file.data.length - 4)).take 4)) = true ↔ _
    rw [hlast, decide_eq_true_iff]

/-- **What `Open` asks of any bytes.** -/
theorem open_isSome_iff (data : Bytes) : (SSTableReader.open data).isSome ↔ Accepted data := by
  have hheader := SSTableReader.readHeader_isSome_iff (r := { file := { data := data } }) rfl
  rw [SSTableReader.open]
  dsimp only
  constructor
  · intro h
    obtain ⟨r, hr⟩ := Option.isSome_iff_exists.mp h
    obtain ⟨⟨r₁, count⟩, hread, hr⟩ := Option.bind_eq_some_iff.mp hr
    obtain ⟨r₂, hindices, hr⟩ := Option.bind_eq_some_iff.mp hr
    obtain ⟨_, hguard, -⟩ := Option.bind_eq_some_iff.mp hr
    obtain ⟨hmagic, hversion, hroom⟩ := hheader.mp (by rw [hread]; rfl)
    obtain ⟨hdata₁, hpos₁, -, hcount⟩ := SSTableReader.readHeader_eq_some hread
    obtain ⟨hdata₂, -⟩ := SSTableReader.readIndices_eq_some hindices
    have hfields := SSTableReader.readIndices_isSome_iff.mp (Option.isSome_of_eq_some hindices)
    have hcrc := (SSTableReader.checkCrc_iff.mp (of_guard hguard)).2
    dsimp only at hdata₁ hcount hfields
    rw [hdata₁, hpos₁, hcount] at hfields
    rw [hdata₂, hdata₁] at hcrc
    exact ⟨hmagic, hversion, hroom, hfields, hcrc⟩
  · intro h
    obtain ⟨⟨r₁, count⟩, hread⟩ :=
      Option.isSome_iff_exists.mp (hheader.mpr ⟨h.magic, h.version, h.header⟩)
    obtain ⟨hdata₁, hpos₁, -, hcount⟩ := SSTableReader.readHeader_eq_some hread
    dsimp only at hdata₁ hcount
    obtain ⟨r₂, hindices⟩ := Option.isSome_iff_exists.mp
      (SSTableReader.readIndices_isSome_iff (r := r₁) (n := count).mpr (by
        rw [hdata₁, hpos₁, hcount]
        exact h.fields))
    obtain ⟨hdata₂, -⟩ := SSTableReader.readIndices_eq_some hindices
    have hcrc : r₂.checkCrc = true := by
      have hroom := h.header
      refine SSTableReader.checkCrc_iff.mpr ?_
      rw [hdata₂, hdata₁]
      exact ⟨by omega, h.crc⟩
    simp only [hread, hindices, hcrc, guard, if_true, Option.bind_eq_bind, Option.bind_some,
      Option.pure_def, Option.isSome_some]

theorem open_eq_some {data : Bytes} {r : SSTableReader} (h : SSTableReader.open data = some r) :
    r.file.data = data ∧ r.checkCrc = true ∧ r.blocks.length = blockCountField data ∧
      EntriesAt data 32 r.blocks := by
  rw [SSTableReader.open] at h
  dsimp only at h
  obtain ⟨⟨r₁, count⟩, hheader, h⟩ := Option.bind_eq_some_iff.mp h
  obtain ⟨r₂, hindices, h⟩ := Option.bind_eq_some_iff.mp h
  obtain ⟨_, hguard, h⟩ := Option.bind_eq_some_iff.mp h
  cases h
  obtain ⟨hdata₁, hpos₁, hblocks₁, hcount⟩ := SSTableReader.readHeader_eq_some hheader
  obtain ⟨hdata₂, idxs, hblocks₂, hlen, hentries⟩ := SSTableReader.readIndices_eq_some hindices
  have hidxs : r.blocks = idxs := by
    rw [hblocks₂, hblocks₁]
    rfl
  rw [hdata₁, hpos₁] at hentries
  refine ⟨hdata₂.trans hdata₁, of_guard hguard, ?_, ?_⟩
  · rw [hidxs, hlen]
    exact hcount
  · rw [hidxs]
    exact hentries

/-! ## Well-formed files -/

/-- Where a block ends: two timestamps, two lengths, two payloads. -/
def BlockIndex.stop (idx : BlockIndex) : Nat :=
  idx.fileOffset + 8 + 8 + 4 + idx.tsCompSize + 4 + idx.valCompSize

/-- The blocks lie beside each other and fill the bytes from `start` to `stop`. -/
def Fill (start stop : Nat) : List BlockIndex → Prop
  | [] => start = stop
  | idx :: idxs => idx.fileOffset = start ∧ Fill idx.stop stop idxs

/-- What the format says of a file, and its index: the blocks are those the header announces, each
with the lengths in its fields, and they fill what is between the header and the checksum. -/
structure WellFormed (data : Bytes) (r : SSTableReader) : Prop where
  announced : r.blocks.length = blockCountField data
  fields : ∀ idx ∈ r.blocks, indexAt data idx.fileOffset idx
  inside : ∀ idx ∈ r.blocks, 32 ≤ idx.fileOffset ∧ idx.stop + 4 ≤ data.length
  fill : Fill 32 (data.length - 4) r.blocks

theorem EntriesAt.fields {data : Bytes} {pos : Nat} {idxs : List BlockIndex}
    (h : EntriesAt data pos idxs) : ∀ idx ∈ idxs, indexAt data idx.fileOffset idx := by
  induction idxs generalizing pos with
  | nil => simp
  | cons idx idxs ih =>
    obtain ⟨hidx, hrest⟩ := h
    intro other hother
    cases List.mem_cons.mp hother with
    | inl heq =>
      rw [heq, hidx.1]
      exact hidx
    | inr hmem => exact ih hrest other hmem

theorem indexAt.stop_eq {data : Bytes} {pos : Nat} {idx : BlockIndex} (h : indexAt data pos idx) :
    idx.stop = blockEnd data pos := by
  obtain ⟨hoffset, hts, hval⟩ := h
  rw [BlockIndex.stop, blockEnd, hoffset, hts, hval]
  omega

/-- The blocks fill what their lengths add up to. -/
theorem EntriesAt.fill_iff {data : Bytes} {pos stop : Nat} {idxs : List BlockIndex}
    (h : EntriesAt data pos idxs) :
    Fill pos stop idxs ↔ blocksEnd data pos idxs.length = stop := by
  induction idxs generalizing pos with
  | nil => rfl
  | cons idx idxs ih =>
    obtain ⟨hidx, hrest⟩ := h
    rw [Fill, hidx.stop_eq, and_iff_right hidx.1, ih hrest, List.length_cons, blocksEnd]

theorem Fill.inside {start stop : Nat} {idxs : List BlockIndex} (h : Fill start stop idxs) :
    start ≤ stop ∧ ∀ idx ∈ idxs, start ≤ idx.fileOffset ∧ idx.stop ≤ stop := by
  induction idxs generalizing start with
  | nil =>
    rw [Fill] at h
    exact ⟨Nat.le_of_eq h, by simp⟩
  | cons idx idxs ih =>
    obtain ⟨hstart, hrest⟩ := h
    obtain ⟨hle, hinside⟩ := ih hrest
    have hgrow : start ≤ idx.stop := by
      rw [BlockIndex.stop, hstart]
      omega
    refine ⟨hgrow.trans hle, ?_⟩
    intro other hother
    cases List.mem_cons.mp hother with
    | inl heq =>
      rw [heq]
      exact ⟨Nat.le_of_eq hstart.symm, hle⟩
    | inr hmem =>
      obtain ⟨hfrom, hto⟩ := hinside other hmem
      exact ⟨hgrow.trans hfrom, hto⟩

/-- **`Open` accepts only well-formed files exactly as far as the announced lengths add up.** -/
theorem open_wellFormed_iff (data : Bytes) :
    (∀ r, SSTableReader.open data = some r → WellFormed data r) ↔
      (Accepted data → blocksEnd data 32 (blockCountField data) = data.length - 4) := by
  constructor
  · intro h haccepted
    obtain ⟨r, hr⟩ := Option.isSome_iff_exists.mp ((open_isSome_iff data).mpr haccepted)
    obtain ⟨-, -, hcount, hentries⟩ := open_eq_some hr
    rw [← hcount]
    exact hentries.fill_iff.mp (h r hr).fill
  · intro h r hr
    obtain ⟨hdata, hcrc, hcount, hentries⟩ := open_eq_some hr
    have hsize : 4 ≤ data.length := by
      have hle := (SSTableReader.checkCrc_iff.mp hcrc).1
      rwa [hdata] at hle
    have hsum := h ((open_isSome_iff data).mp (by rw [hr]; rfl))
    rw [← hcount] at hsum
    have hfill := hentries.fill_iff.mpr hsum
    refine ⟨hcount, hentries.fields, ?_, hfill⟩
    intro idx hidx
    obtain ⟨hfrom, hto⟩ := hfill.inside.2 idx hidx
    exact ⟨hfrom, by omega⟩

set_option maxRecDepth 4096 in
/-- **A block whose values are not in the file**: 4294967295 bytes of them are announced, and the
checksum is behind the announcement. -/
theorem open_announces_more :
    ∃ r, SSTableReader.open (headerBytes 1 ++ List.replicate 20 0 ++ List.replicate 4 0xff
        ++ [0x3f, 0x63, 0x39, 0x58]) = some r ∧
      ¬ WellFormed (headerBytes 1 ++ List.replicate 20 0 ++ List.replicate 4 0xff
        ++ [0x3f, 0x63, 0x39, 0x58]) r := by
  have haccepted : Accepted (headerBytes 1 ++ List.replicate 20 0 ++ List.replicate 4 0xff
      ++ [0x3f, 0x63, 0x39, 0x58]) := by
    constructor
    all_goals decide
  obtain ⟨r, hr⟩ := Option.isSome_iff_exists.mp ((open_isSome_iff _).mpr haccepted)
  refine ⟨r, hr, ?_⟩
  intro hformed
  obtain ⟨-, -, hcount, hentries⟩ := open_eq_some hr
  have hsum := hentries.fill_iff.mp hformed.fill
  rw [hcount] at hsum
  revert hsum
  decide

set_option maxRecDepth 4096 in
/-- An empty file of the writer is well formed. -/
theorem open_wellFormed_iff_empty :
    ∃ r, SSTableReader.open (headerBytes 0 ++ [0x5e, 0x1c, 0xfe, 0x48]) = some r ∧
      WellFormed (headerBytes 0 ++ [0x5e, 0x1c, 0xfe, 0x48]) r := by
  have haccepted : Accepted (headerBytes 0 ++ [0x5e, 0x1c, 0xfe, 0x48]) := by
    constructor
    all_goals decide
  obtain ⟨r, hr⟩ := Option.isSome_iff_exists.mp ((open_isSome_iff _).mpr haccepted)
  refine ⟨r, hr, (open_wellFormed_iff _).mpr ?_ r hr⟩
  intro _
  decide

/-! ## Damage -/

/-- **The checksum of a whole file is one number.** -/
theorem foldl_of_checkCrc {data : Bytes} (hsize : 4 ≤ data.length)
    (h : (crc32 (data.take (data.length - 4))).toNat = ofLeBytes (data.drop (data.length - 4))) :
    (data.foldl (crcByte kCrc32) 0xFFFFFFFF).toBitVec
      = kTableCrc.shift^[4] (0xFFFFFFFF : UInt32).toBitVec := by
  have htail : (data.drop (data.length - 4)).length = 4 := by
    rw [List.length_drop]
    omega
  have hword : TableCrc.word 32 (data.drop (data.length - 4))
      = (data.take (data.length - 4)).foldl kTableCrc.step (0xFFFFFFFF : UInt32).toBitVec
        ^^^ (0xFFFFFFFF : UInt32).toBitVec := by
    rw [TableCrc.word_eq_ofNat, ← h, ← toBitVec_foldl_crcByte, ← UInt32.toBitVec_xor]
    exact (BitVec.ofNat_toNat 32 _).trans (BitVec.setWidth_eq _)
  have hresidue := (kTableCrc.foldl_step_residue (by omega) _ _).mpr hword
  rw [List.take_append_drop, htail] at hresidue
  rw [toBitVec_foldl_crcByte, hresidue]

theorem checkCrc_damaged {front window window' back : Bytes}
    (hlen : window.length = window'.length) (hfit : window.length ≤ 4) (hne : window ≠ window')
    {r r' : SSTableReader} (hr : r.file.data = front ++ window ++ back)
    (hr' : r'.file.data = front ++ window' ++ back) (h : r.checkCrc = true) :
    r'.checkCrc = false := by
  refine Bool.eq_false_iff.mpr ?_
  intro h'
  obtain ⟨hsize, hcrc⟩ := SSTableReader.checkCrc_iff.mp h
  obtain ⟨hsize', hcrc'⟩ := SSTableReader.checkCrc_iff.mp h'
  have hsame : r.file.data.foldl kTableCrc.step (0xFFFFFFFF : UInt32).toBitVec
      = r'.file.data.foldl kTableCrc.step (0xFFFFFFFF : UInt32).toBitVec := by
    rw [← toBitVec_foldl_crcByte, ← toBitVec_foldl_crcByte, foldl_of_checkCrc hsize hcrc,
      foldl_of_checkCrc hsize' hcrc']
  rw [hr, hr'] at hsame
  exact kTableCrc.foldl_step_ne hlen (by omega) hne _ hsame

/-- Texts that agree outside four places are two texts around two windows. -/
theorem exists_window {data data' : Bytes} (i : Nat)
    (hout : ∀ j, j < i ∨ i + 4 ≤ j → data'[j]? = data[j]?) :
    data' = data.take i ++ (data'.drop i).take 4 ++ data.drop (i + 4) := by
  have hfront : data'.take i = data.take i := by
    refine List.ext_getElem? ?_
    intro j
    rw [List.getElem?_take, List.getElem?_take]
    split
    · exact hout j (.inl ‹_›)
    · rfl
  have hback : data'.drop (i + 4) = data.drop (i + 4) := by
    refine List.ext_getElem? ?_
    intro j
    rw [List.getElem?_drop, List.getElem?_drop]
    exact hout _ (.inr (by omega))
  rw [← hfront, ← hback, List.append_assoc, ← List.drop_drop, List.take_append_drop,
    List.take_append_drop]

/-- **A written file, damaged within four bytes, does not open.** -/
theorem open_damaged (blocks : List CompressedBlock) (data : Bytes) (i : Nat)
    (hlen : data.length = (sstableBytes blocks).length)
    (hout : ∀ j, j < i ∨ i + 4 ≤ j → data[j]? = (sstableBytes blocks)[j]?)
    (hne : data ≠ sstableBytes blocks) : SSTableReader.open data = none := by
  obtain ⟨r, hr, -⟩ := open_sstableBytes blocks
  obtain ⟨hdata, hcrc, -⟩ := open_eq_some hr
  cases hopen : SSTableReader.open data with
  | none => rfl
  | some r' =>
    obtain ⟨hdata', hcrc', -⟩ := open_eq_some hopen
    have hfront := exists_window i hout
    have hwhole := exists_window i (fun j _ => rfl : ∀ j, j < i ∨ i + 4 ≤ j →
      (sstableBytes blocks)[j]? = (sstableBytes blocks)[j]?)
    have hwindow : ((sstableBytes blocks).drop i).take 4 ≠ (data.drop i).take 4 := by
      intro heq
      rw [← heq, ← hwhole] at hfront
      exact hne hfront
    have hfalse := checkCrc_damaged (by simp [hlen]) (by simp) hwindow (hdata.trans hwhole)
      (hdata'.trans hfront) hcrc
    rw [hcrc'] at hfalse
    cases hfalse

/-- The empty file with its first letter gone. -/
theorem open_damaged_magic : SSTableReader.open ((sstableBytes []).set 0 0) = none := by
  refine open_damaged [] _ 0 (by simp) ?_ ?_
  · intro j hj
    rw [List.getElem?_set_ne (by omega)]
  · intro heq
    have hfirst := congrArg (·[0]?) heq
    rw [sstableBytes_eq] at hfirst
    revert hfirst
    decide

end Storage
end MiniTSDB
