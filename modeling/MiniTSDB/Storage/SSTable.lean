import MiniTSDB.Lib.Fields
import MiniTSDB.Storage.BlockCompressor
import MiniTSDB.Storage.Crc32

/-!
# SSTable files (`sstable.h`, `sstable.cpp`)

The writer and the reader, call by call. A file is a 32-byte header, the blocks, each with its
range and its two length-prefixed streams, and a CRC-32 over all of it (`sstableBytes_eq`). What
a block is stored without is its point count and its string data.

`open_sstableBytes` is the specification of the pair: a file the writer has closed opens, and a
range query gives, block by block, the points of the two streams that lie in the range. It holds
of blocks of any size, with what the `uint32_t` length fields keep of them.
-/

namespace MiniTSDB
namespace Storage

open Lib Os

def sstableMagic : Bytes := ascii "MINITSDB"

def sstableVersionCrc : Nat := 2

/-! ## The writer -/

/-- `SSTableWriter`, open. -/
structure SSTableWriter where
  file : File
  blockCount : Nat := 0
  deriving DecidableEq, Repr

/-- `SSTableWriter::Open`: the file is created or emptied, and the header's place taken. -/
def SSTableWriter.open : SSTableWriter :=
  let header := sstableMagic ++ leBytes 4 sstableVersionCrc ++ List.replicate 20 0
  { file := File.write { data := [] } header }

def SSTableWriter.addBlock (w : SSTableWriter) (block : CompressedBlock) : SSTableWriter :=
  let tsLen := block.timestamps.length % 2 ^ 32
  let valLen := block.values.length % 2 ^ 32
  let file := w.file.write (timestampBytes block.range.start)
  let file := file.write (timestampBytes block.range.stop)
  let file := file.write (leBytes 4 tsLen)
  let file := file.write (block.timestamps.take tsLen)
  let file := file.write (leBytes 4 valLen)
  let file := file.write (block.values.take valLen)
  { file := file, blockCount := w.blockCount + 1 }

/-- `SSTableWriter::Close`; what the file then holds. The block count, a `size_t`, goes over the
zeros behind the tag length. -/
def SSTableWriter.close (w : SSTableWriter) : Bytes :=
  let dataEnd := w.file.pos
  let file := w.file.seek 12 .set
  let file := file.write (leBytes 2 0)
  let file := file.write (leBytes 8 w.blockCount)
  let crc := crcChunks (file.seek 0 .set) dataEnd 0xFFFFFFFF ^^^ 0xFFFFFFFF
  let file := file.seek 0 .fromEnd
  (file.write (leBytes 4 crc.toNat)).data

/-- The file that `Open`, `AddBlock` for each block and `Close` leave. -/
def sstableBytes (blocks : List CompressedBlock) : Bytes :=
  (blocks.foldl SSTableWriter.addBlock SSTableWriter.open).close

/-! ## The reader -/

structure BlockIndex where
  range : TimeRange
  fileOffset : Nat
  tsCompSize : Nat
  valCompSize : Nat
  deriving DecidableEq, Repr

structure SSTableReader where
  file : File
  tagName : Bytes := []
  range : TimeRange := { start := Int64.maxValue, stop := 0 }
  blocks : List BlockIndex := []
  deriving DecidableEq, Repr

/-- `SSTableReader::ReadHeader`; the block count is passed on. -/
def SSTableReader.readHeader (r : SSTableReader) : Option (SSTableReader × Nat) := do
  let (magic, file) := r.file.read 8
  guard (magic = sstableMagic)
  let (version, file) ← file.readExact 4
  guard (ofLeBytes version = sstableVersionCrc)
  let (tagLen, file) ← (file.seek 12 .set).readExact 2
  -- `if (tag_len > 0)`: reading nothing changes nothing
  let (tagName, file) ← file.readExact (ofLeBytes tagLen)
  let (blockCount, file) ← file.readExact 4
  pure ({ r with file := file.seek 32 .set, tagName := tagName }, ofLeBytes blockCount)

/-- One turn of `ReadBlockIndex`'s loop. -/
def SSTableReader.readIndex (r : SSTableReader) : Option SSTableReader := do
  let fileOffset := r.file.pos
  let (start, file) ← r.file.readExact 8
  let (stop, file) ← file.readExact 8
  let (tsLen, file) ← file.readExact 4
  let file := file.seek (ofLeBytes tsLen) .cur
  let (valLen, file) ← file.readExact 4
  let file := file.seek (ofLeBytes valLen) .cur
  let idx : BlockIndex :=
    { range := { start := timestampOfBytes start, stop := timestampOfBytes stop }
      fileOffset := fileOffset
      tsCompSize := ofLeBytes tsLen
      valCompSize := ofLeBytes valLen }
  let range : TimeRange :=
    { start := if r.range.start = Int64.maxValue ∨ idx.range.start < r.range.start
        then idx.range.start else r.range.start
      stop := if idx.range.stop > r.range.stop then idx.range.stop else r.range.stop }
  pure { r with file := file, blocks := r.blocks ++ [idx], range := range }

/-- `ReadBlockIndex`'s loop. -/
def SSTableReader.readIndices (r : SSTableReader) : Nat → Option SSTableReader
  | 0 => some r
  | n + 1 => r.readIndex.bind fun r => r.readIndices n

def SSTableReader.checkCrc (r : SSTableReader) : Bool :=
  if r.file.size < 4 then false
  else
    match (r.file.seek (r.file.size - 4) .set).readExact 4 with
    | none => false
    | some (storedCrc, file) =>
      let computedCrc := crcChunks (file.seek 0 .set) (r.file.size - 4) 0xFFFFFFFF ^^^ 0xFFFFFFFF
      computedCrc.toNat = ofLeBytes storedCrc

/-- `SSTableReader::Open` on a file of these bytes. -/
def SSTableReader.open (data : Bytes) : Option SSTableReader := do
  let r : SSTableReader := { file := { data := data } }
  let (r, blockCount) ← r.readHeader
  let r ← r.readIndices blockCount
  guard r.checkCrc
  pure r

/-- One block read back by `ReadRange`: both streams, and nothing else of the block. -/
def SSTableReader.readBlock (r : SSTableReader) (idx : BlockIndex) : CompressedBlock :=
  let file := r.file.seek idx.fileOffset .set
  let (_, file) := file.read 8
  let (_, file) := file.read 8
  let (tsLen, file) := file.readInto 4
  let (timestamps, file) := file.readInto (ofLeBytes tsLen)
  let (valLen, file) := file.readInto 4
  let (values, _) := file.readInto (ofLeBytes valLen)
  { timestamps := timestamps, values := values }

def SSTableReader.readRange (r : SSTableReader) (range : TimeRange) : List DataPoint :=
  (r.blocks.filter fun idx => idx.range.overlaps range).flatMap fun idx =>
    (BlockCompressor.decompress (r.readBlock idx)).filter fun p => range.contains p.ts

/-! ## What the writer leaves -/

def headerBytes (blockCount : Nat) : Bytes :=
  sstableMagic ++ leBytes 4 sstableVersionCrc ++ leBytes 2 0 ++ leBytes 8 blockCount
    ++ List.replicate 10 0

def blockBytes (block : CompressedBlock) : Bytes :=
  timestampBytes block.range.start ++ timestampBytes block.range.stop
    ++ leBytes 4 (block.timestamps.length % 2 ^ 32)
    ++ block.timestamps.take (block.timestamps.length % 2 ^ 32)
    ++ leBytes 4 (block.values.length % 2 ^ 32)
    ++ block.values.take (block.values.length % 2 ^ 32)

@[simp] theorem length_headerBytes (n : Nat) : (headerBytes n).length = 32 := by
  simp [headerBytes, sstableMagic, ascii]

private theorem addBlock_at {w : SSTableWriter} {before : Bytes} (h : w.file.At before [])
    (block : CompressedBlock) : (w.addBlock block).file.At (before ++ blockBytes block) [] := by
  have hrange := (h.write (timestampBytes block.range.start)).write
    (timestampBytes block.range.stop)
  have hts := (hrange.write (leBytes 4 (block.timestamps.length % 2 ^ 32))).write
    (block.timestamps.take (block.timestamps.length % 2 ^ 32))
  have hvals := (hts.write (leBytes 4 (block.values.length % 2 ^ 32))).write
    (block.values.take (block.values.length % 2 ^ 32))
  simpa only [SSTableWriter.addBlock, blockBytes, List.append_assoc] using hvals

private theorem addBlocks_at {w : SSTableWriter} {before : Bytes} (h : w.file.At before [])
    (blocks : List CompressedBlock) :
    (blocks.foldl SSTableWriter.addBlock w).file.At (before ++ blocks.flatMap blockBytes) [] ∧
      (blocks.foldl SSTableWriter.addBlock w).blockCount = w.blockCount + blocks.length := by
  induction blocks generalizing w before with
  | nil => simpa using h
  | cons block blocks ih =>
    obtain ⟨hat, hcount⟩ := ih (addBlock_at h block)
    refine ⟨by simpa using hat, ?_⟩
    have hstep : (w.addBlock block).blockCount = w.blockCount + 1 := rfl
    rw [List.foldl_cons, hcount, hstep, List.length_cons]
    omega

/-- Everything in the file before its checksum. -/
def sstableBody (blocks : List CompressedBlock) : Bytes :=
  headerBytes blocks.length ++ blocks.flatMap blockBytes

/-- **The file's layout.** -/
theorem sstableBytes_eq (blocks : List CompressedBlock) :
    sstableBytes blocks = sstableBody blocks ++ leBytes 4 (crc32 (sstableBody blocks)).toNat := by
  have hopen : SSTableWriter.open.file.At
      (sstableMagic ++ leBytes 4 sstableVersionCrc ++ List.replicate 20 0) [] := by
    constructor <;> rfl
  obtain ⟨hat, hcount⟩ := addBlocks_at hopen blocks
  generalize hw : blocks.foldl SSTableWriter.addBlock SSTableWriter.open = w at hat hcount
  rw [sstableBytes, hw, SSTableWriter.close]
  -- the header's first twelve bytes, the two fields behind them, and the rest
  have hdata : w.file.data = (sstableMagic ++ leBytes 4 sstableVersionCrc)
      ++ (List.replicate 2 0 ++ (List.replicate 8 0 ++ (List.replicate 10 0
        ++ blocks.flatMap blockBytes))) := by
    rw [hat.data_eq]
    simp [List.replicate_succ]
  have hend : w.file.pos = (sstableBody blocks).length := by
    rw [hat.pos_eq]
    simp [sstableBody, sstableMagic, ascii]
    omega
  have hseek := File.At.of_seek_set (n := 12) hdata (by rfl)
  have hfields := (hseek.overwrite (leBytes 2 0) rfl).overwrite (leBytes 8 w.blockCount) (by simp)
  have hbody : (((w.file.seek 12 .set).write (leBytes 2 0)).write
      (leBytes 8 w.blockCount)).data = sstableBody blocks := by
    rw [hfields.data_eq, hcount]
    simp [sstableBody, headerBytes, SSTableWriter.open]
  generalize ((w.file.seek 12 .set).write (leBytes 2 0)).write (leBytes 8 w.blockCount) = f
    at hbody
  have hcrc : crcChunks (f.seek 0 .set) w.file.pos 0xFFFFFFFF ^^^ 0xFFFFFFFF
      = crc32 (sstableBody blocks) := by
    rw [crcChunks_eq, File.data_seek, hbody, hend, crc32]
    simp [File.seek]
  have hlast : (f.seek 0 .fromEnd).At (sstableBody blocks) [] := by
    constructor <;> simp [File.seek, hbody]
  rw [hcrc, (hlast.write _).data_eq, List.append_nil]

/-! ## What the reader finds -/

private theorem readHeader_at {r : SSTableReader} {n : Nat} {rest : Bytes}
    (h : r.file.At [] (headerBytes n ++ rest)) :
    ∃ r', r.readHeader = some (r', n % 2 ^ 32) ∧ r'.file.At (headerBytes n) rest ∧
      r'.blocks = r.blocks := by
  have hcount : leBytes 8 n = leBytes 4 n ++ leBytes 4 (n / 2 ^ 32) := leBytes_add 4 4 n
  have hdata : r.file.data = (sstableMagic ++ leBytes 4 sstableVersionCrc) ++ (leBytes 2 0
      ++ (leBytes 4 n ++ (leBytes 4 (n / 2 ^ 32) ++ List.replicate 10 0 ++ rest))) := by
    rw [h.data_eq, headerBytes, hcount]
    simp
  have hstart : r.file.At [] (sstableMagic ++ (leBytes 4 sstableVersionCrc ++ (leBytes 2 0
      ++ (leBytes 4 n ++ (leBytes 4 (n / 2 ^ 32) ++ List.replicate 10 0 ++ rest))))) :=
    ⟨by rw [hdata]; simp, h.pos_eq⟩
  obtain ⟨hmagic, hat⟩ := hstart.read (n := 8) rfl
  obtain ⟨f, hversion, hat⟩ := hat.readExact (n := 4) (by simp)
  have hseek : (f.seek 12 .set).At (sstableMagic ++ leBytes 4 sstableVersionCrc) _ :=
    .of_seek_set hat.data_eq rfl
  obtain ⟨f₁, htagLen, hat⟩ := hseek.readExact (n := 2) (by simp)
  obtain ⟨f₂, hblockCount, hat⟩ := hat.readExact (n := 4) (by simp)
  refine ⟨{ r with file := f₂.seek 32 .set, tagName := [] }, ?_, ?_, rfl⟩
  · have hver : ofLeBytes (leBytes 4 sstableVersionCrc) = sstableVersionCrc := by decide
    have hzero : ofLeBytes (leBytes 2 0) = 0 := by decide
    rw [SSTableReader.readHeader]
    simp only [hmagic, hversion, hver, htagLen, hzero, File.readExact_zero,
      hblockCount, ofLeBytes_leBytes, guard, if_true, Option.bind_eq_bind, Option.bind_some,
      Option.pure_def]
    rfl
  · refine .of_seek_set ?_ (length_headerBytes n)
    rw [hat.data_eq, headerBytes, hcount]
    simp

/-- What an index entry has to do with the block it is for. -/
structure BlockIndex.Locates (idx : BlockIndex) (data : Bytes) (block : CompressedBlock) :
    Prop where
  range_eq : idx.range = block.range
  found : ∃ before rest, data = before ++ (blockBytes block ++ rest) ∧
    before.length = idx.fileOffset

private theorem ofLeBytes_length_field (n : Nat) :
    ofLeBytes (leBytes 4 (n % 2 ^ 32)) = n % 2 ^ 32 :=
  ofLeBytes_leBytes_of_lt (Nat.mod_lt _ (by decide))

private theorem length_take_mod (bs : Bytes) :
    (bs.take (bs.length % 2 ^ 32)).length = bs.length % 2 ^ 32 := by
  rw [List.length_take]
  exact Nat.min_eq_left (Nat.mod_le _ _)

private theorem readIndex_at {r : SSTableReader} {before rest : Bytes} {block : CompressedBlock}
    (h : r.file.At before (blockBytes block ++ rest)) :
    ∃ r' idx, r.readIndex = some r' ∧ r'.file.At (before ++ blockBytes block) rest ∧
      r'.blocks = r.blocks ++ [idx] ∧ idx.Locates r.file.data block := by
  have hfields := h
  simp only [blockBytes, List.append_assoc] at hfields
  obtain ⟨f₁, hstart, hat⟩ := hfields.readExact (n := 8) (by simp)
  obtain ⟨f₂, hstop, hat⟩ := hat.readExact (n := 8) (by simp)
  obtain ⟨f₃, htsLen, hat⟩ := hat.readExact (n := 4) (by simp)
  have hat := hat.skip (length_take_mod block.timestamps)
  obtain ⟨f₄, hvalLen, hat⟩ := hat.readExact (n := 4) (by simp)
  have hat := hat.skip (length_take_mod block.values)
  have hread : r.readIndex.isSome ∧ ∀ r' ∈ r.readIndex,
      r'.file.At (before ++ blockBytes block) rest ∧
        ∃ idx, r'.blocks = r.blocks ++ [idx] ∧ idx.Locates r.file.data block := by
    rw [SSTableReader.readIndex]
    simp only [hstart, hstop, htsLen, hvalLen, ofLeBytes_length_field,
      timestampOfBytes_timestampBytes, Option.bind_eq_bind, Option.bind_some, Option.pure_def,
      Option.isSome_some, Option.mem_some, true_and, forall_eq']
    refine ⟨by simpa only [blockBytes, List.append_assoc] using hat, _, rfl, rfl, ?_⟩
    exact ⟨before, rest, h.data_eq, h.pos_eq.symm⟩
  obtain ⟨r', hr'⟩ := Option.isSome_iff_exists.mp hread.1
  obtain ⟨hat', idx, hblocks, hidx⟩ := hread.2 r' hr'
  exact ⟨r', idx, hr', hat', hblocks, hidx⟩

private theorem readIndices_at {r : SSTableReader} {before rest : Bytes}
    {blocks : List CompressedBlock} (h : r.file.At before (blocks.flatMap blockBytes ++ rest)) :
    ∃ r' idxs, r.readIndices blocks.length = some r' ∧ r'.file.data = r.file.data ∧
      r'.blocks = r.blocks ++ idxs ∧
      List.Forall₂ (BlockIndex.Locates · r.file.data ·) idxs blocks := by
  induction blocks generalizing r before with
  | nil => exact ⟨r, [], rfl, rfl, by simp, .nil⟩
  | cons block blocks ih =>
    rw [List.flatMap_cons, List.append_assoc] at h
    obtain ⟨r₁, idx, hr₁, hat, hblocks₁, hidx⟩ := readIndex_at h
    obtain ⟨r', idxs, hr', hdata', hblocks', hidxs⟩ := ih hat
    have hdata : r₁.file.data = r.file.data := by
      rw [hat.data_eq, h.data_eq, List.append_assoc]
    refine ⟨r', idx :: idxs, ?_, hdata'.trans hdata, ?_, .cons hidx (hdata ▸ hidxs)⟩
    · rw [List.length_cons, SSTableReader.readIndices, hr₁, Option.bind_some, hr']
    · rw [hblocks', hblocks₁, List.append_assoc]
      rfl

private theorem checkCrc_of_data {r : SSTableReader} {body : Bytes}
    (h : r.file.data = body ++ leBytes 4 (crc32 body).toNat) : r.checkCrc = true := by
  have hsize : r.file.size = body.length + 4 := by simp [File.size, h]
  have hdata : r.file.data = body ++ (leBytes 4 (crc32 body).toNat ++ []) := by simpa using h
  have hseek : (r.file.seek (r.file.size - 4) .set).At body (leBytes 4 (crc32 body).toNat ++ []) :=
    .of_seek_set hdata (by omega)
  obtain ⟨f, hread, hat⟩ := hseek.readExact (n := 4) (by simp)
  have hsum : crcChunks (f.seek 0 .set) (r.file.size - 4) 0xFFFFFFFF ^^^ 0xFFFFFFFF
      = crc32 body := by
    rw [crcChunks_eq, File.data_seek, hat.data_eq, hsize, crc32]
    simp [File.seek]
  rw [SSTableReader.checkCrc, if_neg (by omega)]
  simp only [hread, hsum]
  rw [ofLeBytes_leBytes_of_lt (crc32 body).toNat_lt]
  simp

/-- What a file keeps of a block's streams. -/
def CompressedBlock.inFile (block : CompressedBlock) : CompressedBlock :=
  { timestamps := block.timestamps.take (block.timestamps.length % 2 ^ 32)
    values := block.values.take (block.values.length % 2 ^ 32) }

private theorem readBlock_at {r : SSTableReader} {idx : BlockIndex} {block : CompressedBlock}
    (h : idx.Locates r.file.data block) : r.readBlock idx = block.inFile := by
  obtain ⟨before, rest, hdata, hlen⟩ := h.found
  simp only [blockBytes, List.append_assoc] at hdata
  have hseek := File.At.of_seek_set hdata hlen
  obtain ⟨-, hat⟩ := hseek.read (n := 8) (by simp)
  obtain ⟨-, hat⟩ := hat.read (n := 8) (by simp)
  obtain ⟨f₁, htsLen, hat⟩ := hat.readInto (n := 4) (by simp)
  obtain ⟨f₂, hts, hat⟩ := hat.readInto (length_take_mod block.timestamps)
  obtain ⟨f₃, hvalLen, hat⟩ := hat.readInto (n := 4) (by simp)
  obtain ⟨f₄, hvals, -⟩ := hat.readInto (length_take_mod block.values)
  simp only [SSTableReader.readBlock, htsLen, hts, hvalLen, hvals, ofLeBytes_length_field,
    CompressedBlock.inFile]

/-- What a range query gives of one block. -/
def CompressedBlock.readRange (range : TimeRange) (block : CompressedBlock) : List DataPoint :=
  if block.range.overlaps range then
    (BlockCompressor.decompress block.inFile).filter fun p => range.contains p.ts
  else []

private theorem readRange_of_forall₂ {r : SSTableReader} {blocks : List CompressedBlock}
    (range : TimeRange)
    (h : List.Forall₂ (BlockIndex.Locates · r.file.data ·) r.blocks blocks) :
    r.readRange range = blocks.flatMap (CompressedBlock.readRange range) := by
  rw [SSTableReader.readRange]
  generalize r.blocks = idxs at h
  induction h with
  | nil => rfl
  | @cons idx block idxs blocks hidx _ ih =>
    rw [List.flatMap_cons, CompressedBlock.readRange, ← ih, List.filter_cons, hidx.range_eq]
    split
    · rw [List.flatMap_cons, readBlock_at hidx]
    · rfl

/-- **What a written file reads back as**: it opens, and a query is answered block by block. -/
theorem open_sstableBytes (blocks : List CompressedBlock) :
    ∃ r, SSTableReader.open (sstableBytes blocks) = some r ∧ ∀ range, r.readRange range
      = (blocks.take (blocks.length % 2 ^ 32)).flatMap (CompressedBlock.readRange range) := by
  set kept := blocks.take (blocks.length % 2 ^ 32) with hkept
  have hcount : kept.length = blocks.length % 2 ^ 32 := by
    rw [hkept, List.length_take]
    exact Nat.min_eq_left (Nat.mod_le _ _)
  have hblocks : blocks.flatMap blockBytes
      = kept.flatMap blockBytes ++ (blocks.drop (blocks.length % 2 ^ 32)).flatMap blockBytes := by
    rw [← List.flatMap_append, List.take_append_drop]
  have hdata := sstableBytes_eq blocks
  generalize sstableBytes blocks = data at hdata
  have hstart : File.At { data := data } [] (headerBytes blocks.length ++ (kept.flatMap blockBytes
      ++ ((blocks.drop (blocks.length % 2 ^ 32)).flatMap blockBytes
        ++ leBytes 4 (crc32 (sstableBody blocks)).toNat))) := by
    refine ⟨?_, rfl⟩
    rw [hdata]
    simp [sstableBody, hblocks]
  obtain ⟨r₁, hheader, hat₁, hnone⟩ := readHeader_at (r := { file := { data := data } }) hstart
  obtain ⟨r₂, idxs, hindices, hdata₂, hidxs, hlocates⟩ := readIndices_at hat₁
  have hdata₁ : r₁.file.data = data := by
    rw [hat₁.data_eq]
    exact hstart.data_eq.symm
  have hcrc : r₂.checkCrc = true := checkCrc_of_data (by rw [hdata₂, hdata₁, hdata])
  have hidxs : r₂.blocks = idxs := by rw [hidxs, hnone, List.nil_append]
  refine ⟨r₂, ?_, fun range => readRange_of_forall₂ range ?_⟩
  · rw [SSTableReader.open]
    simp only [hheader, ← hcount, hindices, hcrc, guard, if_true, Option.bind_eq_bind,
      Option.bind_some, Option.pure_def]
  · rw [hidxs, hdata₂]
    exact hlocates

end Storage
end MiniTSDB
