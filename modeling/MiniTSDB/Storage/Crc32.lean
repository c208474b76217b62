import MiniTSDB.Lib.TableCrc
import MiniTSDB.Os.File

/-!
# CRC-32, twice

`sstable.cpp` has the table of the reflected polynomial `0xEDB88320` written out, `wal.cpp`
computes it on first use; `getD_kCrc32Table` says they are the same table, so there is one
checksum. An SSTable is summed in chunks of 64 KB, and `crcChunks_eq` says the chunks do not
show. `kTableCrc` is the table as one of the reflected checksums, with what they tell apart.
-/

namespace MiniTSDB
namespace Storage

open Lib Os

/-- `kCrc32Table` of `sstable.cpp`. -/
def kCrc32Table : Array UInt32 := #[
  0x00000000, 0x77073096, 0xEE0E612C, 0x990951BA, 0x076DC419, 0x706AF48F, 0xE963A535, 0x9E6495A3,
  0x0EDB8832, 0x79DCB8A4, 0xE0D5E91E, 0x97D2D988, 0x09B64C2B, 0x7EB17CBD, 0xE7B82D07, 0x90BF1D91,
  0x1DB71064, 0x6AB020F2, 0xF3B97148, 0x84BE41DE, 0x1ADAD47D, 0x6DDDE4EB, 0xF4D4B551, 0x83D385C7,
  0x136C9856, 0x646BA8C0, 0xFD62F97A, 0x8A65C9EC, 0x14015C4F, 0x63066CD9, 0xFA0F3D63, 0x8D080DF5,
  0x3B6E20C8, 0x4C69105E, 0xD56041E4, 0xA2677172, 0x3C03E4D1, 0x4B04D447, 0xD20D85FD, 0xA50AB56B,
  0x35B5A8FA, 0x42B2986C, 0xDBBBC9D6, 0xACBCF940, 0x32D86CE3, 0x45DF5C75, 0xDCD60DCF, 0xABD13D59,
  0x26D930AC, 0x51DE003A, 0xC8D75180, 0xBFD06116, 0x21B4F4B5, 0x56B3C423, 0xCFBA9599, 0xB8BDA50F,
  0x2802B89E, 0x5F058808, 0xC60CD9B2, 0xB10BE924, 0x2F6F7C87, 0x58684C11, 0xC1611DAB, 0xB6662D3D,
  0x76DC4190, 0x01DB7106, 0x98D220BC, 0xEFD5102A, 0x71B18589, 0x06B6B51F, 0x9FBFE4A5, 0xE8B8D433,
  0x7807C9A2, 0x0F00F934, 0x9609A88E, 0xE10E9818, 0x7F6A0DBB, 0x086D3D2D, 0x91646C97, 0xE6635C01,
  0x6B6B51F4, 0x1C6C6162, 0x856530D8, 0xF262004E, 0x6C0695ED, 0x1B01A57B, 0x8208F4C1, 0xF50FC457,
  0x65B0D9C6, 0x12B7E950, 0x8BBEB8EA, 0xFCB9887C, 0x62DD1DDF, 0x15DA2D49, 0x8CD37CF3, 0xFBD44C65,
  0x4DB26158, 0x3AB551CE, 0xA3BC0074, 0xD4BB30E2, 0x4ADFA541, 0x3DD895D7, 0xA4D1C46D, 0xD3D6F4FB,
  0x4369E96A, 0x346ED9FC, 0xAD678846, 0xDA60B8D0, 0x44042D73, 0x33031DE5, 0xAA0A4C5F, 0xDD0D7CC9,
  0x5005713C, 0x270241AA, 0xBE0B1010, 0xC90C2086, 0x5768B525, 0x206F85B3, 0xB966D409, 0xCE61E49F,
  0x5EDEF90E, 0x29D9C998, 0xB0D09822, 0xC7D7A8B4, 0x59B33D17, 0x2EB40D81, 0xB7BD5C3B, 0xC0BA6CAD,
  0xEDB88320, 0x9ABFB3B6, 0x03B6E20C, 0x74B1D29A, 0xEAD54739, 0x9DD277AF, 0x04DB2615, 0x73DC1683,
  0xE3630B12, 0x94643B84, 0x0D6D6A3E, 0x7A6A5AA8, 0xE40ECF0B, 0x9309FF9D, 0x0A00AE27, 0x7D079EB1,
  0xF00F9344, 0x8708A3D2, 0x1E01F268, 0x6906C2FE, 0xF762575D, 0x806567CB, 0x196C3671, 0x6E6B06E7,
  0xFED41B76, 0x89D32BE0, 0x10DA7A5A, 0x67DD4ACC, 0xF9B9DF6F, 0x8EBEEFF9, 0x17B7BE43, 0x60B08ED5,
  0xD6D6A3E8, 0xA1D1937E, 0x38D8C2C4, 0x4FDFF252, 0xD1BB67F1, 0xA6BC5767, 0x3FB506DD, 0x48B2364B,
  0xD80D2BDA, 0xAF0A1B4C, 0x36034AF6, 0x41047A60, 0xDF60EFC3, 0xA867DF55, 0x316E8EEF, 0x4669BE79,
  0xCB61B38C, 0xBC66831A, 0x256FD2A0, 0x5268E236, 0xCC0C7795, 0xBB0B4703, 0x220216B9, 0x5505262F,
  0xC5BA3BBE, 0xB2BD0B28, 0x2BB45A92, 0x5CB36A04, 0xC2D7FFA7, 0xB5D0CF31, 0x2CD99E8B, 0x5BDEAE1D,
  0x9B64C2B0, 0xEC63F226, 0x756AA39C, 0x026D930A, 0x9C0906A9, 0xEB0E363F, 0x72076785, 0x05005713,
  0x95BF4A82, 0xE2B87A14, 0x7BB12BAE, 0x0CB61B38, 0x92D28E9B, 0xE5D5BE0D, 0x7CDCEFB7, 0x0BDBDF21,
  0x86D3D2D4, 0xF1D4E242, 0x68DDB3F8, 0x1FDA836E, 0x81BE16CD, 0xF6B9265B, 0x6FB077E1, 0x18B74777,
  0x88085AE6, 0xFF0F6A70, 0x66063BCA, 0x11010B5C, 0x8F659EFF, 0xF862AE69, 0x616BFFD3, 0x166CCF45,
  0xA00AE278, 0xD70DD2EE, 0x4E048354, 0x3903B3C2, 0xA7672661, 0xD06016F7, 0x4969474D, 0x3E6E77DB,
  0xAED16A4A, 0xD9D65ADC, 0x40DF0B66, 0x37D83BF0, 0xA9BCAE53, 0xDEBB9EC5, 0x47B2CF7F, 0x30B5FFE9,
  0xBDBDF21C, 0xCABAC28A, 0x53B39330, 0x24B4A3A6, 0xBAD03605, 0xCDD70693, 0x54DE5729, 0x23D967BF,
  0xB3667A2E, 0xC4614AB8, 0x5D681B02, 0x2A6F2B94, 0xB40BBE37, 0xC30C8EA1, 0x5A05DF1B, 0x2D02EF8D]

/-- One step of `InitCrc32`'s inner loop. -/
def initCrc32Step (crc : UInt32) : UInt32 :=
  if crc &&& 1 ≠ 0 then (crc >>> 1) ^^^ 0xEDB88320 else crc >>> 1

/-- `crc32_table[i]`, as `InitCrc32` of `wal.cpp` fills it. -/
def crc32Table (i : UInt32) : UInt32 := (List.range 8).foldl (fun crc _ => initCrc32Step crc) i

/-- The loop body both files share, over their own table. -/
def crcByte (table : UInt32 → UInt32) (crc : UInt32) (byte : UInt8) : UInt32 :=
  table ((crc ^^^ byte.toUInt32) &&& 0xFF) ^^^ (crc >>> 8)

/-- `CalculateCrc32` of `wal.cpp`. -/
def calculateCrc32 (data : Bytes) : UInt32 :=
  data.foldl (crcByte crc32Table) 0xFFFFFFFF ^^^ 0xFFFFFFFF

def kCrc32 (i : UInt32) : UInt32 := kCrc32Table.getD i.toNat 0

/-- `Crc32` of `sstable.cpp`. -/
def crc32 (data : Bytes) : UInt32 := data.foldl (crcByte kCrc32) 0xFFFFFFFF ^^^ 0xFFFFFFFF

/-- The loop that sums `remaining` bytes of an open file, 64 KB at a time. -/
def crcChunks (f : File) (remaining : Nat) (crc : UInt32) : UInt32 :=
  if remaining > 0 then
    let toRead := min remaining (64 * 1024)
    let (chunk, f') := f.read toRead
    if chunk.length = 0 then crc
    else crcChunks f' (remaining - chunk.length) (chunk.foldl (crcByte kCrc32) crc)
  else crc
termination_by remaining

/-! ## One table, one sum -/

set_option maxRecDepth 2000 in
theorem kCrc32Table_eq :
    kCrc32Table.toList = (List.range 256).map fun i => crc32Table (UInt32.ofNat i) := by
  decide

theorem getD_kCrc32Table : ∀ i < 256, kCrc32Table.getD i 0 = crc32Table (UInt32.ofNat i) := by
  intro i hi
  rw [Array.getD_eq_getD_getElem?, ← Array.getElem?_toList, kCrc32Table_eq, List.getElem?_map,
    List.getElem?_range hi, Option.map_some, Option.getD_some]

private theorem and_0xFF_lt (x : UInt32) : (x &&& 0xFF).toNat < 256 := by
  rw [UInt32.toNat_and]
  exact Nat.lt_of_le_of_lt Nat.and_le_right (by decide)

theorem crcByte_kCrc32 : crcByte kCrc32 = crcByte crc32Table := by
  funext crc byte
  rw [crcByte, crcByte, kCrc32, getD_kCrc32Table _ (and_0xFF_lt _), UInt32.ofNat_toNat]

/-- The SSTable's checksum and the WAL's are the same function. -/
theorem crc32_eq_calculateCrc32 : crc32 = calculateCrc32 := by
  funext data
  rw [crc32, calculateCrc32, crcByte_kCrc32]

private theorem take_eq_chunk_append {rest chunk : Bytes} {remaining n : Nat}
    (hchunk : chunk = rest.take (min remaining n)) :
    rest.take remaining
      = chunk ++ (rest.drop chunk.length).take (remaining - chunk.length) := by
  have hlen : chunk.length ≤ remaining := by
    rw [hchunk, List.length_take]
    omega
  have htake : chunk = rest.take chunk.length := by
    rw [hchunk, List.length_take, List.take_eq_take_iff]
    omega
  calc rest.take remaining
      = rest.take (chunk.length + (remaining - chunk.length)) := by rw [Nat.add_sub_cancel' hlen]
    _ = rest.take chunk.length ++ (rest.drop chunk.length).take (remaining - chunk.length) :=
        List.take_add
    _ = chunk ++ (rest.drop chunk.length).take (remaining - chunk.length) := by rw [← htake]

/-- The chunked loop sums what lies ahead of the offset, as much of it as is asked for. -/
theorem crcChunks_eq (f : File) (remaining : Nat) (crc : UInt32) :
    crcChunks f remaining crc
      = ((f.data.drop f.pos).take remaining).foldl (crcByte kCrc32) crc := by
  induction remaining using Nat.strongRecOn generalizing f crc with
  | ind remaining ih =>
    rw [crcChunks]
    split
    case isFalse h => simp [show remaining = 0 by omega]
    case isTrue h =>
      obtain ⟨chunk, hchunk⟩ : ∃ chunk, chunk = (f.read (min remaining (64 * 1024))).1 := ⟨_, rfl⟩
      have hsplit := take_eq_chunk_append hchunk
      simp only [← hchunk]
      split
      case isTrue hempty =>
        have hnil : f.data.drop f.pos = [] := by
          rw [hchunk, File.read, List.length_eq_zero_iff, List.take_eq_nil_iff] at hempty
          exact hempty.resolve_left (by omega)
        simp [hnil]
      case isFalse hpos =>
        rw [ih _ (by omega), File.data_read, File.pos_read, ← hchunk, ← List.drop_drop, hsplit,
          List.foldl_append]

/-! ## What the table tells apart -/

/-- Every number of the list is new; those in front of it are the bits of `seen`. -/
def allNew : Nat → List Nat → Bool
  | _, [] => true
  | seen, x :: l => !seen.testBit x && allNew (seen ||| 2 ^ x) l

theorem nodup_of_allNew {l : List Nat} : ∀ {seen : Nat}, allNew seen l = true →
    l.Nodup ∧ ∀ x ∈ l, seen.testBit x = false := by
  induction l with
  | nil => exact fun _ => ⟨List.nodup_nil, by simp⟩
  | cons x l ih =>
    intro seen h
    rw [allNew, Bool.and_eq_true, Bool.not_eq_true'] at h
    obtain ⟨hnodup, hnew⟩ := ih h.2
    simp only [Nat.testBit_or, Bool.or_eq_false_iff, Nat.testBit_two_pow] at hnew
    refine ⟨List.nodup_cons.mpr ⟨fun hx => ?_, hnodup⟩, ?_⟩
    · simpa using (hnew x hx).2
    · exact List.forall_mem_cons.mpr ⟨h.1, fun y hy => (hnew y hy).1⟩

set_option maxRecDepth 1000 in
/-- The highest octets of the table's words are all different. -/
theorem nodup_kCrc32Table : (kCrc32Table.toList.map (·.toNat / 2 ^ 24)).Nodup := by
  -- one pass over the table, where comparing any two would take 256 * 255 / 2
  have hnew : allNew 0 (kCrc32Table.toList.map (·.toNat / 2 ^ 24)) = true := by decide
  exact (nodup_of_allNew hnew).1

theorem size_kCrc32Table : kCrc32Table.size = 256 := by
  rw [← Array.length_toList, kCrc32Table_eq, List.length_map, List.length_range]

theorem kCrc32_top_inj {i j : Nat} (hi : i < 256) (hj : j < 256)
    (h : (kCrc32Table.getD i 0).toNat / 2 ^ 24 = (kCrc32Table.getD j 0).toNat / 2 ^ 24) :
    i = j := by
  have hlen : (kCrc32Table.toList.map (·.toNat / 2 ^ 24)).length = 256 := by
    rw [List.length_map, Array.length_toList, size_kCrc32Table]
  have hget : ∀ k (hk : k < (kCrc32Table.toList.map (·.toNat / 2 ^ 24)).length),
      (kCrc32Table.toList.map (·.toNat / 2 ^ 24))[k] = (kCrc32Table.getD k 0).toNat / 2 ^ 24 := by
    intro k hk
    have hin : k < kCrc32Table.size := by
      rw [hlen] at hk
      rwa [size_kCrc32Table]
    simp [Array.getD, hin]
  rw [← hlen] at hi hj
  rw [← hget i hi, ← hget j hj] at h
  exact (List.Nodup.getElem_inj_iff nodup_kCrc32Table).mp h

/-- The table of `sstable.cpp` as one of the reflected checksums. -/
def kTableCrc : TableCrc 32 where
  table := fun i => (kCrc32 (UInt32.ofNat i.toNat)).toBitVec
  wide := by decide
  table_inj := by
    intro i j h
    have hindex : ∀ k : BitVec 8,
        kCrc32 (UInt32.ofNat k.toNat) = kCrc32Table.getD k.toNat 0 := by
      intro k
      have hk := k.isLt
      rw [kCrc32, UInt32.toNat_ofNat_of_lt' (by change _ < 2 ^ 32; omega)]
    rw [hindex, hindex] at h
    have htop := congrArg BitVec.toNat h
    rw [BitVec.toNat_ushiftRight, BitVec.toNat_ushiftRight, Nat.shiftRight_eq_div_pow,
      Nat.shiftRight_eq_div_pow] at htop
    exact BitVec.eq_of_toNat_eq (kCrc32_top_inj i.isLt j.isLt htop)

theorem table_kTableCrc (i : BitVec 8) :
    kTableCrc.table i = (kCrc32 (UInt32.ofNat i.toNat)).toBitVec := by
  simp only [kTableCrc]

theorem toBitVec_crcByte (crc : UInt32) (byte : UInt8) :
    (crcByte kCrc32 crc byte).toBitVec = kTableCrc.step crc.toBitVec byte := by
  have hlow : (crc ^^^ byte.toUInt32) &&& 0xFF
      = UInt32.ofNat ((crc.toBitVec ^^^ byte.toBitVec.setWidth 32).setWidth 8).toNat := by
    refine UInt32.toNat_inj.mp ?_
    rw [UInt32.toNat_ofNat_of_lt' (by
      change _ < 2 ^ 32
      have := ((crc.toBitVec ^^^ byte.toBitVec.setWidth 32).setWidth 8).isLt
      omega), BitVec.toNat_setWidth, UInt32.toNat_and]
    exact Nat.and_two_pow_sub_one_eq_mod _ 8
  have hhigh : (crc >>> 8).toBitVec = (crc.toBitVec ^^^ byte.toBitVec.setWidth 32) >>> 8 := by
    have hgone : byte.toBitVec.setWidth 32 >>> 8 = 0#32 := by
      refine BitVec.eq_of_toNat_eq ?_
      have := byte.toNat_lt
      simp
      omega
    rw [BitVec.ushiftRight_xor_distrib, hgone, BitVec.xor_zero]
    rfl
  rw [crcByte, TableCrc.step, TableCrc.shift, hlow, UInt32.toBitVec_xor, hhigh, table_kTableCrc]

theorem toBitVec_foldl_crcByte (bytes : Bytes) (crc : UInt32) :
    (bytes.foldl (crcByte kCrc32) crc).toBitVec = bytes.foldl kTableCrc.step crc.toBitVec := by
  induction bytes generalizing crc with
  | nil => rfl
  | cons byte bytes ih => rw [List.foldl_cons, List.foldl_cons, ih, toBitVec_crcByte]

end Storage
end MiniTSDB
