import MiniTSDB.Lib.Bits

/-!
# The bit cursor of `compressor.cpp`

Both encoders of the block compressor write through the two free functions at the top of
`compressor.cpp`, and both decoders read through a pair of lambdas (`rb`, `rbits`) that are
spelled out twice there, word for word. They are one definition each here.

The cursor is a byte position and a bit position in `0..7`; the `Fin 8` carries the bound the
C++ `int` leaves implicit. What a cursor means is a bit list: `BitBuffer.Holds w bs` says that
the buffer `w` contains exactly the bits `bs`, zero-padded to whole bytes, and `BitReader.rest`
is the list of bits a reader has not consumed yet. Every later statement about the streams is
about those lists; the byte arithmetic ends in this file.
-/

namespace MiniTSDB
namespace Storage

open Lib

/-! ## Writing -/

instance neZeroBits : NeZero (8 : Nat) := ⟨by decide⟩

/-- `std::vector<uint8_t>` together with the `byte_pos`/`bit_pos` pair its writer keeps. -/
structure BitBuffer where
  buf : List UInt8 := []
  bytePos : Nat := 0
  bitPos : Fin 8 := 0
  deriving DecidableEq, Repr

def appendBitToBuffer (w : BitBuffer) (bit : Bool) : BitBuffer :=
  let buf := if w.buf.length ≤ w.bytePos then w.buf ++ [0] else w.buf
  let buf := if bit then buf.modify w.bytePos (· ||| 1 <<< UInt8.ofNat w.bitPos) else buf
  if h : w.bitPos.val + 1 < 8 then
    { buf, bytePos := w.bytePos, bitPos := ⟨w.bitPos + 1, h⟩ }
  else
    { buf, bytePos := w.bytePos + 1, bitPos := 0 }

/-- `AppendBitsToBuffer`: the low `bits` bits of `value`, least significant first. -/
def appendBitsToBuffer (w : BitBuffer) (value : UInt64) (bits : Nat) : BitBuffer :=
  (List.range bits).foldl
    (fun w i => appendBitToBuffer w ((value >>> UInt64.ofNat i) &&& 1 == 1)) w

/-- The buffer contains exactly the bits `bs`, padded with zeros to whole bytes, and the cursor
stands right after them. -/
structure BitBuffer.Holds (w : BitBuffer) (bs : List Bool) : Prop where
  pos : bs.length = 8 * w.bytePos + w.bitPos
  size : w.buf.length = w.bytePos + if w.bitPos = 0 then 0 else 1
  bits : bitsOfBytes w.buf = bs ++ List.replicate (padding bs.length) false

theorem BitBuffer.Holds.empty : BitBuffer.Holds {} [] where
  pos := rfl
  size := rfl
  bits := rfl

theorem BitBuffer.Holds.length_buf {w : BitBuffer} {bs : List Bool} (h : w.Holds bs) :
    8 * w.buf.length = bs.length + padding bs.length := by
  rw [← length_bitsOfBytes, h.bits]
  simp

theorem BitBuffer.Holds.length_buf_le {w : BitBuffer} {bs : List Bool} (h : w.Holds bs) :
    8 * w.buf.length ≤ bs.length + 7 := by
  have hlen := h.length_buf
  unfold padding at hlen
  omega

/-- The byte `AppendBitToBuffer` is about to touch exists after its `push_back`, and the bits
past the cursor are still zeros. -/
private theorem holds_grown {w : BitBuffer} {bs : List Bool} (h : w.Holds bs) :
    let buf := if w.buf.length ≤ w.bytePos then w.buf ++ [0] else w.buf
    w.bytePos < buf.length ∧
      bitsOfBytes buf = bs ++ List.replicate (8 - w.bitPos.val) false ∧
      buf.length = w.bytePos + 1 := by
  obtain ⟨hpos, hsize, hbits⟩ := h
  intro buf
  by_cases hz : w.bitPos = 0
  · rw [hz] at hpos
    rw [if_pos hz] at hsize
    have hpad : padding bs.length = 0 := by unfold padding; omega
    have hbuf : buf = w.buf ++ [0] := if_pos (by omega)
    rw [hbuf, bitsOfBytes_append, hbits, hpad, hz]
    refine ⟨by simp [hsize], ?_, by simp [hsize]⟩
    simp [bitsOfBytes, bitsLE, List.replicate]
  · rw [if_neg hz] at hsize
    have hne : w.bitPos.val ≠ 0 := fun h => hz (Fin.ext h)
    have hpad : padding bs.length = 8 - w.bitPos.val := by unfold padding; omega
    have hbuf : buf = w.buf := if_neg (by omega)
    rw [hbuf, hbits, hpad]
    exact ⟨by omega, rfl, hsize⟩

/-- **Appending a bit appends a bit.** -/
theorem appendBitToBuffer_holds {w : BitBuffer} {bs : List Bool} (h : w.Holds bs) (b : Bool) :
    (appendBitToBuffer w b).Holds (bs ++ [b]) := by
  obtain ⟨hlt, hbits, hlen⟩ := holds_grown h
  have hpos := h.pos
  unfold appendBitToBuffer
  generalize (if w.buf.length ≤ w.bytePos then w.buf ++ [0] else w.buf) = buf at hlt hbits hlen
  -- the touched byte: one more stream bit is decided, one padding zero fewer
  have hnew : bitsOfBytes (if b then buf.modify w.bytePos (· ||| 1 <<< UInt8.ofNat w.bitPos)
      else buf) = (bs ++ [b]) ++ List.replicate (7 - w.bitPos.val) false := by
    have hsplit : List.replicate (8 - w.bitPos.val) false
        = false :: List.replicate (7 - w.bitPos.val) false := by
      rw [← List.replicate_succ]
      congr 1
      omega
    cases b with
    | false => simp [hbits, hsplit]
    | true =>
      rw [if_pos rfl, bitsOfBytes_modify_or w.bitPos hlt, hbits, hsplit, ← hpos,
        List.set_append_right _ _ (Nat.le_refl _), Nat.sub_self]
      simp
  have hsz : (if b then buf.modify w.bytePos (· ||| 1 <<< UInt8.ofNat w.bitPos) else buf).length
      = w.bytePos + 1 := by
    split <;> simp [hlen]
  dsimp only
  split
  · rename_i hroom
    refine ⟨by simp; omega, ?_, ?_⟩
    · have hne : (⟨w.bitPos + 1, hroom⟩ : Fin 8) ≠ 0 := by
        intro h0
        exact absurd (congrArg Fin.val h0) (by simp)
      show List.length _ = w.bytePos + if (⟨w.bitPos + 1, hroom⟩ : Fin 8) = 0 then 0 else 1
      rw [hsz, if_neg hne]
    · rw [hnew]
      congr 2
      simp only [List.length_append, List.length_singleton, padding]
      omega
  · rename_i hfull
    have h7 : w.bitPos.val = 7 := by omega
    refine ⟨by simp; omega, ?_, ?_⟩
    · simp [hsz]
    · rw [hnew]
      congr 2
      simp only [List.length_append, List.length_singleton, padding]
      omega

/-- The tested bit of `AppendBitsToBuffer` is bit `i` of the value. -/
theorem shiftRight_and_one (value : UInt64) {i : Nat} (hi : i < 64) :
    ((value >>> UInt64.ofNat i) &&& 1 == 1) = value.toNat.testBit i := by
  have hn : ((value >>> UInt64.ofNat i) &&& 1).toNat = (value.toNat >>> i) % 2 := by
    rw [UInt64.toNat_and, UInt64.toNat_shiftRight, UInt64.toNat_ofNat_of_lt' (by
      change i < 2 ^ 64; omega), Nat.mod_eq_of_lt hi]
    exact Nat.and_one_is_mod _
  have hiff : ((value >>> UInt64.ofNat i) &&& 1 = 1) ↔ (value.toNat >>> i) % 2 = 1 := by
    rw [← hn, ← UInt64.toNat_inj]
    rfl
  rw [Bool.eq_iff_iff, beq_iff_eq, hiff, Nat.testBit_eq_decide_div_mod_eq,
    Nat.shiftRight_eq_div_pow]
  simp

/-- **Appending a field appends its bits.** -/
theorem appendBitsToBuffer_holds {w : BitBuffer} {bs : List Bool} (h : w.Holds bs)
    (value : UInt64) {n : Nat} (hn : n ≤ 64) :
    (appendBitsToBuffer w value n).Holds (bs ++ bitsLE n value.toNat) := by
  induction n with
  | zero => simpa [appendBitsToBuffer, bitsLE] using h
  | succ n ih =>
    have hprev := ih (by omega)
    unfold appendBitsToBuffer at hprev ⊢
    rw [List.range_succ, List.foldl_append, bitsLE_succ_snoc, ← List.append_assoc]
    have hlast := appendBitToBuffer_holds hprev (value.toNat.testBit n)
    rw [← shiftRight_and_one value (by omega : n < 64)] at hlast ⊢
    exact hlast

/-! ## Reading -/

/-- What the `rb`/`rbits` lambdas capture: `data`, `len` (its length), `bp` and `bitp`. -/
structure BitReader where
  data : List UInt8
  bp : Nat := 0
  bitp : Fin 8 := 0
  deriving DecidableEq, Repr

/-- `rb`: the next bit, and `0` without moving once the bytes have run out. -/
def rb (r : BitReader) : Bool × BitReader :=
  if hlt : r.bp < r.data.length then
    let b := (r.data[r.bp] >>> UInt8.ofNat r.bitp) &&& 1 == 1
    if h : r.bitp.val + 1 < 8 then
      (b, { r with bitp := ⟨r.bitp + 1, h⟩ })
    else
      (b, { r with bp := r.bp + 1, bitp := 0 })
  else
    (false, r)

/-- `rbits`: `n` bits, the first one read becoming bit 0. -/
def rbits (r : BitReader) (n : Nat) : UInt64 × BitReader :=
  (List.range n).foldl
    (fun s i => ((s.1 ||| (rb s.2).1.toUInt64 <<< UInt64.ofNat i), (rb s.2).2)) (0, r)

/-- The bits a reader has not consumed. -/
def BitReader.rest (r : BitReader) : List Bool :=
  (bitsOfBytes r.data).drop (8 * r.bp + r.bitp)

@[simp] theorem BitReader.rest_start (data : List UInt8) :
    BitReader.rest { data } = bitsOfBytes data := by
  simp [BitReader.rest]

/-- The loop guard `bp < len` of both decoders: some bits are left. -/
theorem BitReader.lt_length_iff (r : BitReader) : r.bp < r.data.length ↔ r.rest ≠ [] := by
  have := r.bitp.isLt
  rw [ne_eq, ← List.length_eq_zero_iff, BitReader.rest, List.length_drop, length_bitsOfBytes]
  omega

private theorem byte_testBit (b : UInt8) (j : Fin 8) :
    ((b >>> UInt8.ofNat j) &&& 1 == 1) = b.toNat.testBit j := by
  have hj : j.val < UInt8.size := by
    have := j.isLt
    change j.val < 256
    omega
  rw [Bool.eq_iff_iff, beq_iff_eq, ← UInt8.toNat_inj, UInt8.toNat_and, UInt8.toNat_shiftRight,
    UInt8.toNat_ofNat_of_lt' hj, Nat.mod_eq_of_lt j.isLt, Nat.shiftRight_eq_div_pow,
    Nat.testBit_eq_decide_div_mod_eq, decide_eq_true_eq, ← Nat.and_one_is_mod]
  rfl

/-- **`rb` takes the head of the remaining bits**, a missing head being a zero. -/
theorem rb_spec (r : BitReader) :
    (rb r).1 = r.rest.headD false ∧ (rb r).2.rest = r.rest.tail := by
  by_cases hlt : r.bp < r.data.length
  · have hbit : 8 * r.bp + r.bitp < (bitsOfBytes r.data).length := by
      have := r.bitp.isLt
      simp only [length_bitsOfBytes]
      omega
    have hget : (bitsOfBytes r.data)[8 * r.bp + r.bitp]
        = r.data[r.bp].toNat.testBit r.bitp := by
      have := getElem?_bitsOfBytes hlt r.bitp.isLt
      rwa [List.getElem?_eq_getElem hbit, Option.some.injEq] at this
    have hrest : r.rest = r.data[r.bp].toNat.testBit r.bitp
        :: (bitsOfBytes r.data).drop (8 * r.bp + r.bitp + 1) := by
      rw [BitReader.rest, List.drop_eq_getElem_cons hbit, hget]
    rw [hrest, rb, dif_pos hlt, List.headD_cons, List.tail_cons, ← byte_testBit]
    split
    · exact ⟨rfl, rfl⟩
    · rename_i h
      refine ⟨rfl, ?_⟩
      show (bitsOfBytes r.data).drop (8 * (r.bp + 1) + 0) = _
      congr 1
      omega
  · have hnil : r.rest = [] := by
      by_contra h
      exact hlt (r.lt_length_iff.mpr h)
    rw [rb, dif_neg hlt]
    exact ⟨by rw [hnil]; rfl, by rw [hnil]; rfl⟩

theorem rb_cons {r : BitReader} {b : Bool} {bs : List Bool} (h : r.rest = b :: bs) :
    (rb r).1 = b ∧ (rb r).2.rest = bs := by
  simpa [h] using rb_spec r

/-- **`rbits` takes the number the next bits spell.** Bits past the end count as zeros, which is
why a short rest needs no case of its own. -/
theorem rbits_spec (r : BitReader) {n : Nat} (hn : n ≤ 64) :
    (rbits r n).1.toNat = ofBitsLE (r.rest.take n) ∧ (rbits r n).2.rest = r.rest.drop n := by
  induction n with
  | zero => exact ⟨rfl, rfl⟩
  | succ n ih =>
    obtain ⟨hv, hr⟩ := ih (by omega)
    have hstep : rbits r (n + 1) = ((rbits r n).1 |||
        (rb (rbits r n).2).1.toUInt64 <<< UInt64.ofNat n, (rb (rbits r n).2).2) := by
      rw [rbits, List.range_succ, List.foldl_append]
      rfl
    obtain ⟨hb, hr'⟩ := rb_spec (rbits r n).2
    rw [hstep, hr', hr, hb, hr]
    refine ⟨?_, by rw [List.tail_drop]⟩
    have hsz : n < UInt64.size := by
      change n < 2 ^ 64
      omega
    have hbit : (((r.rest.drop n).headD false).toUInt64 <<< UInt64.ofNat n).toNat
        = ((r.rest.drop n).headD false).toNat * 2 ^ n := by
      rw [UInt64.toNat_shiftLeft, UInt64.toNat_ofNat_of_lt' hsz,
        Nat.mod_eq_of_lt (by omega : n < 64), Nat.shiftLeft_eq]
      have hle : 2 ^ n ≤ 2 ^ 63 := Nat.pow_le_pow_right (by decide) (by omega)
      cases (r.rest.drop n).headD false
      · exact (Nat.zero_mul _).symm ▸ rfl
      · show 1 * 2 ^ n % 2 ^ 64 = 1 * 2 ^ n
        omega
    rw [UInt64.toNat_or, hv, hbit]
    -- bit by bit: below `n` the old value, at `n` the new bit, zeros above
    refine Nat.eq_of_testBit_eq fun i => ?_
    rw [Nat.testBit_or, testBit_ofBitsLE, testBit_ofBitsLE, List.getD_eq_getElem?_getD,
      List.getD_eq_getElem?_getD, List.getElem?_take, List.getElem?_take, Nat.testBit_mul_two_pow,
      List.headD_eq_head?_getD, List.head?_drop]
    rcases Nat.lt_trichotomy i n with h | h | h
    · simp [h, Nat.lt_succ_of_lt h, Nat.not_le.mpr h]
    · subst h
      cases hb : r.rest[i]?.getD false <;> simp [hb]
    · have h1 : ¬ i < n := by omega
      have h2 : ¬ i < n + 1 := by omega
      obtain ⟨k, rfl⟩ : ∃ k, i = n + 1 + k := ⟨i - (n + 1), by omega⟩
      cases r.rest[n]?.getD false <;>
        simp [h1, h2, show n + 1 + k - n = k + 1 by omega, Nat.testBit_succ]

theorem rbits_append {r : BitReader} {n v : Nat} {bs : List Bool} (hn : n ≤ 64) (hv : v < 2 ^ n)
    (h : r.rest = bitsLE n v ++ bs) :
    (rbits r n).1.toNat = v ∧ (rbits r n).2.rest = bs := by
  obtain ⟨h1, h2⟩ := rbits_spec r hn
  rw [h, List.take_left' (length_bitsLE n v), ofBitsLE_bitsLE_of_lt hv] at h1
  rw [h, List.drop_left' (length_bitsLE n v)] at h2
  exact ⟨h1, h2⟩

theorem length_rest_rb_le (r : BitReader) : (rb r).2.rest.length ≤ r.rest.length := by
  rw [(rb_spec r).2, List.length_tail]
  exact Nat.sub_le _ _

theorem length_rest_rb_lt {r : BitReader} (h : r.bp < r.data.length) :
    (rb r).2.rest.length < r.rest.length := by
  have hne := List.length_pos_iff.mpr (r.lt_length_iff.mp h)
  rw [(rb_spec r).2, List.length_tail]
  omega

theorem length_rest_rbits_le (r : BitReader) {n : Nat} (hn : n ≤ 64) :
    (rbits r n).2.rest.length ≤ r.rest.length := by
  rw [(rbits_spec r hn).2, List.length_drop]
  exact Nat.sub_le _ _

end Storage
end MiniTSDB
