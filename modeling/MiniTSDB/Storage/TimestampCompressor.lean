import MiniTSDB.Common.Types
import MiniTSDB.Lib.Delta
import MiniTSDB.Storage.BitBuffer
import Mathlib.Tactic.NormNum

/-!
# `TimestampCompressor` (`compressor.cpp`)

The encoder writes the first timestamp in 64 bits and every later one as a second difference in
one of five classes, told apart by a unary prefix. The decoder takes the same decisions off the
bit stream. Arithmetic is `int64_t`; where the source would overflow (undefined in C++), `Int64`
wraps.

What the pair computes is stated once, over bit lists and second differences:

* `ddCode dd` is the bits `Encode` appends for a second difference `dd` (`encode_holds`);
* `restoreDD dd` is what `Decode` makes of those bits (`readDelta_ddCode`): the widest class
  keeps 32 bits and sign-extends them, so `restoreDD` is the identity exactly on the second
  differences that fit in an `int32_t` (`restoreDD_eq_iff`);
* a decoder without a count runs to the end of the last byte, and every padding zero is one more
  point at the last step (`decode_unbounded`).
-/

namespace MiniTSDB
namespace Storage

open Lib

/-! ## The encoder -/

/-- The members of `TimestampCompressor`; `buffer` is `buffer_` with its write cursor. -/
structure TimestampCompressor where
  buffer : BitBuffer := {}
  prevTs : Int64 := 0
  prevDelta : Int64 := 0
  first : Bool := true
  deriving DecidableEq, Repr

/-- The `else` part of `TimestampCompressor::Encode`: one second difference. -/
def encodeDelta (w : BitBuffer) (deltaDelta : Int64) : BitBuffer :=
  if deltaDelta = 0 then
    appendBitToBuffer w false
  else if deltaDelta ≥ -63 ∧ deltaDelta ≤ 64 then
    appendBitsToBuffer (appendBitsToBuffer w 0b01 2) (deltaDelta + 63).toUInt64 7
  else if deltaDelta ≥ -255 ∧ deltaDelta ≤ 256 then
    appendBitsToBuffer (appendBitsToBuffer w 0b011 3) (deltaDelta + 255).toUInt64 9
  else if deltaDelta ≥ -2047 ∧ deltaDelta ≤ 2048 then
    appendBitsToBuffer (appendBitsToBuffer w 0b0111 4) (deltaDelta + 2047).toUInt64 12
  else
    appendBitsToBuffer (appendBitsToBuffer w 0b1111 4) deltaDelta.toUInt64 32

def TimestampCompressor.encode (c : TimestampCompressor) (ts : Timestamp) :
    TimestampCompressor :=
  if c.first then
    { buffer := appendBitsToBuffer { buf := c.buffer.buf } ts.toUInt64 64
      prevTs := ts, prevDelta := 0, first := false }
  else
    let delta := ts - c.prevTs
    let deltaDelta := delta - c.prevDelta
    { buffer := encodeDelta c.buffer deltaDelta
      prevTs := ts, prevDelta := delta, first := false }

def TimestampCompressor.reset (_ : TimestampCompressor) : TimestampCompressor := {}

def TimestampCompressor.getBytes (c : TimestampCompressor) : Bytes := c.buffer.buf

/-! ## The decoder -/

/-- One turn of `Decode`'s loop up to `delta`: the unary prefix and the field of its class. -/
def readDelta (r : BitReader) (prevDelta : Int64) : Int64 × BitReader :=
  let b0 := rb r
  if b0.1 = false then (prevDelta, b0.2)
  else
    let b1 := rb b0.2
    if b1.1 = false then
      let v := rbits b1.2 7
      (prevDelta + v.1.toInt64 - 63, v.2)
    else
      let b2 := rb b1.2
      if b2.1 = false then
        let v := rbits b2.2 9
        (prevDelta + v.1.toInt64 - 255, v.2)
      else
        let b3 := rb b2.2
        if b3.1 = false then
          let v := rbits b3.2 12
          (prevDelta + v.1.toInt64 - 2047, v.2)
        else
          let v := rbits b3.2 32
          let s : Int32 := (v.1 &&& 0xFFFFFFFF).toUInt32.toInt32
          (prevDelta + s.toInt64, v.2)

/-- Every turn of the loop consumes a bit, which is why `Decode` terminates. -/
theorem length_rest_readDelta_lt {r : BitReader} (prevDelta : Int64)
    (h : r.bp < r.data.length) : (readDelta r prevDelta).2.rest.length < r.rest.length := by
  have h0 := length_rest_rb_lt h
  have h1 := length_rest_rb_le (rb r).2
  have h2 := length_rest_rb_le (rb (rb r).2).2
  have h3 := length_rest_rb_le (rb (rb (rb r).2).2).2
  unfold readDelta
  dsimp only
  split
  · exact h0
  · split
    · have := length_rest_rbits_le (rb (rb r).2).2 (n := 7) (by decide)
      dsimp only
      omega
    · split
      · have := length_rest_rbits_le (rb (rb (rb r).2).2).2 (n := 9) (by decide)
        dsimp only
        omega
      · split
        · have := length_rest_rbits_le (rb (rb (rb (rb r).2).2).2).2 (n := 12) (by decide)
          dsimp only
          omega
        · have := length_rest_rbits_le (rb (rb (rb (rb r).2).2).2).2 (n := 32) (by decide)
          dsimp only
          omega

/-- The loop of `TimestampCompressor::Decode`. `remaining` is `none` where the source holds
`SIZE_MAX`, the value it never decrements. -/
def decodeDeltas (r : BitReader) (remaining : Option Nat) (prevTs prevDelta : Int64) :
    List Timestamp :=
  if _h : remaining ≠ some 0 ∧ r.bp < r.data.length then
    let step := readDelta r prevDelta
    (prevTs + step.1) ::
      decodeDeltas step.2 (remaining.map (· - 1)) (prevTs + step.1) step.1
  else []
termination_by r.rest.length
decreasing_by exact length_rest_readDelta_lt prevDelta _h.2

def TimestampCompressor.decode (data : Bytes) (count : Nat) : List Timestamp :=
  if data = [] then []
  else
    let v := rbits { data } 64
    let remaining := if count > 0 then some (count - 1) else none
    v.1.toInt64 :: decodeDeltas v.2 remaining v.1.toInt64 0

/-! ## What a second difference becomes in the stream -/

/-- The bits `Encode` appends for a second difference. -/
def ddCode (dd : Int64) : List Bool :=
  if dd = 0 then
    [false]
  else if dd ≥ -63 ∧ dd ≤ 64 then
    [true, false] ++ bitsLE 7 (dd + 63).toUInt64.toNat
  else if dd ≥ -255 ∧ dd ≤ 256 then
    [true, true, false] ++ bitsLE 9 (dd + 255).toUInt64.toNat
  else if dd ≥ -2047 ∧ dd ≤ 2048 then
    [true, true, true, false] ++ bitsLE 12 (dd + 2047).toUInt64.toNat
  else
    [true, true, true, true] ++ bitsLE 32 dd.toUInt64.toNat

theorem ddCode_ne_nil (dd : Int64) : ddCode dd ≠ [] := by
  unfold ddCode
  repeat' split
  all_goals simp

theorem length_ddCode_le (dd : Int64) : (ddCode dd).length ≤ 36 := by
  unfold ddCode
  repeat' split
  all_goals simp

theorem length_flatMap_ddCode_le (dds : List Int64) :
    (dds.flatMap ddCode).length ≤ 36 * dds.length := by
  induction dds with
  | nil => exact Nat.le_refl 0
  | cons dd dds ih =>
    have hdd := length_ddCode_le dd
    rw [List.flatMap_cons, List.length_append, List.length_cons]
    omega

theorem encodeDelta_holds {w : BitBuffer} {bs : List Bool} (h : w.Holds bs) (dd : Int64) :
    (encodeDelta w dd).Holds (bs ++ ddCode dd) := by
  -- each class is a prefix written by one call and a field written by a second
  have hclass : ∀ (pre v : UInt64) (m n : Nat) (code : List Bool), m ≤ 64 → n ≤ 64 →
      bitsLE m pre.toNat = code →
      (appendBitsToBuffer (appendBitsToBuffer w pre m) v n).Holds
        (bs ++ (code ++ bitsLE n v.toNat)) := by
    intro pre v m n code hm hn hcode
    rw [← List.append_assoc, ← hcode]
    exact appendBitsToBuffer_holds (appendBitsToBuffer_holds h pre hm) v hn
  unfold encodeDelta ddCode
  split
  · exact appendBitToBuffer_holds h false
  · split
    · exact hclass _ _ 2 7 _ (by decide) (by decide) rfl
    · split
      · exact hclass _ _ 3 9 _ (by decide) (by decide) rfl
      · split
        · exact hclass _ _ 4 12 _ (by decide) (by decide) rfl
        · exact hclass _ _ 4 32 _ (by decide) (by decide) rfl

/-- What `Decode` makes of a second difference: 32 bits of it, sign-extended. -/
def restoreDD (dd : Int64) : Int64 := dd.toInt32.toInt64

theorem toInt_restoreDD (dd : Int64) : (restoreDD dd).toInt = dd.toInt.bmod (2 ^ 32) := by
  rw [restoreDD, Int32.toInt_toInt64, Int64.toInt_toInt32]

/-- **The lossless domain of one second difference** is `int32_t`. -/
theorem restoreDD_eq_iff (dd : Int64) :
    restoreDD dd = dd ↔ -2 ^ 31 ≤ dd.toInt ∧ dd.toInt ≤ 2 ^ 31 - 1 := by
  rw [← Int64.toInt_inj, toInt_restoreDD]
  constructor
  · intro h
    have hlo := Int.le_bmod (x := dd.toInt) (m := 2 ^ 32) (by decide)
    have hhi := Int.bmod_lt (x := dd.toInt) (m := 2 ^ 32) (by decide)
    omega
  · rintro ⟨hlo, hhi⟩
    exact Int.bmod_eq_of_le (by omega) (by omega)

private theorem biased_lt {dd bias : Int64} {n : Nat} (hn : n ≤ 12)
    (hlo : 0 ≤ dd.toInt + bias.toInt) (hhi : dd.toInt + bias.toInt < 2 ^ n) :
    (dd + bias).toUInt64.toNat < 2 ^ n := by
  have hpow : (2 : Int) ^ n ≤ 2 ^ 12 := by
    exact_mod_cast Nat.pow_le_pow_right (by decide : 0 < 2) hn
  have hadd : (dd + bias).toInt = dd.toInt + bias.toInt := by
    rw [Int64.toInt_add]
    exact Int.bmod_eq_of_le (by omega) (by omega)
  have hnonneg : (0 : Int64) ≤ dd + bias := by
    rw [Int64.le_iff_toInt_le, hadd]
    exact hlo
  have hcast := Int64.cast_toNatClampNeg _ hnonneg
  rw [Int64.toNat_toUInt64_of_le hnonneg]
  have : (((dd + bias).toNatClampNeg : Nat) : Int) < ((2 ^ n : Nat) : Int) := by
    rw [hcast, hadd]
    exact_mod_cast hhi
  exact_mod_cast this

/-- A field class of `Decode`: the field comes back and the bias cancels. -/
private theorem field_class {r : BitReader} {dd bias prevDelta : Int64} {n : Nat}
    {bs : List Bool} (hn : n ≤ 12) (hlo : 0 ≤ dd.toInt + bias.toInt)
    (hhi : dd.toInt + bias.toInt < 2 ^ n)
    (h : r.rest = bitsLE n (dd + bias).toUInt64.toNat ++ bs) :
    prevDelta + (rbits r n).1.toInt64 - bias = prevDelta + dd ∧ (rbits r n).2.rest = bs := by
  obtain ⟨hv, hr⟩ := rbits_append (by omega) (biased_lt hn hlo hhi) h
  refine ⟨?_, hr⟩
  rw [UInt64.toNat_inj.mp hv, Int64.toInt64_toUInt64]
  grind

/-- The widest class of `Decode`: the low 32 bits, sign-extended. -/
private theorem wide_class {r : BitReader} {dd prevDelta : Int64} {bs : List Bool}
    (h : r.rest = bitsLE 32 dd.toUInt64.toNat ++ bs) :
    prevDelta + ((rbits r 32).1 &&& 0xFFFFFFFF).toUInt32.toInt32.toInt64
        = prevDelta + restoreDD dd ∧ (rbits r 32).2.rest = bs := by
  obtain ⟨hv, hr⟩ := rbits_spec r (n := 32) (by decide)
  rw [h, List.take_left' (length_bitsLE _ _), ofBitsLE_bitsLE] at hv
  rw [h, List.drop_left' (length_bitsLE _ _)] at hr
  refine ⟨?_, hr⟩
  have hlow : ((rbits r 32).1 &&& 0xFFFFFFFF).toUInt32 = dd.toUInt64.toUInt32 := by
    rw [← UInt32.toNat_inj, UInt64.toNat_toUInt32, UInt64.toNat_toUInt32, UInt64.toNat_and, hv]
    rw [show (0xFFFFFFFF : UInt64).toNat = 2 ^ 32 - 1 from rfl, Nat.and_two_pow_sub_one_eq_mod]
    omega
  have hsign : dd.toUInt64.toUInt32.toInt32 = dd.toInt32 := by
    rw [← Int32.toBitVec_inj]
    exact (BitVec.signExtend_eq_setWidth_of_le dd.toBitVec (by decide : 32 ≤ 64)).symm
  rw [hlow, hsign]
  rfl

/-- **One turn of the loop undoes one second difference**, up to `restoreDD`. -/
theorem readDelta_ddCode {r : BitReader} {dd : Int64} {bs : List Bool} (prevDelta : Int64)
    (h : r.rest = ddCode dd ++ bs) :
    (readDelta r prevDelta).1 = prevDelta + restoreDD dd ∧
      (readDelta r prevDelta).2.rest = bs := by
  -- in the four narrow classes `restoreDD` changes nothing
  have hsmall : -2047 ≤ dd.toInt → dd.toInt ≤ 2048 → restoreDD dd = dd := fun hlo hhi =>
    (restoreDD_eq_iff dd).mpr ⟨by omega, by omega⟩
  unfold ddCode at h
  unfold readDelta
  split at h
  · rename_i hz
    obtain ⟨hb0, hr0⟩ := rb_cons (h : r.rest = false :: bs)
    rw [if_pos hb0, hz]
    refine ⟨?_, hr0⟩
    rw [show restoreDD 0 = 0 from rfl]
    grind
  · split at h
    · rename_i hc
      obtain ⟨hlo, hhi⟩ : -63 ≤ dd.toInt ∧ dd.toInt ≤ 64 :=
        ⟨Int64.le_iff_toInt_le.mp hc.1, Int64.le_iff_toInt_le.mp hc.2⟩
      obtain ⟨hb0, hr0⟩ := rb_cons (h : r.rest = true :: false :: (bitsLE 7 _ ++ bs))
      obtain ⟨hb1, hr1⟩ := rb_cons hr0
      have h63 : (63 : Int64).toInt = 63 := by decide
      simp only [hb0, hb1, if_true, Bool.true_eq_false, if_false]
      rw [hsmall (by omega) (by omega)]
      exact field_class (by decide) (by omega) (by omega) hr1
    · split at h
      · rename_i hc
        obtain ⟨hlo, hhi⟩ : -255 ≤ dd.toInt ∧ dd.toInt ≤ 256 :=
          ⟨Int64.le_iff_toInt_le.mp hc.1, Int64.le_iff_toInt_le.mp hc.2⟩
        obtain ⟨hb0, hr0⟩ := rb_cons (h : r.rest = true :: true :: false :: (bitsLE 9 _ ++ bs))
        obtain ⟨hb1, hr1⟩ := rb_cons hr0
        obtain ⟨hb2, hr2⟩ := rb_cons hr1
        have h255 : (255 : Int64).toInt = 255 := by decide
        simp only [hb0, hb1, hb2, if_true, Bool.true_eq_false, if_false]
        rw [hsmall (by omega) (by omega)]
        exact field_class (by decide) (by omega) (by omega) hr2
      · split at h
        · rename_i hc
          obtain ⟨hlo, hhi⟩ : -2047 ≤ dd.toInt ∧ dd.toInt ≤ 2048 :=
            ⟨Int64.le_iff_toInt_le.mp hc.1, Int64.le_iff_toInt_le.mp hc.2⟩
          obtain ⟨hb0, hr0⟩ :=
            rb_cons (h : r.rest = true :: true :: true :: false :: (bitsLE 12 _ ++ bs))
          obtain ⟨hb1, hr1⟩ := rb_cons hr0
          obtain ⟨hb2, hr2⟩ := rb_cons hr1
          obtain ⟨hb3, hr3⟩ := rb_cons hr2
          have h2047 : (2047 : Int64).toInt = 2047 := by decide
          simp only [hb0, hb1, hb2, hb3, if_true, Bool.true_eq_false, if_false]
          rw [hsmall (by omega) (by omega)]
          exact field_class (by decide) (by omega) (by omega) hr3
        · obtain ⟨hb0, hr0⟩ :=
            rb_cons (h : r.rest = true :: true :: true :: true :: (bitsLE 32 _ ++ bs))
          obtain ⟨hb1, hr1⟩ := rb_cons hr0
          obtain ⟨hb2, hr2⟩ := rb_cons hr1
          obtain ⟨hb3, hr3⟩ := rb_cons hr2
          simp only [hb0, hb1, hb2, hb3, Bool.true_eq_false, if_false]
          exact wide_class hr3

/-! ## The whole stream -/

/-- The bits of a non-empty timestamp list: the first one whole, the others as differences. -/
def timestampCode : List Timestamp → List Bool
  | [] => []
  | t :: ts => bitsLE 64 t.toUInt64.toNat ++ (secondDiffs t 0 ts).flatMap ddCode

theorem length_timestampCode_le (ts : List Timestamp) :
    (timestampCode ts).length ≤ 64 * ts.length := by
  cases ts with
  | nil => exact Nat.le_refl 0
  | cons t ts =>
    have hrest := length_flatMap_ddCode_le (secondDiffs t 0 ts)
    rw [length_secondDiffs] at hrest
    rw [timestampCode, List.length_append, length_bitsLE, List.length_cons]
    omega

def TimestampCompressor.encodeAll (c : TimestampCompressor) (ts : List Timestamp) :
    TimestampCompressor :=
  ts.foldl TimestampCompressor.encode c

private theorem encodeAll_rest_holds {c : TimestampCompressor} {bs : List Bool}
    (hf : c.first = false) (h : c.buffer.Holds bs) (ts : List Timestamp) :
    (c.encodeAll ts).buffer.Holds
      (bs ++ (secondDiffs c.prevTs c.prevDelta ts).flatMap ddCode) := by
  induction ts generalizing c bs with
  | nil => simpa [TimestampCompressor.encodeAll, secondDiffs] using h
  | cons t ts ih =>
    have hc : c.encode t =
        { buffer := encodeDelta c.buffer (t - c.prevTs - c.prevDelta)
          prevTs := t, prevDelta := t - c.prevTs, first := false } := by
      rw [TimestampCompressor.encode, hf]
      rfl
    have hnext := ih (c := c.encode t) (by rw [hc])
      (by rw [hc]; exact encodeDelta_holds h _)
    rw [hc] at hnext
    rw [TimestampCompressor.encodeAll, List.foldl_cons, hc, secondDiffs, List.flatMap_cons,
      ← List.append_assoc]
    exact hnext

/-- **What the encoder leaves in its buffer** for a non-empty list. -/
theorem encodeAll_holds (t : Timestamp) (ts : List Timestamp) :
    (TimestampCompressor.encodeAll {} (t :: ts)).buffer.Holds (timestampCode (t :: ts)) := by
  have hfirst := appendBitsToBuffer_holds BitBuffer.Holds.empty t.toUInt64 (Nat.le_refl 64)
  rw [List.nil_append] at hfirst
  have hc : TimestampCompressor.encode {} t =
      { buffer := appendBitsToBuffer {} t.toUInt64 64
        prevTs := t, prevDelta := 0, first := false } := by
    rw [TimestampCompressor.encode, if_pos rfl]
  have hholds : (TimestampCompressor.encode {} t).buffer.Holds (bitsLE 64 t.toUInt64.toNat) := by
    simpa only [hc] using hfirst
  have hrest := encodeAll_rest_holds (by rw [hc]) hholds ts
  simp only [hc] at hrest
  rw [TimestampCompressor.encodeAll, List.foldl_cons, hc, timestampCode]
  exact hrest

theorem decodeDeltas_some (r : BitReader) (n : Nat) (prevTs prevDelta : Int64) :
    decodeDeltas r (some n) prevTs prevDelta
      = (decodeDeltas r none prevTs prevDelta).take n := by
  induction n generalizing r prevTs prevDelta with
  | zero =>
    rw [decodeDeltas]
    simp
  | succ n ih =>
    rw [decodeDeltas, decodeDeltas]
    by_cases h : r.bp < r.data.length
    · simp [h, ih]
    · simp [h]

/-- The loop without a count, on the codes of `dds` followed by `k` padding zeros. -/
theorem decodeDeltas_flatMap {r : BitReader} {dds : List Int64} {k : Nat}
    (prevTs prevDelta : Int64) (h : r.rest = dds.flatMap ddCode ++ List.replicate k false) :
    decodeDeltas r none prevTs prevDelta
      = integrate prevTs prevDelta (dds.map restoreDD ++ List.replicate k 0) := by
  -- a padding zero is the code of the second difference 0, so the padding joins the list
  have hzeros : ∀ k, List.replicate k false = (List.replicate k (0 : Int64)).flatMap ddCode := by
    intro k
    induction k with
    | zero => rfl
    | succ k ih => rw [List.replicate_succ, List.replicate_succ, List.flatMap_cons, ih]; rfl
  have hmap : dds.map restoreDD ++ List.replicate k 0
      = (dds ++ List.replicate k 0).map restoreDD := by
    rw [List.map_append, List.map_replicate]
    rfl
  rw [hzeros, ← List.flatMap_append] at h
  rw [hmap]
  generalize dds ++ List.replicate k 0 = dds at h
  clear hmap
  induction dds generalizing r prevTs prevDelta with
  | nil =>
    have hend : ¬ r.bp < r.data.length := by
      rw [r.lt_length_iff]
      simp [h]
    rw [decodeDeltas, dif_neg (by simp [hend])]
    rfl
  | cons dd dds ih =>
    rw [List.flatMap_cons] at h
    have hmore : r.bp < r.data.length := by
      rw [r.lt_length_iff, h]
      simp [ddCode_ne_nil]
    obtain ⟨hval, hrest⟩ := readDelta_ddCode prevDelta h
    rw [decodeDeltas, dif_pos ⟨by simp, hmore⟩]
    simp only [hval, Option.map_none, List.map_cons, integrate]
    rw [ih _ _ hrest]

def timestampPadding (ts : List Timestamp) : Nat := padding (timestampCode ts).length

/-- What a round trip makes of a timestamp list. -/
def restoreTimestamps : List Timestamp → List Timestamp
  | [] => []
  | t :: ts => t :: integrate t 0 ((secondDiffs t 0 ts).map restoreDD)

@[simp] theorem length_restoreTimestamps (ts : List Timestamp) :
    (restoreTimestamps ts).length = ts.length := by
  cases ts <;> simp [restoreTimestamps]

private theorem getBytes_ne_nil (t : Timestamp) (ts : List Timestamp) :
    (TimestampCompressor.encodeAll {} (t :: ts)).getBytes ≠ [] := by
  intro h
  have hlen := (encodeAll_holds t ts).length_buf
  rw [TimestampCompressor.getBytes] at h
  simp only [h, timestampCode, List.length_append, length_bitsLE, List.length_nil] at hlen
  omega

private theorem decode_getBytes (t : Timestamp) (ts : List Timestamp) (count : Nat) :
    ∃ r : BitReader, r.rest = (secondDiffs t 0 ts).flatMap ddCode
        ++ List.replicate (timestampPadding (t :: ts)) false ∧
      TimestampCompressor.decode (TimestampCompressor.encodeAll {} (t :: ts)).getBytes count
        = t :: decodeDeltas r (if count > 0 then some (count - 1) else none) t 0 := by
  have hbits : BitReader.rest { data := (TimestampCompressor.encodeAll {} (t :: ts)).getBytes }
      = bitsLE 64 t.toUInt64.toNat ++ ((secondDiffs t 0 ts).flatMap ddCode
        ++ List.replicate (timestampPadding (t :: ts)) false) := by
    rw [BitReader.rest_start, TimestampCompressor.getBytes, (encodeAll_holds t ts).bits,
      timestampCode, List.append_assoc]
    rfl
  obtain ⟨hv, hrest⟩ := rbits_append (Nat.le_refl 64) t.toUInt64.toNat_lt hbits
  refine ⟨_, hrest, ?_⟩
  rw [TimestampCompressor.decode, if_neg (getBytes_ne_nil t ts)]
  simp only [UInt64.toNat_inj.mp hv, Int64.toInt64_toUInt64]

/-- **The timestamp round trip with a count** is `restoreTimestamps`. -/
theorem decode_counted (ts : List Timestamp) :
    TimestampCompressor.decode (TimestampCompressor.encodeAll {} ts).getBytes ts.length
      = restoreTimestamps ts := by
  cases ts with
  | nil => rfl
  | cons t ts =>
    obtain ⟨r, hrest, hdec⟩ := decode_getBytes t ts (t :: ts).length
    rw [hdec, if_pos (by simp), List.length_cons, Nat.add_sub_cancel, decodeDeltas_some,
      decodeDeltas_flatMap t 0 hrest, restoreTimestamps]
    have hlen : ts.length = ((secondDiffs t 0 ts).map restoreDD).length := by simp
    rw [hlen, take_integrate]

/-- `k` more timestamps at the last step of a list; the step of a single timestamp is 0. -/
def continuation (k : Nat) : List Timestamp → List Timestamp
  | [] => []
  | t :: ts => continued (lastStep t 0 ts).1 (lastStep t 0 ts).2 k

/-- **Without a count** every padding zero becomes one more point at the last step. -/
theorem decode_unbounded (ts : List Timestamp) :
    TimestampCompressor.decode (TimestampCompressor.encodeAll {} ts).getBytes 0
      = restoreTimestamps ts ++ continuation (timestampPadding ts) (restoreTimestamps ts) := by
  cases ts with
  | nil => rfl
  | cons t ts =>
    obtain ⟨r, hrest, hdec⟩ := decode_getBytes t ts 0
    rw [hdec, if_neg (Nat.lt_irrefl 0), decodeDeltas_flatMap t 0 hrest, integrate_append_zeros]
    rfl

theorem restoreTimestamps_eq_iff (t : Timestamp) (ts : List Timestamp) :
    restoreTimestamps (t :: ts) = t :: ts ↔
      ∀ dd ∈ secondDiffs t 0 ts, -2 ^ 31 ≤ dd.toInt ∧ dd.toInt ≤ 2 ^ 31 - 1 := by
  rw [restoreTimestamps, List.cons.injEq, integrate_map_eq_iff]
  simp only [true_and, restoreDD_eq_iff]

end Storage
end MiniTSDB
