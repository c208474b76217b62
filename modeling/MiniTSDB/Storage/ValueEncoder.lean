import MiniTSDB.Common.Types
import MiniTSDB.Storage.BitBuffer
import Mathlib.Data.Nat.Log

/-!
# `ValueEncoder` (`compressor.cpp`)

Every value is a two-bit type tag and a body. Doubles and integers share one scheme: the first
value of the stream is written whole, every later one as the XOR with the previous value *of its
own type*, trimmed to its meaningful bits. Strings are a 32-bit length in the stream and the
bytes in a side buffer.

Encoder and decoder carry the same three things from value to value (the last double, the last
integer, and whether any value came before), so the stream is specified by one small state
machine, `ValueState`: `code` is the bits a value takes in a state, `next` the state after it.
`encode_holds` says the encoder writes `code`, `readValue_code` that the decoder undoes it and
both end in `next`.
-/

namespace MiniTSDB
namespace Storage

open Lib

/-- `ValueEncoder::LeadingZeros` (`__builtin_clzll`). -/
def leadingZeros (x : UInt64) : Nat := if x = 0 then 64 else 63 - x.toNat.log2

/-- `ValueEncoder::TrailingZeros` (`__builtin_ctzll`). -/
def trailingZeros (x : UInt64) : Nat :=
  if x = 0 then 64 else (List.range 64).findIdx (x.toNat.testBit ·)

/-! ## The encoder -/

/-- The members of `ValueEncoder`; `buffer` is `buffer_` with its write cursor. -/
structure ValueEncoder where
  buffer : BitBuffer := {}
  stringData : Bytes := []
  prevBits : UInt64 := 0
  prevInt : Int64 := 0
  first : Bool := true
  deriving DecidableEq, Repr

/-- The XOR branch of `Encode`, the same for doubles and integers. -/
def writeXor (w : BitBuffer) (xorR : UInt64) : BitBuffer :=
  if xorR = 0 then
    appendBitToBuffer w false
  else
    let w := appendBitToBuffer w true
    let lead := leadingZeros xorR
    let trail := trailingZeros xorR
    let m := 64 - lead - trail
    let mv := if m = 64 then 0 else m
    let w := appendBitsToBuffer w (UInt64.ofNat lead) 6
    let w := appendBitsToBuffer w (UInt64.ofNat mv) 6
    appendBitsToBuffer w (xorR >>> UInt64.ofNat trail) m

def ValueEncoder.encode (e : ValueEncoder) : Value → ValueEncoder
  | .double bits =>
    let w := appendBitToBuffer (appendBitToBuffer e.buffer false) false
    if e.first then
      { e with
        buffer := appendBitsToBuffer w bits 64, prevBits := bits, prevInt := 0, first := false }
    else
      { e with buffer := writeXor w (bits ^^^ e.prevBits), prevBits := bits }
  | .int64 i =>
    let w := appendBitToBuffer (appendBitToBuffer e.buffer false) true
    if e.first then
      { e with
        buffer := appendBitsToBuffer w i.toUInt64 64, prevInt := i, prevBits := 0, first := false }
    else
      { e with buffer := writeXor w (i.toUInt64 ^^^ e.prevInt.toUInt64), prevInt := i }
  | .string s =>
    let w := appendBitToBuffer (appendBitToBuffer e.buffer true) false
    let len : UInt32 := UInt32.ofNat s.length
    let e := { e with
      buffer := appendBitsToBuffer w len.toUInt64 32, stringData := e.stringData ++ s }
    if e.first then { e with prevBits := 0, prevInt := 0, first := false } else e

def ValueEncoder.reset (_ : ValueEncoder) : ValueEncoder := {}

def ValueEncoder.getBytes (e : ValueEncoder) : Bytes := e.buffer.buf

def ValueEncoder.getStringData (e : ValueEncoder) : Bytes := e.stringData

def ValueEncoder.encodeAll (e : ValueEncoder) (vs : List Value) : ValueEncoder :=
  vs.foldl ValueEncoder.encode e

/-! ## The decoder -/

/-- The locals of `ValueEncoder::Decode` that live across turns of its loop. -/
structure ValueReader where
  reader : BitReader
  strOff : Nat := 0
  firstVal : Bool := true
  prevDoubleBits : UInt64 := 0
  prevInt : Int64 := 0
  deriving DecidableEq, Repr

/-- The shift of `xv << (64 - lead - mv)`. The amount is a signed `int`; outside `0..63` the
source's shift is undefined, and here the amount is taken modulo 64. -/
def shiftLeftInt (x : UInt64) (amount : Int) : UInt64 := x <<< UInt64.ofNat (amount % 64).toNat

/-- The XOR branch of `Decode` after its `1` bit: the new 64-bit pattern. -/
def readXor (r : BitReader) (pp : UInt64) : UInt64 × BitReader :=
  let lead := rbits r 6
  let meaningful := rbits lead.2 6
  let mv := if meaningful.1 = 0 then 64 else meaningful.1.toNat
  let xv := rbits meaningful.2 mv
  (if mv = 64 then pp ^^^ xv.1
    else pp ^^^ shiftLeftInt xv.1 (64 - (lead.1.toNat : Int) - (mv : Int)), xv.2)

/-- One turn of `Decode`'s loop. The tag's two `rb()` calls are taken left to right. -/
def readValue (strData : Bytes) (s : ValueReader) : Value × ValueReader :=
  let hi := rb s.reader
  let lo := rb hi.2
  let tag : Nat := 2 * hi.1.toNat + lo.1.toNat
  if tag = 2 then
    let v := rbits lo.2 32
    let slen := v.1.toUInt32.toNat
    let str := if s.strOff + slen ≤ strData.length then (strData.drop s.strOff).take slen else []
    (.string str, { s with reader := v.2, strOff := s.strOff + slen, firstVal := false })
  else if s.firstVal then
    let raw := rbits lo.2 64
    if tag = 0 then
      (.double raw.1, { s with reader := raw.2, firstVal := false, prevDoubleBits := raw.1 })
    else
      (.int64 raw.1.toInt64,
        { s with reader := raw.2, firstVal := false, prevInt := raw.1.toInt64 })
  else
    let bit := rb lo.2
    if bit.1 = false then
      (if tag = 0 then .double s.prevDoubleBits else .int64 s.prevInt, { s with reader := bit.2 })
    else if tag = 0 then
      let vb := readXor bit.2 s.prevDoubleBits
      (.double vb.1, { s with reader := vb.2, prevDoubleBits := vb.1 })
    else
      let vb := readXor bit.2 s.prevInt.toUInt64
      (.int64 vb.1.toInt64, { s with reader := vb.2, prevInt := vb.1.toInt64 })

theorem toNat_rbits_six_lt (r : BitReader) : (rbits r 6).1.toNat < 64 := by
  have hlt := ofBitsLE_lt (r.rest.take 6)
  have hpow : 2 ^ (r.rest.take 6).length ≤ 2 ^ 6 :=
    Nat.pow_le_pow_right (by decide) (by rw [List.length_take]; exact Nat.min_le_left _ _)
  rw [(rbits_spec r (by decide)).1]
  omega

theorem length_rest_readXor_le (r : BitReader) (pp : UInt64) :
    (readXor r pp).2.rest.length ≤ r.rest.length := by
  unfold readXor
  dsimp only
  have h1 := length_rest_rbits_le r (n := 6) (by decide)
  have h2 := length_rest_rbits_le (rbits r 6).2 (n := 6) (by decide)
  have hmv : (if (rbits (rbits r 6).2 6).1 = 0 then 64 else (rbits (rbits r 6).2 6).1.toNat)
      ≤ 64 := by
    split
    · exact Nat.le_refl _
    · exact (toNat_rbits_six_lt (rbits r 6).2).le
  have h3 := length_rest_rbits_le (rbits (rbits r 6).2 6).2 hmv
  omega

theorem length_rest_readValue_lt (strData : Bytes) {s : ValueReader}
    (h : s.reader.bp < s.reader.data.length) :
    (readValue strData s).2.reader.rest.length < s.reader.rest.length := by
  have h0 := length_rest_rb_lt h
  have h1 := length_rest_rb_le (rb s.reader).2
  have h2 := length_rest_rb_le (rb (rb s.reader).2).2
  have h32 := length_rest_rbits_le (rb (rb s.reader).2).2 (n := 32) (by decide)
  have h64 := length_rest_rbits_le (rb (rb s.reader).2).2 (n := 64) (by decide)
  have hd := length_rest_readXor_le (rb (rb (rb s.reader).2).2).2 s.prevDoubleBits
  have hi := length_rest_readXor_le (rb (rb (rb s.reader).2).2).2 s.prevInt.toUInt64
  unfold readValue
  dsimp only
  repeat' split
  all_goals dsimp only
  all_goals omega

/-- The loop of `ValueEncoder::Decode`; `remaining` is `none` where the source holds
`SIZE_MAX`. -/
def decodeValues (strData : Bytes) (s : ValueReader) (remaining : Option Nat) : List Value :=
  if _h : remaining ≠ some 0 ∧ s.reader.bp < s.reader.data.length then
    let step := readValue strData s
    step.1 :: decodeValues strData step.2 (remaining.map (· - 1))
  else []
termination_by s.reader.rest.length
decreasing_by exact length_rest_readValue_lt strData _h.2

def ValueEncoder.decode (data strData : Bytes) (count : Nat) : List Value :=
  if data = [] then []
  else decodeValues strData { reader := { data } } (if count > 0 then some count else none)

/-! ## The state both sides carry -/

/-- What encoder and decoder remember between values. Before the first value both previous
values are zero. -/
structure ValueState where
  first : Bool
  prevBits : UInt64
  prevInt : Int64
  fresh : first = true → prevBits = 0 ∧ prevInt = 0

def ValueState.start : ValueState :=
  { first := true, prevBits := 0, prevInt := 0, fresh := fun _ => ⟨rfl, rfl⟩ }

def ValueState.next (st : ValueState) : Value → ValueState
  | .double bits => { st with first := false, prevBits := bits, fresh := nofun }
  | .int64 i => { st with first := false, prevInt := i, fresh := nofun }
  | .string _ => { st with first := false, fresh := nofun }

def meaningfulBits (x : UInt64) : Nat := 64 - leadingZeros x - trailingZeros x

def xorCode (x : UInt64) : List Bool :=
  if x = 0 then [false]
  else
    true :: (bitsLE 6 (leadingZeros x)
      ++ (bitsLE 6 (if meaningfulBits x = 64 then 0 else meaningfulBits x)
      ++ bitsLE (meaningfulBits x) (x >>> UInt64.ofNat (trailingZeros x)).toNat))

def ValueState.code (st : ValueState) : Value → List Bool
  | .double bits =>
    false :: false :: if st.first then bitsLE 64 bits.toNat else xorCode (bits ^^^ st.prevBits)
  | .int64 i =>
    false :: true :: if st.first then bitsLE 64 i.toUInt64.toNat
      else xorCode (i.toUInt64 ^^^ st.prevInt.toUInt64)
  | .string s => true :: false :: bitsLE 32 s.length

/-- The bytes a value puts into the side buffer. -/
def stringBytes : Value → Bytes
  | .string s => s
  | _ => []

def ValueState.codeAll (st : ValueState) : List Value → List Bool
  | [] => []
  | v :: vs => st.code v ++ (st.next v).codeAll vs

def ValueState.nextAll (st : ValueState) (vs : List Value) : ValueState :=
  vs.foldl ValueState.next st

/-! ## The bit counts of a non-zero word -/

theorem trailingZeros_lt {x : UInt64} (hx : x ≠ 0) : trailingZeros x < 64 := by
  have hne : x.toNat ≠ 0 := fun h => hx (UInt64.toNat_inj.mp h)
  obtain ⟨i, hi⟩ := Nat.exists_testBit_of_ne_zero hne
  have hi64 : i < 64 := by
    by_contra h
    have := Nat.testBit_eq_false_of_lt (lt_of_lt_of_le x.toNat_lt
      (Nat.pow_le_pow_right (by decide) (not_lt.mp h)))
    simp [this] at hi
  rw [trailingZeros, if_neg hx]
  have hfound : ∃ i ∈ List.range 64, x.toNat.testBit i = true := ⟨i, List.mem_range.mpr hi64, hi⟩
  simpa using List.findIdx_lt_length_of_exists hfound

theorem testBit_lt_trailingZeros {x : UInt64} {i : Nat} (hx : x ≠ 0) (h : i < trailingZeros x) :
    x.toNat.testBit i = false := by
  have h64 := trailingZeros_lt hx
  rw [trailingZeros, if_neg hx] at h h64
  have := List.not_of_lt_findIdx h
  simpa using this

theorem testBit_trailingZeros {x : UInt64} (hx : x ≠ 0) :
    x.toNat.testBit (trailingZeros x) = true := by
  have h64 := trailingZeros_lt hx
  rw [trailingZeros, if_neg hx] at h64 ⊢
  have hfound : (List.range 64).findIdx (x.toNat.testBit ·) < (List.range 64).length := by
    simpa using h64
  have := List.findIdx_getElem (w := hfound)
  simpa using this

theorem leadingZeros_lt {x : UInt64} (hx : x ≠ 0) : leadingZeros x < 64 := by
  rw [leadingZeros, if_neg hx]
  omega

theorem toNat_lt_two_pow_leadingZeros {x : UInt64} (hx : x ≠ 0) :
    x.toNat < 2 ^ (64 - leadingZeros x) := by
  have hne : x.toNat ≠ 0 := fun h => hx (UInt64.toNat_inj.mp h)
  have hlog : x.toNat.log2 < 64 := (Nat.log2_lt hne).mpr x.toNat_lt
  have := Nat.lt_log2_self (n := x.toNat)
  rw [leadingZeros, if_neg hx, show 64 - (63 - x.toNat.log2) = x.toNat.log2 + 1 by omega]
  exact this

theorem leadingZeros_add_trailingZeros_lt {x : UInt64} (hx : x ≠ 0) :
    leadingZeros x + trailingZeros x < 64 := by
  by_contra h
  have hle : 64 - leadingZeros x ≤ trailingZeros x := by omega
  have := Nat.testBit_eq_false_of_lt (lt_of_lt_of_le (toNat_lt_two_pow_leadingZeros hx)
    (Nat.pow_le_pow_right (by decide) hle))
  simp [testBit_trailingZeros hx] at this

theorem meaningfulBits_bounds {x : UInt64} (hx : x ≠ 0) :
    0 < meaningfulBits x ∧ meaningfulBits x ≤ 64 := by
  have := leadingZeros_add_trailingZeros_lt hx
  unfold meaningfulBits
  omega

/-! ## The length of the code -/

theorem length_xorCode_le (x : UInt64) : (xorCode x).length ≤ 77 := by
  have hbits : meaningfulBits x ≤ 64 := by
    unfold meaningfulBits
    omega
  unfold xorCode
  split
  · simp
  · simp only [List.length_cons, List.length_append, length_bitsLE]
    omega

theorem ValueState.length_code_le (st : ValueState) (v : Value) : (st.code v).length ≤ 79 := by
  unfold ValueState.code
  cases v with
  | double bits =>
    have hxor := length_xorCode_le (bits ^^^ st.prevBits)
    cases st.first
    · simp
      omega
    · simp
  | int64 i =>
    have hxor := length_xorCode_le (i.toUInt64 ^^^ st.prevInt.toUInt64)
    cases st.first
    · simp
      omega
    · simp
  | string s => simp

theorem ValueState.length_codeAll_le (st : ValueState) (vs : List Value) :
    (st.codeAll vs).length ≤ 79 * vs.length := by
  induction vs generalizing st with
  | nil => exact Nat.le_refl 0
  | cons v vs ih =>
    have hv := st.length_code_le v
    have hvs := ih (st.next v)
    rw [ValueState.codeAll, List.length_append, List.length_cons]
    omega

/-! ## The encoder writes the code -/

/-- The encoder stands in a state of the stream, having written the bits `bs`. -/
structure ValueEncoder.In (e : ValueEncoder) (st : ValueState) (bs : List Bool) : Prop where
  holds : e.buffer.Holds bs
  first : e.first = st.first
  prevBits : e.prevBits = st.prevBits
  prevInt : e.prevInt = st.prevInt

private theorem writeXor_holds {w : BitBuffer} {bs : List Bool} (h : w.Holds bs) (x : UInt64) :
    (writeXor w x).Holds (bs ++ xorCode x) := by
  unfold writeXor xorCode
  split
  · exact appendBitToBuffer_holds h false
  · rename_i hx
    have hm := meaningfulBits_bounds hx
    have hlead : (UInt64.ofNat (leadingZeros x)).toNat = leadingZeros x := by
      have := leadingZeros_lt hx
      exact UInt64.toNat_ofNat_of_lt' (by change _ < 2 ^ 64; omega)
    have hmv : (UInt64.ofNat (if meaningfulBits x = 64 then 0 else meaningfulBits x)).toNat
        = if meaningfulBits x = 64 then 0 else meaningfulBits x := by
      refine UInt64.toNat_ofNat_of_lt' ?_
      change _ < 2 ^ 64
      split <;> omega
    have h1 := appendBitToBuffer_holds h true
    have h2 := appendBitsToBuffer_holds h1 (UInt64.ofNat (leadingZeros x)) (n := 6) (by decide)
    have h3 := appendBitsToBuffer_holds h2
      (UInt64.ofNat (if meaningfulBits x = 64 then 0 else meaningfulBits x)) (n := 6) (by decide)
    have h4 := appendBitsToBuffer_holds h3 (x >>> UInt64.ofNat (trailingZeros x)) hm.2
    rw [hlead, hmv, List.append_assoc, List.append_assoc, List.append_assoc] at h4
    exact h4

/-- **One call of `Encode` writes one code** and moves to the next state. -/
theorem ValueEncoder.In.encode {e : ValueEncoder} {st : ValueState} {bs : List Bool}
    (h : e.In st bs) (v : Value) : (e.encode v).In (st.next v) (bs ++ st.code v) := by
  obtain ⟨hbuf, hfirst, hbits, hint⟩ := h
  cases v with
  | double b =>
    have htag := appendBitToBuffer_holds (appendBitToBuffer_holds hbuf false) false
    rw [ValueEncoder.encode, ValueState.code, ValueState.next]
    by_cases hf : st.first = true
    · have hwhole := appendBitsToBuffer_holds htag b (n := 64) (Nat.le_refl _)
      rw [if_pos (hfirst.trans hf), if_pos hf]
      exact ⟨by simpa using hwhole, rfl, rfl, (st.fresh hf).2.symm⟩
    · have hxor := writeXor_holds htag (b ^^^ e.prevBits)
      rw [if_neg (hfirst ▸ hf), if_neg hf]
      exact ⟨by simpa [hbits] using hxor, by simpa [hfirst] using hf, rfl, hint⟩
  | int64 i =>
    have htag := appendBitToBuffer_holds (appendBitToBuffer_holds hbuf false) true
    rw [ValueEncoder.encode, ValueState.code, ValueState.next]
    by_cases hf : st.first = true
    · have hwhole := appendBitsToBuffer_holds htag i.toUInt64 (n := 64) (Nat.le_refl _)
      rw [if_pos (hfirst.trans hf), if_pos hf]
      exact ⟨by simpa using hwhole, rfl, (st.fresh hf).1.symm, rfl⟩
    · have hxor := writeXor_holds htag (i.toUInt64 ^^^ e.prevInt.toUInt64)
      rw [if_neg (hfirst ▸ hf), if_neg hf]
      exact ⟨by simpa [hint] using hxor, by simpa [hfirst] using hf, hbits, rfl⟩
  | string s =>
    have htag := appendBitToBuffer_holds (appendBitToBuffer_holds hbuf true) false
    have hlen :=
      appendBitsToBuffer_holds htag (UInt32.ofNat s.length).toUInt64 (n := 32) (by decide)
    have hmod : (UInt32.ofNat s.length).toUInt64.toNat = s.length % 2 ^ 32 := by simp
    rw [hmod, bitsLE_mod] at hlen
    rw [ValueEncoder.encode, ValueState.code, ValueState.next]
    by_cases hf : st.first = true
    · rw [if_pos (hfirst.trans hf)]
      exact ⟨by simpa using hlen, rfl, (st.fresh hf).1.symm, (st.fresh hf).2.symm⟩
    · rw [if_neg (hfirst ▸ hf)]
      exact ⟨by simpa using hlen, by simpa [hfirst] using hf, hbits, hint⟩

theorem ValueEncoder.In.encodeAll {e : ValueEncoder} {st : ValueState} {bs : List Bool}
    (h : e.In st bs) (vs : List Value) :
    (e.encodeAll vs).In (st.nextAll vs) (bs ++ st.codeAll vs) := by
  induction vs generalizing e st bs with
  | nil => simpa [ValueEncoder.encodeAll, ValueState.nextAll, ValueState.codeAll] using h
  | cons v vs ih =>
    rw [ValueState.codeAll, ← List.append_assoc]
    exact ih (h.encode v)

theorem ValueEncoder.start_in : ValueEncoder.In {} ValueState.start [] :=
  ⟨BitBuffer.Holds.empty, rfl, rfl, rfl⟩

theorem ValueEncoder.stringData_encodeAll (e : ValueEncoder) (vs : List Value) :
    (e.encodeAll vs).stringData = e.stringData ++ vs.flatMap stringBytes := by
  induction vs generalizing e with
  | nil => simp [ValueEncoder.encodeAll]
  | cons v vs ih =>
    have hv : (e.encode v).stringData = e.stringData ++ stringBytes v := by
      cases v <;> simp only [ValueEncoder.encode, stringBytes] <;> split <;> simp
    rw [ValueEncoder.encodeAll, List.foldl_cons, ← ValueEncoder.encodeAll, ih, hv,
      List.flatMap_cons, List.append_assoc]

/-! ## The decoder reads it back -/

/-- The decoder stands in a state of the stream, with the bits `bs` and the side-buffer bytes
`str` still to come. -/
structure ValueReader.In (s : ValueReader) (st : ValueState) (strData : Bytes) (bs : List Bool)
    (str : Bytes) : Prop where
  rest : s.reader.rest = bs
  first : s.firstVal = st.first
  prevBits : s.prevDoubleBits = st.prevBits
  prevInt : s.prevInt = st.prevInt
  str : strData.drop s.strOff = str

private theorem xor_cancel (p x : UInt64) : p ^^^ (x ^^^ p) = x := by
  rw [UInt64.xor_comm x p, ← UInt64.xor_assoc, UInt64.xor_self, UInt64.zero_xor]

/-- Shifting the trailing zeros back in restores the word. -/
private theorem shift_back {x : UInt64} (hx : x ≠ 0) :
    (x >>> UInt64.ofNat (trailingZeros x)) <<< UInt64.ofNat (trailingZeros x) = x := by
  have h64 := trailingZeros_lt hx
  have hof : (UInt64.ofNat (trailingZeros x)).toNat % 64 = trailingZeros x := by
    rw [UInt64.toNat_ofNat_of_lt' (by change _ < 2 ^ 64; omega), Nat.mod_eq_of_lt h64]
  have hval : (x.toNat >>> trailingZeros x) <<< trailingZeros x = x.toNat := by
    refine Nat.eq_of_testBit_eq fun i => ?_
    rw [Nat.testBit_shiftLeft, Nat.testBit_shiftRight]
    by_cases hi : trailingZeros x ≤ i
    · simp [hi]
    · have hzero := testBit_lt_trailingZeros hx (i := i) (by omega)
      simp [hi, hzero]
  rw [← UInt64.toNat_inj, UInt64.toNat_shiftLeft, UInt64.toNat_shiftRight, hof, hval]
  exact Nat.mod_eq_of_lt x.toNat_lt

private theorem readXor_code {r : BitReader} {x pp : UInt64} {bs : List Bool} (hx : x ≠ 0)
    (h : r.rest = bitsLE 6 (leadingZeros x)
      ++ (bitsLE 6 (if meaningfulBits x = 64 then 0 else meaningfulBits x)
      ++ bitsLE (meaningfulBits x) (x >>> UInt64.ofNat (trailingZeros x)).toNat) ++ bs) :
    (readXor r pp).1 = pp ^^^ x ∧ (readXor r pp).2.rest = bs := by
  have hlead := leadingZeros_lt hx
  have hsum := leadingZeros_add_trailingZeros_lt hx
  obtain ⟨hm0, hm64⟩ := meaningfulBits_bounds hx
  have hmdef : meaningfulBits x = 64 - leadingZeros x - trailingZeros x := rfl
  rw [List.append_assoc, List.append_assoc] at h
  obtain ⟨hl, hr1⟩ := rbits_append (by decide) (show leadingZeros x < 2 ^ 6 by omega) h
  obtain ⟨hm, hr2⟩ := rbits_append (by decide)
    (show (if meaningfulBits x = 64 then 0 else meaningfulBits x) < 2 ^ 6 by split <;> omega) hr1
  -- the meaningful part fits in its own width
  have hfit : (x >>> UInt64.ofNat (trailingZeros x)).toNat < 2 ^ meaningfulBits x := by
    have hof : (UInt64.ofNat (trailingZeros x)).toNat % 64 = trailingZeros x := by
      rw [UInt64.toNat_ofNat_of_lt' (by change _ < 2 ^ 64; omega), Nat.mod_eq_of_lt (by omega)]
    rw [UInt64.toNat_shiftRight, hof, Nat.shiftRight_eq_div_pow]
    refine Nat.div_lt_of_lt_mul ?_
    rw [← pow_add, show trailingZeros x + meaningfulBits x = 64 - leadingZeros x by omega]
    exact toNat_lt_two_pow_leadingZeros hx
  obtain ⟨hv, hr3⟩ := rbits_append hm64 hfit hr2
  -- the width the decoder computes is the width the encoder wrote
  have hmv : (if (rbits (rbits r 6).2 6).1 = 0 then 64
      else (rbits (rbits r 6).2 6).1.toNat) = meaningfulBits x := by
    have hz : (rbits (rbits r 6).2 6).1 = 0 ↔ meaningfulBits x = 64 := by
      rw [← UInt64.toNat_inj, hm]
      constructor
      · intro h0
        by_contra hne
        rw [if_neg hne] at h0
        change _ = 0 at h0
        omega
      · intro h64
        rw [if_pos h64]
        rfl
    by_cases h64 : meaningfulBits x = 64
    · rw [if_pos (hz.mpr h64), h64]
    · rw [if_neg (mt hz.mp h64), hm, if_neg h64]
  unfold readXor
  simp only [hmv, hl]
  rw [UInt64.toNat_inj.mp hv]
  refine ⟨?_, hr3⟩
  split
  · rename_i h64
    have ht : trailingZeros x = 0 := by omega
    rw [ht]
    congr 1
  · rename_i hne
    have hshift : ((64 - (leadingZeros x : Int) - (meaningfulBits x : Int)) % 64).toNat
        = trailingZeros x := by omega
    rw [shiftLeftInt, hshift, shift_back hx]

private theorem readXor_bit {r : BitReader} {x : UInt64} {bs : List Bool} (pp : UInt64)
    (hx : x ≠ 0) (h : (rb r).2.rest = (xorCode x).tail ++ bs) :
    (readXor (rb r).2 pp).1 = pp ^^^ x ∧ (readXor (rb r).2 pp).2.rest = bs := by
  rw [xorCode, if_neg hx, List.tail_cons] at h
  exact readXor_code hx h

/-- The head of an XOR code is the `bit` the decoder branches on. -/
private theorem xorCode_head {r : BitReader} {x : UInt64} {bs : List Bool}
    (h : r.rest = xorCode x ++ bs) :
    ((rb r).1 = false ↔ x = 0) ∧ (rb r).2.rest = (xorCode x).tail ++ bs := by
  by_cases hx : x = 0
  · rw [hx, xorCode, if_pos rfl] at h
    obtain ⟨hb, hr⟩ := rb_cons h
    rw [hx, xorCode, if_pos rfl]
    exact ⟨by simp [hb], hr⟩
  · rw [xorCode, if_neg hx] at h
    obtain ⟨hb, hr⟩ := rb_cons h
    rw [xorCode, if_neg hx]
    exact ⟨by simp [hb, hx], hr⟩

/-- A word written against the previous one: either the `bit` says that it repeats, or the XOR
branch gives it back. -/
private theorem readXor_word {r : BitReader} {w p : UInt64} {bs : List Bool}
    (h : r.rest = xorCode (w ^^^ p) ++ bs) :
    ((rb r).1 = false ∧ w = p ∧ (rb r).2.rest = bs) ∨
      ((rb r).1 ≠ false ∧ (readXor (rb r).2 p).1 = w ∧ (readXor (rb r).2 p).2.rest = bs) := by
  obtain ⟨hbit, htail⟩ := xorCode_head h
  by_cases hx : w ^^^ p = 0
  · rw [hx] at htail
    exact .inl ⟨hbit.mpr hx, UInt64.xor_eq_zero_iff.mp hx, htail⟩
  · obtain ⟨hv, hr⟩ := readXor_bit p hx htail
    rw [xor_cancel] at hv
    exact .inr ⟨mt hbit.mp hx, hv, hr⟩

section ReadOne

variable {s : ValueReader} {st : ValueState} {strData : Bytes} {bs : List Bool} {str : Bytes}

private theorem read_string {c : Bytes}
    (h : s.In st strData (st.code (.string c) ++ bs) (stringBytes (.string c) ++ str))
    (hlen : c.length < 2 ^ 32) :
    (readValue strData s).1 = .string c ∧
      (readValue strData s).2.In (st.next (.string c)) strData bs str := by
  obtain ⟨hrest, hfirst, hbits, hint, hstr⟩ := h
  obtain ⟨hb0, hr0⟩ := rb_cons hrest
  obtain ⟨hb1, hr1⟩ := rb_cons hr0
  obtain ⟨hv, hr⟩ := rbits_append (by decide) hlen hr1
  have hslen : ((rbits (rb (rb s.reader).2).2 32).1.toUInt32).toNat = c.length := by
    rw [UInt64.toNat_toUInt32, hv]
    exact Nat.mod_eq_of_lt hlen
  have hread : (if s.strOff + c.length ≤ strData.length
      then (strData.drop s.strOff).take c.length else []) = c := by
    rw [hstr]
    split
    · exact List.take_left' rfl
    · rename_i hno
      have := congrArg List.length hstr
      simp only [List.length_drop, List.length_append, stringBytes] at this
      exact (List.length_eq_zero_iff.mp (by omega)).symm
  have htag : 2 * (rb s.reader).1.toNat + (rb (rb s.reader).2).1.toNat = 2 := by
    rw [hb0, hb1]
    rfl
  rw [readValue]
  simp only [htag, if_true, hslen]
  generalize rbits (rb (rb s.reader).2).2 32 = field at hr
  refine ⟨by rw [hread], hr, rfl, hbits, hint, ?_⟩
  rw [← List.drop_drop, hstr]
  exact List.drop_left' rfl

private theorem read_double {b : UInt64} (h : s.In st strData (st.code (.double b) ++ bs) str) :
    (readValue strData s).1 = .double b ∧
      (readValue strData s).2.In (st.next (.double b)) strData bs str := by
  obtain ⟨hrest, hfirst, hbits, hint, hstr⟩ := h
  rw [ValueState.code] at hrest
  obtain ⟨hb0, hr0⟩ := rb_cons hrest
  obtain ⟨hb1, hr1⟩ := rb_cons hr0
  have htag : 2 * (rb s.reader).1.toNat + (rb (rb s.reader).2).1.toNat = 0 := by
    rw [hb0, hb1]
    rfl
  rw [readValue]
  simp only [htag, if_true, show (0 : Nat) ≠ 2 by decide, if_false]
  by_cases hf : st.first = true
  · rw [if_pos hf] at hr1
    obtain ⟨hv, hr⟩ := rbits_append (Nat.le_refl 64) b.toNat_lt hr1
    rw [if_pos (hfirst.trans hf), UInt64.toNat_inj.mp hv]
    generalize rbits (rb (rb s.reader).2).2 64 = field at hr
    exact ⟨rfl, hr, rfl, rfl, hint, hstr⟩
  · have hnext : s.firstVal = (st.next (.double b)).first := by
      simpa [ValueState.next] using hfirst.trans (by simpa using hf)
    rw [if_neg hf, ← hbits] at hr1
    rw [if_neg (hfirst ▸ hf)]
    rcases readXor_word hr1 with ⟨hbit, hsame, hr⟩ | ⟨hbit, hv, hr⟩
    · rw [if_pos hbit]
      exact ⟨by rw [hsame], hr, hnext, hsame.symm, hint, hstr⟩
    · rw [if_neg hbit]
      exact ⟨by rw [hv], hr, hnext, hv, hint, hstr⟩

private theorem read_int64 {i : Int64} (h : s.In st strData (st.code (.int64 i) ++ bs) str) :
    (readValue strData s).1 = .int64 i ∧
      (readValue strData s).2.In (st.next (.int64 i)) strData bs str := by
  obtain ⟨hrest, hfirst, hbits, hint, hstr⟩ := h
  rw [ValueState.code] at hrest
  obtain ⟨hb0, hr0⟩ := rb_cons hrest
  obtain ⟨hb1, hr1⟩ := rb_cons hr0
  have htag : 2 * (rb s.reader).1.toNat + (rb (rb s.reader).2).1.toNat = 1 := by
    rw [hb0, hb1]
    rfl
  rw [readValue]
  simp only [htag, show (1 : Nat) ≠ 2 by decide, show (1 : Nat) ≠ 0 by decide, if_false]
  by_cases hf : st.first = true
  · rw [if_pos hf] at hr1
    obtain ⟨hv, hr⟩ := rbits_append (Nat.le_refl 64) i.toUInt64.toNat_lt hr1
    rw [if_pos (hfirst.trans hf), UInt64.toNat_inj.mp hv, Int64.toInt64_toUInt64]
    generalize rbits (rb (rb s.reader).2).2 64 = field at hr
    exact ⟨rfl, hr, rfl, hbits, rfl, hstr⟩
  · have hnext : s.firstVal = (st.next (.int64 i)).first := by
      simpa [ValueState.next] using hfirst.trans (by simpa using hf)
    rw [if_neg hf, ← hint] at hr1
    rw [if_neg (hfirst ▸ hf)]
    rcases readXor_word hr1 with ⟨hbit, hsame, hr⟩ | ⟨hbit, hv, hr⟩
    · have hsame : i = s.prevInt := by
        rw [← Int64.toInt64_toUInt64 i, hsame, Int64.toInt64_toUInt64]
      rw [if_pos hbit]
      exact ⟨by rw [hsame], hr, hnext, hbits, hsame.symm, hstr⟩
    · rw [if_neg hbit, hv, Int64.toInt64_toUInt64]
      exact ⟨rfl, hr, hnext, hbits, rfl, hstr⟩

/-- **One turn of the loop reads one value back**, whatever its type and the state. -/
theorem ValueReader.In.read {v : Value}
    (h : s.In st strData (st.code v ++ bs) (stringBytes v ++ str))
    (hlen : (stringBytes v).length < 2 ^ 32) :
    (readValue strData s).1 = v ∧ (readValue strData s).2.In (st.next v) strData bs str := by
  cases v with
  | double b => exact read_double h
  | int64 i => exact read_int64 h
  | string c => exact read_string h hlen

end ReadOne

/-! ## The whole stream -/

theorem decodeValues_some (strData : Bytes) (s : ValueReader) (n : Nat) :
    decodeValues strData s (some n) = (decodeValues strData s none).take n := by
  induction n generalizing s with
  | zero =>
    rw [decodeValues]
    simp
  | succ n ih =>
    rw [decodeValues, decodeValues]
    by_cases h : s.reader.bp < s.reader.data.length
    · simp [h, ih]
    · simp [h]

theorem ValueState.code_ne_nil (st : ValueState) (v : Value) : st.code v ≠ [] := by
  cases v <;> simp [ValueState.code]

theorem ValueReader.In.run {s : ValueReader} {st : ValueState} {strData : Bytes}
    {vs : List Value} {bs : List Bool} {str : Bytes}
    (h : s.In st strData (st.codeAll vs ++ bs) (vs.flatMap stringBytes ++ str))
    (hlen : ∀ v ∈ vs, (stringBytes v).length < 2 ^ 32) :
    ∃ s', s'.In (st.nextAll vs) strData bs str ∧
      decodeValues strData s none = vs ++ decodeValues strData s' none := by
  induction vs generalizing s st with
  | nil => exact ⟨s, h, rfl⟩
  | cons v vs ih =>
    rw [ValueState.codeAll, List.flatMap_cons, List.append_assoc, List.append_assoc] at h
    obtain ⟨hv, hnext⟩ := h.read (hlen v List.mem_cons_self)
    obtain ⟨s', hs', hdec⟩ := ih hnext fun w hw => hlen w (List.mem_cons_of_mem _ hw)
    have hmore : s.reader.bp < s.reader.data.length := by
      rw [s.reader.lt_length_iff, h.rest]
      simp [st.code_ne_nil]
    refine ⟨s', hs', ?_⟩
    rw [decodeValues, dif_pos ⟨by simp, hmore⟩]
    simp only [hv, Option.map_none, hdec, List.cons_append]

/-- **Padding decodes to repetitions.** Once a value has been read, zeros up to the end of the
bytes spell the double tag and the "same as before" bit, three to a value. -/
theorem ValueReader.In.run_zeros {s : ValueReader} {st : ValueState} {strData : Bytes}
    {str : Bytes} {k : Nat} (h : s.In st strData (List.replicate k false) str)
    (hf : st.first = false) :
    decodeValues strData s none = List.replicate ((k + 2) / 3) (.double st.prevBits) := by
  induction k using Nat.strongRecOn generalizing s with
  | ind k ih =>
    rcases Nat.eq_zero_or_pos k with rfl | hk
    · have hend : ¬ s.reader.bp < s.reader.data.length := by
        rw [s.reader.lt_length_iff, h.rest]
        simp
      rw [decodeValues, dif_neg (by simp [hend])]
      rfl
    · have hmore : s.reader.bp < s.reader.data.length := by
        rw [s.reader.lt_length_iff, h.rest]
        simp
        omega
      have hhead : ∀ n, (List.replicate n false).headD false = false := by
        intro n
        cases n <;> rfl
      obtain ⟨hb0, hr0⟩ := rb_spec s.reader
      rw [h.rest, hhead] at hb0
      rw [h.rest, List.tail_replicate] at hr0
      obtain ⟨hb1, hr1⟩ := rb_spec (rb s.reader).2
      rw [hr0, hhead] at hb1
      rw [hr0, List.tail_replicate] at hr1
      obtain ⟨hb2, hr2⟩ := rb_spec (rb (rb s.reader).2).2
      rw [hr1, hhead] at hb2
      rw [hr1, List.tail_replicate] at hr2
      have htag : 2 * (rb s.reader).1.toNat + (rb (rb s.reader).2).1.toNat = 0 := by
        rw [hb0, hb1]
        rfl
      have hread : readValue strData s
          = (.double s.prevDoubleBits, { s with reader := (rb (rb (rb s.reader).2).2).2 }) := by
        rw [readValue]
        simp [htag, h.first, hf, hb2]
      have hin : ({ s with reader := (rb (rb (rb s.reader).2).2).2 } : ValueReader).In st strData
          (List.replicate (k - 1 - 1 - 1) false) str :=
        ⟨hr2, h.first, h.prevBits, h.prevInt, h.str⟩
      rw [decodeValues, dif_pos ⟨by simp, hmore⟩]
      simp only [hread, Option.map_none]
      rw [ih _ (by omega) hin, h.prevBits, ← List.replicate_succ]
      congr 1
      omega

def valueCode (vs : List Value) : List Bool := ValueState.start.codeAll vs

def valuePadding (vs : List Value) : Nat := padding (valueCode vs).length

theorem ValueEncoder.encodeAll_holds (vs : List Value) :
    (ValueEncoder.encodeAll {} vs).buffer.Holds (valueCode vs) :=
  (ValueEncoder.start_in.encodeAll vs).holds

theorem ValueState.first_nextAll {st : ValueState} {vs : List Value} (h : vs ≠ []) :
    (st.nextAll vs).first = false := by
  have hstep : ∀ (vs : List Value) (st : ValueState), st.first = false →
      (st.nextAll vs).first = false := by
    intro vs
    induction vs with
    | nil => exact fun _ h => h
    | cons v vs ih =>
      intro st _
      refine ih (st.next v) ?_
      cases v <;> rfl
  cases vs with
  | nil => exact absurd rfl h
  | cons v vs =>
    refine hstep vs (st.next v) ?_
    cases v <;> rfl

/-- **Without a count** the decoder returns the values and, for the padding, repetitions of the
last double. -/
theorem ValueEncoder.decode_unbounded {vs : List Value} (hne : vs ≠ [])
    (hlen : ∀ v ∈ vs, (stringBytes v).length < 2 ^ 32) :
    ValueEncoder.decode (ValueEncoder.encodeAll {} vs).getBytes
        (ValueEncoder.encodeAll {} vs).getStringData 0
      = vs ++ List.replicate ((valuePadding vs + 2) / 3)
          (.double (ValueState.start.nextAll vs).prevBits) := by
  have hholds := ValueEncoder.encodeAll_holds vs
  have hdata : (ValueEncoder.encodeAll {} vs).getBytes ≠ [] := by
    intro hnil
    have hbits := hholds.bits
    rw [ValueEncoder.getBytes] at hnil
    rw [hnil] at hbits
    obtain ⟨v, vs', rfl⟩ := List.exists_cons_of_ne_nil hne
    simp [valueCode, ValueState.codeAll, ValueState.code_ne_nil] at hbits
  have hstr : (ValueEncoder.encodeAll {} vs).getStringData = vs.flatMap stringBytes ++ [] := by
    rw [ValueEncoder.getStringData, ValueEncoder.stringData_encodeAll, List.append_nil]
    rfl
  have hin : ValueReader.In { reader := { data := (ValueEncoder.encodeAll {} vs).getBytes } }
      ValueState.start (ValueEncoder.encodeAll {} vs).getStringData
      (ValueState.start.codeAll vs ++ List.replicate (valuePadding vs) false)
      (vs.flatMap stringBytes ++ []) :=
    ⟨by rw [BitReader.rest_start]; exact hholds.bits, rfl, rfl, rfl, by rw [hstr]; rfl⟩
  obtain ⟨s', hs', hdec⟩ := hin.run hlen
  rw [ValueEncoder.decode, if_neg hdata, if_neg (Nat.lt_irrefl 0), hdec,
    hs'.run_zeros (ValueState.first_nextAll hne)]

/-- **The value round trip with a count** gives the list back: doubles with their bit patterns,
integers and strings, in any mix. -/
theorem ValueEncoder.decode_counted (vs : List Value)
    (hlen : ∀ v ∈ vs, (stringBytes v).length < 2 ^ 32) :
    ValueEncoder.decode (ValueEncoder.encodeAll {} vs).getBytes
        (ValueEncoder.encodeAll {} vs).getStringData vs.length = vs := by
  by_cases hne : vs = []
  · rw [hne]
    rfl
  · have hunb := ValueEncoder.decode_unbounded hne hlen
    rw [ValueEncoder.decode] at hunb ⊢
    split at hunb
    · rename_i hnil
      rw [if_pos hnil]
      cases vs with
      | nil => rfl
      | cons v vs => exact absurd hunb (by simp)
    · rename_i hdata
      rw [if_neg (Nat.lt_irrefl 0)] at hunb
      rw [if_neg hdata, if_pos (List.length_pos_iff.mpr hne), decodeValues_some, hunb]
      exact List.take_left' rfl

/-- **Values in any mix come back**, in their order and each of its own type, from an encoder just
constructed or reset. -/
theorem ValueEncoder.decode_encodeAll (e : ValueEncoder) {vs : List Value}
    (hlen : ∀ v ∈ vs, (stringBytes v).length < 2 ^ 32) :
    ValueEncoder.decode (e.reset.encodeAll vs).getBytes (e.reset.encodeAll vs).getStringData
      vs.length = vs :=
  ValueEncoder.decode_counted vs hlen

/-- Minus zero, a NaN and an infinity, with an integer and a string among them. -/
theorem ValueEncoder.decode_encodeAll_mixed :
    ValueEncoder.decode
        (ValueEncoder.encodeAll {} [.double 0x8000000000000000, .int64 (-1), .string (ascii "on"),
          .double 0x7FF8000000000001, .double 0x7FF0000000000000, .int64 (-1)]).getBytes
        (ValueEncoder.encodeAll {} [.double 0x8000000000000000, .int64 (-1), .string (ascii "on"),
          .double 0x7FF8000000000001, .double 0x7FF0000000000000, .int64 (-1)]).getStringData 6
      = [.double 0x8000000000000000, .int64 (-1), .string (ascii "on"),
          .double 0x7FF8000000000001, .double 0x7FF0000000000000, .int64 (-1)] :=
  ValueEncoder.decode_encodeAll {} (by decide)

end Storage
end MiniTSDB
