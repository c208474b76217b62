import MiniTSDB.Lib.CheckedLoop
import MiniTSDB.Storage.ValueEncoder

/-!
# What `ValueEncoder::Decode` reads and shifts (`compressor.cpp`)

The decoder of `ValueEncoder` reads its two buffers as it stands. Here every access is checked
against the buffer it is to, and every shift against the width of a word; offsets into the strings
are `size_t`. The bits can only be read where there are some, but two fields of a value are taken as
they are: the leading zeros and the width of a word may be more than the word has bits.

`decodeChecked_iff` says on which bytes the decoder stays in its bounds.
-/

namespace MiniTSDB
namespace Storage

open Lib

/-- What a checked step of the decoder may find. -/
inductive DecodeFault
  | outOfData
  | outOfStrings
  | shiftAmount (amount : Int)
  deriving DecidableEq, Repr

/-- The left operand's width is 64: an amount outside `0..63` is undefined. -/
def checkShift (amount : Int) : Except DecodeFault Unit :=
  if 0 ≤ amount ∧ amount < 64 then .ok () else .error (.shiftAmount amount)

/-- `rb`, with the access to `data[bp]` checked. -/
def rbChecked (r : BitReader) : Except DecodeFault (Bool × BitReader) :=
  if r.bp ≥ r.data.length then .ok (false, r)
  else
    match r.data[r.bp]? with
    | none => .error .outOfData
    | some byte => do
      checkShift r.bitp
      let b := (byte >>> UInt8.ofNat r.bitp) &&& 1 == 1
      if h : r.bitp.val + 1 < 8 then
        return (b, { r with bitp := ⟨r.bitp + 1, h⟩ })
      else
        return (b, { r with bp := r.bp + 1, bitp := 0 })

/-- `rbits`, from bit `i` on. -/
def rbitsChecked (v : UInt64) (r : BitReader) (i : Nat) : Nat →
    Except DecodeFault (UInt64 × BitReader)
  | 0 => .ok (v, r)
  | n + 1 => do
    let (b, r) ← rbChecked r
    checkShift i
    rbitsChecked (v ||| b.toUInt64 <<< UInt64.ofNat i) r (i + 1) n

/-- The XOR branch of `Decode` after its `1` bit. -/
def readXorChecked (r : BitReader) (pp : UInt64) : Except DecodeFault (UInt64 × BitReader) := do
  let (lead, r) ← rbitsChecked 0 r 0 6
  let (meaningful, r) ← rbitsChecked 0 r 0 6
  let mv := if meaningful = 0 then 64 else meaningful.toNat
  let (xv, r) ← rbitsChecked 0 r 0 mv
  if mv = 64 then return (pp ^^^ xv, r)
  else
    let amount : Int := 64 - (lead.toNat : Int) - (mv : Int)
    checkShift amount
    return (pp ^^^ shiftLeftInt xv amount, r)

/-- `if (str_data && str_off + slen <= str_len) s.assign(str_data + str_off, slen)`. -/
def assignChecked (strData : Bytes) (strOff slen : Nat) : Except DecodeFault Bytes :=
  if (strOff + slen) % 2 ^ 64 ≤ strData.length then
    if strOff + slen ≤ strData.length then .ok ((strData.drop strOff).take slen)
    else .error .outOfStrings
  else .ok []

/-- One turn of `Decode`'s loop. -/
def readValueChecked (strData : Bytes) (s : ValueReader) :
    Except DecodeFault (Value × ValueReader) := do
  let (hi, r) ← rbChecked s.reader
  let (lo, r) ← rbChecked r
  let tag : Nat := 2 * hi.toNat + lo.toNat
  if tag = 2 then
    let (v, r) ← rbitsChecked 0 r 0 32
    let slen := v.toUInt32.toNat
    let str ← assignChecked strData s.strOff slen
    return (.string str,
      { s with reader := r, strOff := (s.strOff + slen) % 2 ^ 64, firstVal := false })
  else if s.firstVal then
    let (raw, r) ← rbitsChecked 0 r 0 64
    if tag = 0 then
      return (.double raw, { s with reader := r, firstVal := false, prevDoubleBits := raw })
    else
      return (.int64 raw.toInt64, { s with reader := r, firstVal := false, prevInt := raw.toInt64 })
  else
    let (bit, r) ← rbChecked r
    if bit = false then
      return (if tag = 0 then .double s.prevDoubleBits else .int64 s.prevInt, { s with reader := r })
    else if tag = 0 then
      let (vb, r) ← readXorChecked r s.prevDoubleBits
      return (.double vb, { s with reader := r, prevDoubleBits := vb })
    else
      let (vb, r) ← readXorChecked r s.prevInt.toUInt64
      return (.int64 vb.toInt64, { s with reader := r, prevInt := vb.toInt64 })

/-- The guard of `Decode`'s loop, at a state and the number of values it may still read: `none`
where the source holds `SIZE_MAX`. -/
def ValueAhead (t : ValueReader × Option Nat) : Prop :=
  t.2 ≠ some 0 ∧ t.1.reader.bp < t.1.reader.data.length

instance decidableValueAhead (t : ValueReader × Option Nat) : Decidable (ValueAhead t) :=
  inferInstanceAs (Decidable (_ ∧ _))

/-- The turn of `Decode`'s loop. -/
def decodeTurn (strData : Bytes) (t : ValueReader × Option Nat) :
    Option (Except DecodeFault (Value × (ValueReader × Option Nat))) :=
  if ValueAhead t then
    some ((readValueChecked strData t.1).map fun e => (e.1, e.2, t.2.map (· - 1)))
  else none

/-- `remaining` and the cursor before the loop. -/
def decodeStart (data : Bytes) (count : Nat) : ValueReader × Option Nat :=
  ({ reader := { data } }, if count > 0 then some count else none)

/-- `ValueEncoder::Decode`, in at most `fuel` turns of its loop. -/
def decodeChecked (fuel : Nat) (data strData : Bytes) (count : Nat) :
    Option (Except DecodeFault (List Value)) :=
  if data = [] then some (.ok [])
  else checkedLoop (decodeTurn strData) fuel (decodeStart data count)

/-! ## What the values have to be like -/

/-- The leading zeros and the width of the word at this place, if it is one that is shifted. -/
def xorFields? (s : ValueReader) : Option (Nat × Nat) :=
  let hi := rb s.reader
  let lo := rb hi.2
  let bit := rb lo.2
  let lead := rbits bit.2 6
  let meaningful := rbits lead.2 6
  if 2 * hi.1.toNat + lo.1.toNat ≠ 2 ∧ s.firstVal = false ∧ bit.1 = true ∧ meaningful.1 ≠ 0 then
    some (lead.1.toNat, meaningful.1.toNat)
  else none

/-- The length of the string at this place, if it is one. -/
def stringField? (s : ValueReader) : Option Nat :=
  let hi := rb s.reader
  let lo := rb hi.2
  if 2 * hi.1.toNat + lo.1.toNat = 2 then some (rbits lo.2 32).1.toUInt32.toNat else none

/-- A word has at most 64 bits, and where the end of a string comes out inside the side buffer, it
is there. -/
def ValueFits (strLen : Nat) (s : ValueReader) : Prop :=
  (∀ f ∈ xorFields? s, f.1 + f.2 ≤ 64) ∧
    ∀ slen ∈ stringField? s, (s.strOff + slen) % 2 ^ 64 ≤ strLen → s.strOff + slen ≤ strLen

/-- The decoder of `ValueEncoder`, with the offset behind a string a `size_t`. -/
def readValueWrapped (strData : Bytes) (s : ValueReader) : Value × ValueReader :=
  let e := readValue strData s
  if (stringField? s).isSome then (e.1, { e.2 with strOff := e.2.strOff % 2 ^ 64 }) else e

/-- From one value to the next. -/
def NextValue (strData : Bytes) (t t' : ValueReader × Option Nat) : Prop :=
  ValueAhead t ∧ t' = ((readValueWrapped strData t.1).2, t.2.map (· - 1))

/-- Every value that is come to fits. -/
def ValuesFit (strData : Bytes) (t : ValueReader × Option Nat) : Prop :=
  AllReached (NextValue strData) (fun t => ValueAhead t → ValueFits strData.length t.1) t

/-! ## Bits -/

/-- The byte is there, and the amount is the cursor's. -/
theorem rbChecked_eq (r : BitReader) : rbChecked r = .ok (rb r) := by
  rw [rbChecked, rb]
  by_cases h : r.bp < r.data.length
  · have hshift : checkShift (r.bitp.val : Int) = .ok () := if_pos (by omega)
    rw [if_neg (by omega), dif_pos h, List.getElem?_eq_getElem h]
    dsimp only
    rw [hshift]
    simp only [bind, Except.bind, pure, Except.pure]
    split <;> rfl
  · rw [if_pos (by omega), dif_neg h]

private theorem rbitsChecked_from (n : Nat) : ∀ (v : UInt64) (r : BitReader) (i : Nat),
    i + n ≤ 64 → rbitsChecked v r i n = .ok ((List.range' i n).foldl
      (fun s i => ((s.1 ||| (rb s.2).1.toUInt64 <<< UInt64.ofNat i), (rb s.2).2)) (v, r)) := by
  induction n with
  | zero =>
    intro v r i _
    rfl
  | succ n ih =>
    intro v r i hi
    have hshift : checkShift (i : Int) = .ok () := if_pos (by omega)
    rw [rbitsChecked, rbChecked_eq]
    simp only [bind, Except.bind]
    rw [hshift]
    dsimp only
    rw [ih _ _ _ (by omega), List.range'_succ, List.foldl_cons]

/-- Every amount is below the number of bits asked for. -/
theorem rbitsChecked_eq (r : BitReader) {n : Nat} (hn : n ≤ 64) :
    rbitsChecked 0 r 0 n = .ok (rbits r n) := by
  rw [rbitsChecked_from n 0 r 0 (by omega), rbits, List.range_eq_range']

/-! ## Values -/

/-- The shift is in its bounds exactly if the leading zeros and the width fit into a word. -/
theorem readXorChecked_spec {r : BitReader} {lead meaningful : UInt64 × BitReader}
    (hlead : rbits r 6 = lead) (hmeaningful : rbits lead.2 6 = meaningful) (pp : UInt64) :
    (meaningful.1 = 0 ∨ lead.1.toNat + meaningful.1.toNat ≤ 64 →
        readXorChecked r pp = .ok (readXor r pp)) ∧
      (¬ (meaningful.1 = 0 ∨ lead.1.toNat + meaningful.1.toNat ≤ 64) →
        ∃ amount, readXorChecked r pp = .error (.shiftAmount amount)) := by
  have hlt : meaningful.1.toNat < 64 := by
    rw [← hmeaningful]
    exact toNat_rbits_six_lt lead.2
  rw [readXorChecked, readXor, rbitsChecked_eq r (by decide), hlead]
  simp only [bind, Except.bind]
  rw [rbitsChecked_eq lead.2 (by decide), hmeaningful]
  dsimp only
  by_cases hzero : meaningful.1 = 0
  · -- a whole word, not shifted
    rw [if_pos hzero, rbitsChecked_eq meaningful.2 (by decide)]
    dsimp only
    rw [if_pos rfl, if_pos rfl]
    exact ⟨fun _ => rfl, fun h => absurd (Or.inl hzero) h⟩
  · have hpos : 0 < meaningful.1.toNat := by
      refine Nat.pos_of_ne_zero ?_
      intro h
      exact hzero (UInt64.toNat_inj.mp h)
    rw [if_neg hzero, rbitsChecked_eq meaningful.2 (by omega)]
    dsimp only
    rw [if_neg (by omega), if_neg (by omega)]
    constructor
    · intro h
      have hle := h.resolve_left hzero
      have hshift : checkShift (64 - (lead.1.toNat : Int) - (meaningful.1.toNat : Int)) = .ok () :=
        if_pos (by omega)
      rw [hshift]
      rfl
    · intro h
      have hshift : checkShift (64 - (lead.1.toNat : Int) - (meaningful.1.toNat : Int))
          = .error (.shiftAmount _) := if_neg (by omega)
      rw [hshift]
      exact ⟨_, rfl⟩

private theorem forall_fields_iff {c : Prop} [Decidable c] {lead width : Nat} :
    (∀ f ∈ (if ¬ c then some (lead, width) else none), f.1 + f.2 ≤ 64) ↔
      c ∨ lead + width ≤ 64 := by
  by_cases h : c
  · simp [h]
  · simp [h]

/-- A shift out of bounds ends the value it is for; one in bounds hands on the word. -/
private theorem checked_word {α β : Type} {x : Except DecodeFault α} {y : α} {fits : Prop}
    (k : α → β) (hok : fits → x = .ok y)
    (herror : ¬ fits → ∃ amount, x = .error (.shiftAmount amount)) :
    (fits → (x >>= fun a => .ok (k a)) = .ok (k y)) ∧
      (¬ fits → ∃ fault, (x >>= fun a => .ok (k a)) = .error fault ∧ fault ≠ .outOfData) := by
  constructor
  · intro h
    rw [hok h]
    rfl
  · intro h
    obtain ⟨amount, hamount⟩ := herror h
    rw [hamount]
    refine ⟨_, rfl, ?_⟩
    intro heq
    cases heq

/-- **One value**: the checked decoder does what the decoder of `ValueEncoder` does if the value
fits, and leaves its bounds if it does not. -/
theorem readValueChecked_spec (strData : Bytes) (s : ValueReader) :
    (ValueFits strData.length s → readValueChecked strData s = .ok (readValueWrapped strData s)) ∧
      (¬ ValueFits strData.length s →
        ∃ fault, readValueChecked strData s = .error fault ∧ fault ≠ .outOfData) := by
  rw [readValueChecked, readValueWrapped, readValue, ValueFits, xorFields?, stringField?, rbChecked_eq]
  simp only [bind, Except.bind]
  rw [rbChecked_eq]
  dsimp only
  by_cases hstring : 2 * (rb s.reader).1.toNat + (rb (rb s.reader).2).1.toNat = 2
  · -- a string
    rw [if_pos hstring, if_pos hstring, rbitsChecked_eq _ (by decide)]
    simp only [hstring, ne_eq, not_true_eq_false, false_and, if_false, if_true, Option.not_mem_none,
      false_implies, implies_true, true_and, Option.mem_some, forall_eq', Option.isSome_some]
    generalize (rbits (rb (rb s.reader).2).2 32).1.toUInt32.toNat = slen
    rw [assignChecked]
    by_cases hwrap : (s.strOff + slen) % 2 ^ 64 ≤ strData.length
    · rw [if_pos hwrap]
      by_cases hfits : s.strOff + slen ≤ strData.length
      · rw [if_pos hfits, if_pos hfits]
        exact ⟨fun _ => rfl, fun h => absurd (fun _ => hfits) h⟩
      · rw [if_neg hfits]
        refine ⟨fun h => absurd (h hwrap) hfits, fun _ => ⟨_, rfl, ?_⟩⟩
        intro heq
        cases heq
    · have hout : ¬ s.strOff + slen ≤ strData.length := by
        intro h
        exact hwrap ((Nat.mod_le _ _).trans h)
      rw [if_neg hwrap, if_neg hout]
      exact ⟨fun _ => rfl, fun h => absurd (fun hin => absurd hin hwrap) h⟩
  · simp only [hstring, if_false, Option.isSome_none, Option.not_mem_none, false_implies,
      implies_true, and_true, Bool.false_eq_true, ne_eq, not_false_eq_true, true_and]
    by_cases hfirst : s.firstVal = true
    · -- the first value, whole
      simp only [hfirst, if_true, Bool.true_eq_false, false_and, if_false, Option.not_mem_none,
        false_implies, implies_true, not_true_eq_false, and_true]
      rw [rbitsChecked_eq _ (by decide)]
      intro _
      dsimp only
      split <;> rfl
    · simp only [hfirst, if_false, Bool.false_eq_true, true_and]
      rw [rbChecked_eq]
      dsimp only
      by_cases hbit : (rb (rb (rb s.reader).2).2).1 = true
      · -- a word
        simp only [hbit, Bool.true_eq_false, if_false, true_and]
        rw [forall_fields_iff]
        -- the two fields in front of the word, as they are read
        generalize (rb (rb (rb s.reader).2).2).2 = r
        generalize hlead : rbits r 6 = lead
        generalize hmeaningful : rbits lead.2 6 = meaningful
        obtain ⟨hok, herror⟩ := readXorChecked_spec hlead hmeaningful s.prevDoubleBits
        obtain ⟨hok', herror'⟩ := readXorChecked_spec hlead hmeaningful s.prevInt.toUInt64
        by_cases htag : 2 * (rb s.reader).1.toNat + (rb (rb s.reader).2).1.toNat = 0
        · rw [if_pos htag, if_pos htag]
          exact checked_word _ hok herror
        · rw [if_neg htag, if_neg htag]
          exact checked_word _ hok' herror'
      · -- the last value of the type again
        rw [Bool.not_eq_true] at hbit
        simp [hbit, pure, Except.pure]

/-! ## The whole stream -/

@[simp] theorem reader_readValueWrapped (strData : Bytes) (s : ValueReader) :
    (readValueWrapped strData s).2.reader = (readValue strData s).2.reader := by
  rw [readValueWrapped]
  dsimp only
  split <;> rfl

theorem decodeTurn_fits {strData : Bytes} {t : ValueReader × Option Nat} (hahead : ValueAhead t)
    (hfits : ValueFits strData.length t.1) :
    decodeTurn strData t = some (.ok ((readValueWrapped strData t.1).1,
      (readValueWrapped strData t.1).2, t.2.map (· - 1))) := by
  rw [decodeTurn, if_pos hahead, (readValueChecked_spec strData t.1).1 hfits]
  rfl

theorem decodeTurn_not_fits {strData : Bytes} {t : ValueReader × Option Nat}
    (hahead : ValueAhead t) (hfits : ¬ ValueFits strData.length t.1) :
    ∃ fault, decodeTurn strData t = some (.error fault) ∧ fault ≠ .outOfData := by
  obtain ⟨fault, hfault, hne⟩ := (readValueChecked_spec strData t.1).2 hfits
  refine ⟨fault, ?_, hne⟩
  rw [decodeTurn, if_pos hahead, hfault]
  rfl

/-- A turn that does not fault is at a value, which fits, and goes on to the next. -/
theorem decodeTurn_ok {strData : Bytes} {t t' : ValueReader × Option Nat} {v : Value}
    (h : decodeTurn strData t = some (.ok (v, t'))) :
    ValueAhead t ∧ ValueFits strData.length t.1 ∧ NextValue strData t t' := by
  by_cases hahead : ValueAhead t
  · by_cases hfits : ValueFits strData.length t.1
    · rw [decodeTurn_fits hahead hfits] at h
      cases h
      exact ⟨hahead, hfits, hahead, rfl⟩
    · obtain ⟨fault, hfault, -⟩ := decodeTurn_not_fits hahead hfits
      rw [hfault] at h
      cases h
  · rw [decodeTurn, if_neg hahead] at h
    cases h

theorem decodeTurn_fault_iff {strData : Bytes} {t : ValueReader × Option Nat} :
    (ValueAhead t → ValueFits strData.length t.1) ↔
      ∀ fault, decodeTurn strData t ≠ some (.error fault) := by
  constructor
  · intro hfits fault h
    by_cases hahead : ValueAhead t
    · rw [decodeTurn_fits hahead (hfits hahead)] at h
      cases h
    · rw [decodeTurn, if_neg hahead] at h
      cases h
  · intro h hahead
    by_contra hfits
    obtain ⟨fault, hfault, -⟩ := decodeTurn_not_fits hahead hfits
    exact h fault hfault

theorem NextValue.lt {strData : Bytes} {t t' : ValueReader × Option Nat}
    (h : NextValue strData t t') : t'.1.reader.rest.length < t.1.reader.rest.length := by
  obtain ⟨hahead, rfl⟩ := h
  rw [reader_readValueWrapped]
  exact length_rest_readValue_lt strData hahead.2

theorem NextValue.count_lt {strData : Bytes} {t t' : ValueReader × Option Nat}
    (h : NextValue strData t t') :
    t'.2.getD t'.1.reader.rest.length < t.2.getD t.1.reader.rest.length := by
  have hlt := h.lt
  obtain ⟨hahead, rfl⟩ := h
  cases hleft : t.2 with
  | none => simpa [hleft] using hlt
  | some left =>
    have hpos : left ≠ 0 := by
      intro h
      exact hahead.1 (by rw [hleft, h])
    show left - 1 < left
    omega

/-- **`Decode` ends on all bytes and reads `data` in its bounds. It stays in the bounds of the
strings and of a word exactly if every value it comes to fits; then there are no more values than
were asked for.** -/
theorem decodeChecked_iff (data strData : Bytes) (count : Nat) :
    (∀ fuel > 8 * data.length, ∃ result, decodeChecked fuel data strData count = some result) ∧
      (∀ fuel, decodeChecked fuel data strData count ≠ some (.error .outOfData)) ∧
      ∀ fuel result, decodeChecked fuel data strData count = some result →
        ((∃ values, result = .ok values ∧ (count > 0 → values.length ≤ count)) ↔
          ValuesFit strData (decodeStart data count)) := by
  by_cases hdata : data = []
  · -- no bytes, no values
    have hahead : ¬ ValueAhead (decodeStart data count) := by simp [ValueAhead, decodeStart, hdata]
    have hfits : ValuesFit strData (decodeStart data count) :=
      allReached_iff.mpr ⟨fun h => absurd h hahead, fun t h => absurd h.1 hahead⟩
    simp only [decodeChecked, if_pos hdata]
    refine ⟨fun _ _ => ⟨_, rfl⟩, fun _ => nofun, ?_⟩
    intro fuel result hresult
    cases hresult
    exact ⟨fun _ => hfits, fun _ => ⟨[], rfl, fun _ => Nat.zero_le _⟩⟩
  · simp only [decodeChecked, if_neg hdata]
    have hsize : (decodeStart data count).1.reader.rest.length = 8 * data.length := by
      show (BitReader.rest { data }).length = _
      rw [BitReader.rest_start, length_bitsOfBytes]
    refine ⟨?_, ?_, ?_⟩
    · -- every turn takes bits from the reader
      intro fuel hfuel
      refine checkedLoop_total (fun t => t.1.reader.rest.length) ?_ fuel _ (by omega)
      intro t v t' hturn
      exact (decodeTurn_ok hturn).2.2.lt
    · -- no turn leaves `data`, in bounds or not
      intro fuel hfault
      obtain ⟨t, ht⟩ := exists_turn_of_error fuel _ hfault
      by_cases hahead : ValueAhead t
      · by_cases hfits : ValueFits strData.length t.1
        · exact decodeTurn_fault_iff.mp (fun _ => hfits) _ ht
        · obtain ⟨fault, hturn, hne⟩ := decodeTurn_not_fits hahead hfits
          rw [hturn] at ht
          cases ht
          exact hne rfl
      · exact decodeTurn_fault_iff.mp (fun h => absurd h hahead) _ ht
    · intro fuel result hresult
      have hiff := checkedLoop_ok_iff (NextValue strData)
        (fun t => ValueAhead t → ValueFits strData.length t.1)
        (fun _ => decodeTurn_fault_iff) ?_ fuel _ result hresult
      · rw [ValuesFit, ← hiff]
        constructor
        · intro ⟨values, hvalues, _⟩
          exact ⟨values, hvalues⟩
        · intro ⟨values, hvalues⟩
          refine ⟨values, hvalues, ?_⟩
          intro hcount
          rw [hvalues] at hresult
          have hle := checkedLoop_length_le (fun t => t.2.getD t.1.reader.rest.length)
            (fun t v t' hturn => (decodeTurn_ok hturn).2.2.count_lt) fuel _ _ hresult
          simpa [decodeStart, hcount] using hle
      · intro t t' hfits
        constructor
        · intro ⟨hahead, ht'⟩
          exact ⟨_, by rw [decodeTurn_fits hahead (hfits hahead), ht']⟩
        · intro ⟨v, hv⟩
          exact (decodeTurn_ok hv).2.2

/-- **A word of 63 leading zeros and 63 bits**: behind an empty string, the shift is by -62. -/
theorem decodeChecked_shiftAmount :
    decodeChecked 57 [0x01, 0, 0, 0, 0xf0, 0xff, 0x01] [] 2
        = some (.error (.shiftAmount (-62))) ∧
      ¬ ∃ fuel values,
        decodeChecked fuel [0x01, 0, 0, 0, 0xf0, 0xff, 0x01] [] 2 = some (.ok values) := by
  have hfault : checkedLoop (decodeTurn []) 57 (decodeStart [0x01, 0, 0, 0, 0xf0, 0xff, 0x01] 2)
      = some (.error (.shiftAmount (-62))) := by decide
  refine ⟨hfault, ?_⟩
  intro ⟨fuel, values, hok⟩
  have hlater := checkedLoop_mono (Nat.le_max_left 57 fuel) hfault
  rw [checkedLoop_mono (Nat.le_max_right 57 fuel) hok] at hlater
  cases hlater

/-- Two equal numbers are decoded in bounds. -/
theorem decodeChecked_iff_numbers :
    decodeChecked 73 [0x1e, 0, 0, 0, 0, 0, 0, 0, 0x08] [] 2 = some (.ok [.int64 7, .int64 7]) ∧
      ValuesFit [] (decodeStart [0x1e, 0, 0, 0, 0, 0, 0, 0, 0x08] 2) := by
  have hrun : decodeChecked 73 [0x1e, 0, 0, 0, 0, 0, 0, 0, 0x08] [] 2
      = some (.ok [.int64 7, .int64 7]) := by decide
  have hfits := ((decodeChecked_iff [0x1e, 0, 0, 0, 0, 0, 0, 0, 0x08] [] 2).2.2 73 _ hrun).mp
    ⟨_, rfl, fun _ => by decide⟩
  exact ⟨hrun, hfits⟩

end Storage
end MiniTSDB
