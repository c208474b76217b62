import MiniTSDB.Auth.Sha256Standard

/-!
# The object `SHA256` digests what it was fed

`SHA256` of the model keeps the bytes that wait for a block as a list and pads by a formula. The
object of the code keeps an array of 64 bytes and a counter, and its padding is a loop that may
have to close one block before it fills the next. The object does the same as the list, and the
list computes the standard digest of everything that was handed over.
-/

namespace MiniTSDB
namespace Auth

open Lib Sha2

/-! ## The object -/

/-- `SHA256` with the whole of `data_`, and `count_`. -/
structure SHA256Object where
  h : Words
  data : Vector UInt8 64
  count : Nat
  messageBytes : UInt64

namespace SHA256Object

/-- The constructor; it leaves the array as it finds it. -/
def init (data : Vector UInt8 64) : SHA256Object where
  h := .start
  data := data
  count := 0
  messageBytes := 0

/-- `data_[count_++] = b`; a write behind the array is no outcome. -/
def store (s : SHA256Object) (b : UInt8) : Option SHA256Object :=
  if h : s.count < 64 then some { s with data := s.data.set s.count b, count := s.count + 1 }
  else none

/-- `ProcessBlock`. -/
def process (s : SHA256Object) : SHA256Object := { s with h := processBlock s.h s.data.toList }

/-- `if (count_ == 64) { ProcessBlock(); count_ = 0; }` -/
def flush (s : SHA256Object) : SHA256Object :=
  if s.count = 64 then { s.process with count := 0 } else s

/-- One turn of the loop of `Update`. -/
def put (s : SHA256Object) (b : UInt8) : Option SHA256Object := (s.store b).map flush

/-- `Update`. -/
def update (s : SHA256Object) (data : Bytes) : Option SHA256Object :=
  (data.foldlM put s).map fun s =>
    { s with messageBytes := s.messageBytes + UInt64.ofNat data.length }

theorem count_flush (s : SHA256Object) :
    s.flush.count = if s.count = 64 then 0 else s.count := by
  unfold flush
  split <;> rfl

@[simp] theorem messageBytes_flush (s : SHA256Object) : s.flush.messageBytes = s.messageBytes := by
  unfold flush
  split <;> rfl

theorem store_eq_some {s s' : SHA256Object} {b : UInt8} (h : s.store b = some s') :
    s.count < 64 ∧ s'.count = s.count + 1 ∧ s'.messageBytes = s.messageBytes := by
  unfold store at h
  split at h
  · obtain rfl := Option.some.inj h
    exact ⟨by assumption, rfl, rfl⟩
  · exact absurd h (Option.some_ne_none s').symm

/-- The loop of `Digest` that writes the zeros. -/
def padZeros (s : SHA256Object) : Option SHA256Object :=
  if _hcount : s.count = 56 then some s
  else
    match _hstore : s.flush.store 0 with
    | none => none
    | some s' => padZeros s'
termination_by (120 - s.count) % 64
decreasing_by
  obtain ⟨hlt, hcount, -⟩ := store_eq_some _hstore
  rw [count_flush] at hlt hcount
  by_cases hfull : s.count = 64
  · rw [if_pos hfull] at hcount
    omega
  · rw [if_neg hfull] at hlt hcount
    omega

/-- The bytes that say how long the message is. -/
def bitsBytes (bits : UInt64) : Bytes :=
  ([7, 6, 5, 4, 3, 2, 1, 0] : List UInt64).map fun i => ((bits >>> (i * 8)) &&& 0xff).toUInt8

/-- `Digest`. -/
def digest (s : SHA256Object) : Option Bytes := do
  let bits := s.messageBytes * 8
  let s ← s.store 0x80
  let s ← s.padZeros
  let s ← (bitsBytes bits).foldlM store s
  return s.process.h.toList.flatMap fun word => hexDigits 8 word.toNat

end SHA256Object

/-! ## The object and the list -/

/-- The array is filled as far as the list goes. -/
structure Holds (s : SHA256Object) (t : SHA256) : Prop where
  h : s.h = t.h
  data : s.data.toList.take s.count = t.data
  count : s.count < 64

namespace Holds
variable {s : SHA256Object} {t : SHA256}

theorem length_data (hs : Holds s t) : t.data.length = s.count := by
  rw [← hs.data, List.length_take, Vector.length_toList, Nat.min_eq_left hs.count.le]

theorem flush_eq (hs : Holds s t) : s.flush = s := if_neg (Nat.ne_of_lt hs.count)

/-- **A byte into the array is a byte behind the list**, once a full array has been dealt with. -/
theorem store (hs : Holds s t) (b : UInt8) :
    ∃ s', s.store b = some s' ∧ s'.count = s.count + 1 ∧ Holds s'.flush (t.put b) := by
  have hcount := hs.count
  refine ⟨{ s with data := s.data.set s.count b, count := s.count + 1 }, dif_pos hcount, rfl, ?_⟩
  have htake : (s.data.set s.count b).toList.take (s.count + 1) = t.data ++ [b] := by
    rw [← hs.data, Vector.toList_set, List.take_succ_eq_append_getElem (by simpa using hcount),
      List.take_set_of_le (le_refl _), List.getElem_set_self]
  have hlen := hs.length_data
  unfold SHA256Object.flush SHA256.put
  by_cases hfull : s.count + 1 = 64
  · rw [if_pos hfull, if_pos (by omega)]
    have hall : (s.data.set s.count b).toList = t.data ++ [b] := by
      rw [← htake, hfull, List.take_of_length_le (by simp)]
    exact ⟨by show processBlock s.h _ = _; rw [hall, hs.h], rfl, Nat.zero_lt_succ 63⟩
  · rw [if_neg hfull, if_neg (by omega)]
    exact ⟨hs.h, htake, by show s.count + 1 < 64; omega⟩

/-- What `Update` does to the array. -/
theorem foldlM_put (hs : Holds s t) (data : Bytes) :
    ∃ s', data.foldlM SHA256Object.put s = some s' ∧
      s'.messageBytes = s.messageBytes ∧ Holds s' (data.foldl SHA256.put t) := by
  induction data generalizing s t with
  | nil => exact ⟨s, rfl, rfl, hs⟩
  | cons b data ih =>
    obtain ⟨s', hstore, -, hput⟩ := hs.store b
    obtain ⟨s'', hrest, hbytes, hholds⟩ := ih hput
    refine ⟨s'', ?_, ?_, hholds⟩
    · rw [List.foldlM_cons, SHA256Object.put, hstore]
      exact hrest
    · rw [hbytes, SHA256Object.messageBytes_flush, (SHA256Object.store_eq_some hstore).2.2]

/-- The bytes behind the last full block, put into an array that they do not overrun. -/
theorem foldlM_store (hs : Holds s t) (data : Bytes) (hfit : s.count + data.length ≤ 64) :
    ∃ s', data.foldlM SHA256Object.store s = some s' ∧ s'.count = s.count + data.length ∧
      Holds s'.flush (data.foldl SHA256.put t) := by
  induction data generalizing s t with
  | nil => exact ⟨s, rfl, rfl, by rw [hs.flush_eq]; exact hs⟩
  | cons b data ih =>
    obtain ⟨s', hstore, hcount, hput⟩ := hs.store b
    rw [List.foldlM_cons, hstore]
    rcases data with _ | ⟨b', data⟩
    · exact ⟨s', rfl, hcount, hput⟩
    · rw [List.length_cons] at hfit ⊢
      -- More is to come, so this byte was not the last of the array.
      have hflush : s'.flush = s' := if_neg (by rw [List.length_cons] at hfit; omega)
      rw [hflush] at hput
      obtain ⟨s'', hrest, hcount', hholds⟩ := ih hput (by omega)
      exact ⟨s'', hrest, by omega, hholds⟩

/-- **The loop over the zeros** stops, with as many of them behind the list as the formula says. -/
theorem padZeros (hs : Holds s.flush t) (hcount : s.count ≤ 64) :
    ∃ s', s.padZeros = some s' ∧ s'.count = 56 ∧
      Holds s'.flush ((List.replicate ((120 - s.count) % 64) 0).foldl SHA256.put t) := by
  obtain ⟨n, hn⟩ : ∃ n, (120 - s.count) % 64 = n := ⟨_, rfl⟩
  rw [hn]
  induction n generalizing s t with
  | zero =>
    have h56 : s.count = 56 := by omega
    exact ⟨s, by rw [SHA256Object.padZeros, dif_pos h56], h56, hs⟩
  | succ n ih =>
    obtain ⟨s', hstore, hcount', hput⟩ := hs.store 0
    have hflush := SHA256Object.count_flush s
    have hlt := hs.count
    have hnext : s'.count ≤ 64 ∧ (120 - s'.count) % 64 = n := by
      by_cases hfull : s.count = 64
      · rw [if_pos hfull] at hflush
        omega
      · rw [if_neg hfull] at hflush
        omega
    obtain ⟨s'', hrest, h56, hholds⟩ := ih hput hnext.1 hnext.2
    refine ⟨s'', ?_, h56, hholds⟩
    rw [SHA256Object.padZeros, dif_neg (by omega)]
    split
    next hnone => exact absurd (hnone.symm.trans hstore) (Option.some_ne_none s').symm
    next s₁ hsome =>
      obtain rfl := Option.some.inj (hsome.symm.trans hstore)
      exact hrest

end Holds

/-! ## Bytes and digits -/

theorem bitsBytes_eq (bits : UInt64) :
    SHA256Object.bitsBytes bits = (leBytes 8 bits.toNat).reverse := by
  have hbyte : ∀ i : UInt64, ((bits >>> i) &&& 0xff).toUInt8
      = UInt8.ofNat (bits.toNat / 2 ^ (i.toNat % 64)) := by
    intro i
    apply UInt8.toNat_inj.mp
    rw [UInt64.toNat_toUInt8, UInt64.toNat_and, UInt64.toNat_shiftRight, UInt8.toNat_ofNat',
      Nat.shiftRight_eq_div_pow]
    show (_ &&& (2 ^ 8 - 1)) % 2 ^ 8 = _
    rw [Nat.and_two_pow_sub_one_eq_mod, Nat.mod_mod]
  unfold SHA256Object.bitsBytes
  simp only [hbyte, List.map_cons, List.map_nil, leBytes, Nat.div_div_eq_div_mul,
    List.reverse_cons, List.reverse_nil, List.nil_append, List.cons_append]
  simp

theorem lengthBytes_eq (bits : Nat) : lengthBytes bits = (leBytes 8 bits).reverse := by
  simp only [leBytes, Nat.div_div_eq_div_mul, List.reverse_cons, List.reverse_nil,
    List.nil_append, List.cons_append]
  simp [lengthBytes, List.range_succ]

theorem hexDigits_append (m n x y : Nat) (hy : y < 16 ^ n) :
    hexDigits (m + n) (x * 16 ^ n + y) = hexDigits m x ++ hexDigits n y := by
  induction n generalizing y with
  | zero =>
    obtain rfl : y = 0 := by simpa using hy
    simp [hexDigits]
  | succ n ih =>
    have hdiv : (x * 16 ^ (n + 1) + y) / 16 = x * 16 ^ n + y / 16 := by
      rw [Nat.pow_succ, ← Nat.mul_assoc, Nat.add_comm, Nat.add_mul_div_right _ _ (by omega),
        Nat.add_comm]
    have hmod : (x * 16 ^ (n + 1) + y) % 16 = y % 16 := by
      rw [Nat.pow_succ, ← Nat.mul_assoc]
      omega
    rw [Nat.pow_succ] at hy
    rw [← Nat.add_assoc, hexDigits, hdiv, hmod, ih (y / 16) (by omega), hexDigits,
      List.append_assoc]

theorem hexDigits_bitVec_append (m : Nat) {n v w : Nat} (hw : w = 4 * n) (x : BitVec v)
    (y : BitVec w) : hexDigits (m + n) (x ++ y).toNat = hexDigits m x.toNat ++ hexDigits n y.toNat := by
  have hpow : 2 ^ w = 16 ^ n := by rw [hw, Nat.pow_mul]
  rw [BitVec.toNat_append, ← Nat.shiftLeft_add_eq_or_of_lt y.isLt, Nat.shiftLeft_eq, hpow]
  exact hexDigits_append m n _ _ (hpow ▸ y.isLt)

/-- The words of `h_`, each in 8 digits, are the digest in 64. -/
theorem hexDigits_digest (w : Words) :
    (w.toList.flatMap fun word => hexDigits 8 word.toNat) = hexDigits 64 w.toVars.digest.toNat := by
  show _ = hexDigits (8 + 8 + 8 + 8 + 8 + 8 + 8 + 8) _
  unfold Vars.digest
  rw [hexDigits_bitVec_append _ rfl, hexDigits_bitVec_append _ rfl, hexDigits_bitVec_append _ rfl,
    hexDigits_bitVec_append _ rfl, hexDigits_bitVec_append _ rfl, hexDigits_bitVec_append _ rfl,
    hexDigits_bitVec_append _ rfl]
  simp only [Words.toList, List.flatMap_cons, List.flatMap_nil, List.append_nil, List.append_assoc]
  rfl

/-! ## The digest -/

theorem Holds.digest {s : SHA256Object} {t : SHA256} (hs : Holds s t)
    (hbytes : s.messageBytes = t.messageBytes) : s.digest = some t.digest := by
  obtain ⟨s₁, hstore, hcount₁, hput⟩ := hs.store 0x80
  have hcount := hs.count
  obtain ⟨s₂, hpad, hcount₂, hzeros⟩ := hput.padZeros (by omega)
  have hflush : s₂.flush = s₂ := if_neg (by omega)
  rw [hflush] at hzeros
  have hlen : (leBytes 8 (t.messageBytes * 8).toNat).reverse.length = 8 := by
    rw [List.length_reverse, length_leBytes]
  obtain ⟨s₃, hbits, hcount₃, hlast⟩ := hzeros.foldlM_store
    (leBytes 8 (t.messageBytes * 8).toNat).reverse (by omega)
  have hproc : s₃.process.h = s₃.flush.h := by
    rw [SHA256Object.flush, if_pos (by omega)]
  unfold SHA256Object.digest SHA256.digest
  have hzero : (120 - s₁.count) % 64 = (119 - t.data.length) % 64 := by
    rw [hs.length_data]
    omega
  rw [hzero] at hlast
  simp only [hstore, hpad, hbytes, bitsBytes_eq, hbits, Option.bind_eq_bind, Option.bind_some,
    hproc, hlast.h, List.cons_append, List.foldl_cons, List.foldl_append]
  rfl

/-- The two components that a byte goes into. -/
theorem foldl_put (s : SHA256) (data : Bytes) :
    ((data.foldl SHA256.put s).h, (data.foldl SHA256.put s).data)
        = data.foldl (feed 64 processBlock) (s.h, s.data) ∧
      (data.foldl SHA256.put s).messageBytes = s.messageBytes := by
  induction data generalizing s with
  | nil => exact ⟨rfl, rfl⟩
  | cons b data ih =>
    have hput : ((s.put b).h, (s.put b).data) = feed 64 processBlock (s.h, s.data) b ∧
        (s.put b).messageBytes = s.messageBytes := by
      unfold SHA256.put feed
      show _ = (if s.data.length + 1 = 64 then _ else _) ∧ _
      by_cases hfull : s.data.length = 63
      · rw [if_pos hfull, if_pos (by omega)]
        exact ⟨rfl, rfl⟩
      · rw [if_neg hfull, if_neg (by omega)]
        exact ⟨rfl, rfl⟩
    rw [List.foldl_cons, List.foldl_cons, ← hput.1, ← hput.2]
    exact ih (s.put b)

theorem toVars_foldl (h : Words) (bs : List Bytes) (hbs : ∀ block ∈ bs, block.length = 64) :
    (bs.foldl processBlock h).toVars = bs.foldl compress h.toVars := by
  induction bs generalizing h with
  | nil => rfl
  | cons block bs ih =>
    rw [List.foldl_cons, List.foldl_cons, ih _ fun b hb => hbs b (List.mem_cons_of_mem _ hb),
      toVars_processBlock h (hbs block List.mem_cons_self)]

/-- Everything that was handed over, and nothing else, is in the state. -/
structure Fed (s : SHA256) (m : Bytes) : Prop where
  state : (s.h, s.data) = m.foldl (feed 64 processBlock) (.start, [])
  bytes : s.messageBytes = UInt64.ofNat m.length

theorem Fed.update {s : SHA256} {m : Bytes} (hs : Fed s m) (data : Bytes) :
    Fed (s.update data) (m ++ data) := by
  obtain ⟨hstate, -⟩ := foldl_put s data
  constructor
  · show ((data.foldl SHA256.put s).h, (data.foldl SHA256.put s).data) = _
    rw [hstate, hs.state, List.foldl_append]
  · show s.messageBytes + UInt64.ofNat data.length = _
    rw [hs.bytes, List.length_append, UInt64.ofNat_add]

/-- **The list of waiting bytes digests the message**, if the length of that fits its counter. -/
theorem Fed.digest {s : SHA256} {m : Bytes} (hs : Fed s m) (hlen : m.length < 2 ^ 61) :
    s.digest = hexDigits 64 (sha256 m).toNat := by
  have hbits : (s.messageBytes * 8).toNat = 8 * m.length := by
    rw [hs.bytes, UInt64.toNat_mul, UInt64.toNat_ofNat_of_lt' (by show m.length < 2 ^ 64; omega)]
    show m.length * 8 % 2 ^ 64 = _
    omega
  have hdata : s.data = leftOver 64 m := by
    have hfeed := hs.state
    rw [foldl_feed processBlock (by omega)] at hfeed
    exact congrArg Prod.snd hfeed
  have hzeros : (119 - s.data.length) % 64 = zeros m.length := by
    rw [hdata, length_leftOver, zeros_eq]
  have hpadding : 0x80 :: List.replicate ((119 - s.data.length) % 64) 0
      ++ (leBytes 8 (s.messageBytes * 8).toNat).reverse
        = 0x80 :: (List.replicate (zeros m.length) 0 ++ lengthBytes (8 * m.length)) := by
    rw [hzeros, hbits, lengthBytes_eq, List.cons_append]
  obtain ⟨hlast, -⟩ := foldl_put s
    (0x80 :: (List.replicate (zeros m.length) 0 ++ lengthBytes (8 * m.length)))
  rw [hs.state, ← List.foldl_append, foldl_feed processBlock (by omega)] at hlast
  have hwords := congrArg Prod.fst hlast
  show (Words.toList (SHA256.h (List.foldl SHA256.put s (_ ++ _)))).flatMap _ = _
  rw [hpadding, hexDigits_digest]
  dsimp only at hwords
  rw [hwords, toVars_foldl _ _ fun b => length_of_mem_blocks, toVars_start]
  rfl

/-! ## A run -/

theorem Holds.update {s : SHA256Object} {t : SHA256} (hs : Holds s t)
    (hbytes : s.messageBytes = t.messageBytes) (data : Bytes) :
    ∃ s', s.update data = some s' ∧ Holds s' (t.update data) ∧
      s'.messageBytes = (t.update data).messageBytes := by
  obtain ⟨s', hput, hkeep, hholds⟩ := hs.foldlM_put data
  refine ⟨{ s' with messageBytes := s'.messageBytes + UInt64.ofNat data.length },
    by rw [SHA256Object.update, hput]; rfl, ⟨hholds.h, hholds.data, hholds.count⟩, ?_⟩
  show s'.messageBytes + UInt64.ofNat data.length = t.messageBytes + UInt64.ofNat data.length
  rw [hkeep, hbytes]

/-- A run of `Update` calls, the object and the list side by side. -/
theorem Holds.updates {s : SHA256Object} {t : SHA256} (hs : Holds s t)
    (hbytes : s.messageBytes = t.messageBytes) {m : Bytes} (ht : Fed t m) (pieces : List Bytes) :
    ∃ s' t', pieces.foldlM SHA256Object.update s = some s' ∧ Holds s' t' ∧
      s'.messageBytes = t'.messageBytes ∧ Fed t' (m ++ pieces.flatten) := by
  induction pieces generalizing s t m with
  | nil => exact ⟨s, t, rfl, hs, hbytes, by simpa using ht⟩
  | cons data pieces ih =>
    obtain ⟨s₁, hupdate, hs₁, hbytes₁⟩ := hs.update hbytes data
    obtain ⟨s', t', hrest, hs', hbytes', ht'⟩ := ih hs₁ hbytes₁ (ht.update data)
    refine ⟨s', t', ?_, hs', hbytes', ?_⟩
    · rw [List.foldlM_cons, hupdate]
      exact hrest
    · rwa [List.flatten_cons, ← List.append_assoc]

theorem holds_init (data : Vector UInt8 64) : Holds (.init data) {} where
  h := rfl
  data := List.take_zero
  count := Nat.zero_lt_succ 63

theorem fed_init : Fed {} [] := ⟨rfl, rfl⟩

/-- **Whatever the pieces a message comes in**, the digest is that of the standard, in 64
hexadecimal digits; no write misses the array. -/
theorem digest_updates (data : Vector UInt8 64) (pieces : List Bytes)
    (hlen : (pieces.map List.length).sum < 2 ^ 61) :
    (pieces.foldlM SHA256Object.update (.init data)).bind SHA256Object.digest
      = some (hexDigits 64 (sha256 pieces.flatten).toNat) := by
  obtain ⟨s, t, hrun, hs, hbytes, ht⟩ := (holds_init data).updates rfl fed_init pieces
  rw [List.nil_append] at ht
  rw [← List.length_flatten] at hlen
  rw [hrun, Option.bind_some, hs.digest hbytes, ht.digest hlen]

theorem digest_updates_abc :
    (([ascii "a", ascii "bc"] : List Bytes).foldlM SHA256Object.update
      (.init (Vector.replicate 64 0))).bind SHA256Object.digest
        = some (hexDigits 64 (sha256 (ascii "abc")).toNat) :=
  digest_updates (Vector.replicate 64 0) [ascii "a", ascii "bc"] (by decide)

/-- `HashPassword` digests the salt with the password behind it. -/
theorem hashPassword_eq (password salt : Bytes) (hlen : salt.length + password.length < 2 ^ 61) :
    hashPassword password salt = hexDigits 64 (sha256 (salt ++ password)).toNat :=
  ((fed_init.update salt).update password).digest (by rwa [List.nil_append, List.length_append])

/-- `Sha256Hex` is the digest of the standard. -/
theorem sha256Hex_eq (input : Bytes) (hlen : input.length < 2 ^ 61) :
    sha256Hex input = hexDigits 64 (sha256 input).toNat :=
  (fed_init.update input).digest (by rwa [List.nil_append])

end Auth
end MiniTSDB
