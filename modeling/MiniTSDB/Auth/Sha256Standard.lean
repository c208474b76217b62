import MiniTSDB.Auth.Sha256
import MiniTSDB.Lib.Sha2

/-!
# The rounds of `SHA256` are those of the standard

`ProcessBlock`, the table `K` and the words that `Init` puts in place, each against its counterpart
in the definition of the hash function.
-/

namespace MiniTSDB
namespace Auth

open Lib Sha2

/-! ## Words -/

def Words.toVars (w : Words) : Vars where
  a := w.a.toBitVec
  b := w.b.toBitVec
  c := w.c.toBitVec
  d := w.d.toBitVec
  e := w.e.toBitVec
  f := w.f.toBitVec
  g := w.g.toBitVec
  h := w.h.toBitVec

theorem toVars_add (w w' : Words) : (w.add w').toVars = w.toVars.add w'.toVars := rfl

/-- The two shifts of `RotR` turn a word around. -/
theorem rotR_toBitVec (x : UInt32) {n : Nat} (hpos : 0 < n) (hlt : n < 32) :
    (rotR x (UInt32.ofNat n)).toBitVec = x.toBitVec.rotateRight n := by
  have hn : (UInt32.ofNat n).toNat = n := UInt32.toNat_ofNat_of_lt' (by show n < 2 ^ 32; omega)
  have hright : (x >>> UInt32.ofNat n).toBitVec = x.toBitVec >>> n := by
    apply BitVec.eq_of_toNat_eq
    show (x >>> UInt32.ofNat n).toNat = _
    rw [UInt32.toNat_shiftRight, hn, Nat.mod_eq_of_lt hlt, BitVec.toNat_ushiftRight]
    rfl
  have hleft : (x <<< (32 - UInt32.ofNat n)).toBitVec = x.toBitVec <<< (32 - n) := by
    have hsub : (32 - UInt32.ofNat n).toNat = 32 - n := by
      rw [UInt32.toNat_sub_of_le _ _ (by rw [UInt32.le_iff_toNat_le, hn]; exact hlt.le), hn]
      rfl
    apply BitVec.eq_of_toNat_eq
    show (x <<< (32 - UInt32.ofNat n)).toNat = _
    rw [UInt32.toNat_shiftLeft, hsub, Nat.mod_eq_of_lt (by omega : 32 - n < 32),
      BitVec.toNat_shiftLeft]
    rfl
  rw [rotR, UInt32.toBitVec_or, hright, hleft, BitVec.rotateRight, Nat.mod_eq_of_lt hlt]
  rfl

section
variable (x : UInt32)

/-- `S0` of a round. -/
theorem toBitVec_S0 : (rotR x 2 ^^^ rotR x 13 ^^^ rotR x 22).toBitVec = bigSigma0 x.toBitVec := by
  have h₂ := rotR_toBitVec x (n := 2) (by omega) (by omega)
  have h₁₃ := rotR_toBitVec x (n := 13) (by omega) (by omega)
  have h₂₂ := rotR_toBitVec x (n := 22) (by omega) (by omega)
  rw [bigSigma0, ← h₂, ← h₁₃, ← h₂₂]
  rfl

/-- `S1` of a round. -/
theorem toBitVec_S1 : (rotR x 6 ^^^ rotR x 11 ^^^ rotR x 25).toBitVec = bigSigma1 x.toBitVec := by
  have h₆ := rotR_toBitVec x (n := 6) (by omega) (by omega)
  have h₁₁ := rotR_toBitVec x (n := 11) (by omega) (by omega)
  have h₂₅ := rotR_toBitVec x (n := 25) (by omega) (by omega)
  rw [bigSigma1, ← h₆, ← h₁₁, ← h₂₅]
  rfl

/-- `s0` of the message schedule. -/
theorem toBitVec_s0 : (rotR x 7 ^^^ rotR x 18 ^^^ x >>> 3).toBitVec = smallSigma0 x.toBitVec := by
  have h₇ := rotR_toBitVec x (n := 7) (by omega) (by omega)
  have h₁₈ := rotR_toBitVec x (n := 18) (by omega) (by omega)
  rw [smallSigma0, ← h₇, ← h₁₈]
  rfl

/-- `s1` of the message schedule. -/
theorem toBitVec_s1 : (rotR x 17 ^^^ rotR x 19 ^^^ x >>> 10).toBitVec = smallSigma1 x.toBitVec := by
  have h₁₇ := rotR_toBitVec x (n := 17) (by omega) (by omega)
  have h₁₉ := rotR_toBitVec x (n := 19) (by omega) (by omega)
  rw [smallSigma1, ← h₁₇, ← h₁₉]
  rfl

end

/-! ## Tables -/

/-- A word of a table, against the prime number whose root it comes from: `r` is the whole part of
that root. -/
def IsRootEntry (k t p r : Nat) (w : UInt32) : Prop :=
  p.Prime ∧ Nat.count Nat.Prime p = t ∧ (r * 2 ^ 32 + w.toNat) ^ k ≤ p * (2 ^ 32) ^ k ∧
    p * (2 ^ 32) ^ k < (r * 2 ^ 32 + w.toNat + 1) ^ k

instance (k t p r : Nat) (w : UInt32) : Decidable (IsRootEntry k t p r w) :=
  inferInstanceAs (Decidable (_ ∧ _ ∧ _ ∧ _))

theorem IsRootEntry.toBitVec_eq {k t p r : Nat} {w : UInt32} (h : IsRootEntry k t p r w)
    (hk : k ≠ 0) : w.toBitVec = rootBits k t := by
  obtain ⟨hp, ht, hle, hlt⟩ := h
  rw [rootBits_eq hk hp ht hle hlt]
  apply BitVec.eq_of_toNat_eq
  have hw : w.toBitVec.toNat < 2 ^ 32 := w.toBitVec.isLt
  rw [BitVec.toNat_ofNat]
  show w.toBitVec.toNat = (r * 2 ^ 32 + w.toBitVec.toNat) % 2 ^ 32
  omega

/-- The first 64 prime numbers. -/
def primes : List Nat := (List.range 312).filter fun p => p.Prime

/-- Below 324, a factor up to 17 tells. -/
theorem prime_iff_of_lt {p : Nat} (h : p < 324) :
    p.Prime ↔ 2 ≤ p ∧ ∀ m < 18, 2 ≤ m → m * m ≤ p → p % m ≠ 0 := by
  rw [Nat.prime_def_le_sqrt]
  simp only [Nat.le_sqrt, ne_eq, ← Nat.dvd_iff_mod_eq_zero]
  refine and_congr_right fun _ => ⟨fun hall m _ hm => hall m hm, fun hall m hm hle => ?_⟩
  exact hall m (by nlinarith) hm hle

theorem primes_eq : primes =
      [2, 3, 5, 7, 11, 13, 17, 19, 23, 29, 31, 37, 41, 43, 47, 53, 59, 61, 67, 71, 73, 79, 83,
       89, 97, 101, 103, 107, 109, 113, 127, 131, 137, 139, 149, 151, 157, 163, 167, 173, 179,
       181, 191, 193, 197, 199, 211, 223, 227, 229, 233, 239, 241, 251, 257, 263, 269, 271, 277,
       281, 283, 293, 307, 311] := by
  have hprimes : primes = (List.range 312).filter fun p =>
      2 ≤ p ∧ ∀ m < 18, 2 ≤ m → m * m ≤ p → p % m ≠ 0 := by
    refine List.filter_congr fun p hp => ?_
    rw [List.mem_range] at hp
    exact decide_eq_decide.mpr (prime_iff_of_lt (by omega))
  rw [hprimes]
  decide

/-- The numbers that a filter leaves are counted by their places. -/
theorem count_getD_filter_range (P : Nat → Prop) [DecidablePred P] (n : Nat) :
    ((List.range n).filter P).length = Nat.count P n ∧
      ∀ t < ((List.range n).filter P).length,
        P (((List.range n).filter P).getD t 0) ∧ Nat.count P (((List.range n).filter P).getD t 0) = t := by
  induction n with
  | zero => exact ⟨rfl, fun t ht => absurd ht (Nat.not_lt_zero t)⟩
  | succ n ih =>
    obtain ⟨hlen, hall⟩ := ih
    rw [List.range_succ, List.filter_append, Nat.count_succ]
    by_cases hn : P n
    · have hlast : [n].filter P = [n] := List.filter_cons_of_pos (by simpa using hn)
      rw [hlast, List.length_append, hlen, if_pos hn]
      refine ⟨rfl, fun t ht => ?_⟩
      by_cases hbefore : t < Nat.count P n
      · rw [List.getD_append _ _ _ _ (hlen ▸ hbefore)]
        exact hall t (hlen ▸ hbefore)
      · have ht' : t = Nat.count P n := by
          rw [List.length_singleton] at ht
          omega
        rw [List.getD_append_right _ _ _ _ (by omega), hlen, ht', Nat.sub_self]
        exact ⟨hn, rfl⟩
    · have hnone : [n].filter P = [] := List.filter_cons_of_neg (by simpa using hn)
      rw [hnone, List.append_nil, if_neg hn]
      exact ⟨hlen, hall⟩

theorem isRootEntry_sha256K :
    ∀ t < 64, ∃ r < 7, IsRootEntry 3 t (primes.getD t 0) r (sha256K.getD t 0) := by
  have hroots : ∀ t < 64, ∃ r < 7,
      (r * 2 ^ 32 + (sha256K.getD t 0).toNat) ^ 3 ≤ primes.getD t 0 * (2 ^ 32) ^ 3 ∧
        primes.getD t 0 * (2 ^ 32) ^ 3 < (r * 2 ^ 32 + (sha256K.getD t 0).toNat + 1) ^ 3 := by
    rw [primes_eq]
    decide
  have hlen : primes.length = 64 := by
    rw [primes_eq]
    rfl
  intro t ht
  obtain ⟨r, hr, hle, hlt⟩ := hroots t ht
  obtain ⟨hprime, hcount⟩ := (count_getD_filter_range Nat.Prime 312).2 t (hlen ▸ ht)
  exact ⟨r, hr, hprime, hcount, hle, hlt⟩

/-- **The table `K` is the one of the standard.** -/
theorem sha256K_eq : sha256K = (List.range 64).map fun t => UInt32.ofBitVec (constant t) := by
  have hlen : sha256K.length = 64 := rfl
  refine List.ext_getElem (by rw [List.length_map, List.length_range, hlen]) fun t ht _ => ?_
  rw [List.getElem_map, List.getElem_range]
  obtain ⟨r, -, hentry⟩ := isRootEntry_sha256K t (hlen ▸ ht)
  rw [List.getD_eq_getElem _ _ ht] at hentry
  rw [constant, ← hentry.toBitVec_eq (by decide)]

/-- **`Init` puts the initial hash value of the standard in place.** -/
theorem toVars_start : Words.start.toVars = initial := by
  have ha : IsRootEntry 2 0 2 1 Words.start.a := by decide
  have hb : IsRootEntry 2 1 3 1 Words.start.b := by decide
  have hc : IsRootEntry 2 2 5 2 Words.start.c := by decide
  have hd : IsRootEntry 2 3 7 2 Words.start.d := by decide
  have he : IsRootEntry 2 4 11 3 Words.start.e := by decide
  have hf : IsRootEntry 2 5 13 3 Words.start.f := by decide
  have hg : IsRootEntry 2 6 17 4 Words.start.g := by decide
  have hh : IsRootEntry 2 7 19 4 Words.start.h := by decide
  have two : 2 ≠ 0 := by decide
  apply Vars.ext
  · exact ha.toBitVec_eq two
  · exact hb.toBitVec_eq two
  · exact hc.toBitVec_eq two
  · exact hd.toBitVec_eq two
  · exact he.toBitVec_eq two
  · exact hf.toBitVec_eq two
  · exact hg.toBitVec_eq two
  · exact hh.toBitVec_eq two

/-! ## The message schedule -/

theorem byteWord_toBitVec (b₀ b₁ b₂ b₃ : UInt8) :
    (b₀.toUInt32 <<< 24 ||| b₁.toUInt32 <<< 16 ||| b₂.toUInt32 <<< 8 ||| b₃.toUInt32).toBitVec
      = b₀.toBitVec ++ b₁.toBitVec ++ b₂.toBitVec ++ b₃.toBitVec := by
  have hshift : ∀ (b : UInt8) (n : Nat), n ≤ 24 →
      (b.toUInt32 <<< UInt32.ofNat n).toNat = b.toNat <<< n := by
    intro b n hn
    have hofNat : (UInt32.ofNat n).toNat = n :=
      UInt32.toNat_ofNat_of_lt' (by show n < 2 ^ 32; omega)
    have hlt : b.toNat <<< n < 2 ^ 32 := by
      rw [Nat.shiftLeft_eq]
      calc b.toNat * 2 ^ n < 2 ^ 8 * 2 ^ n :=
            Nat.mul_lt_mul_of_pos_right b.toNat_lt (Nat.two_pow_pos n)
        _ = 2 ^ (8 + n) := (Nat.pow_add 2 8 n).symm
        _ ≤ 2 ^ 32 := Nat.pow_le_pow_right (by omega) (by omega)
    rw [UInt32.toNat_shiftLeft, hofNat, Nat.mod_eq_of_lt (by omega : n < 32)]
    exact Nat.mod_eq_of_lt hlt
  have h₀ := hshift b₀ 24 (by omega)
  have h₁ := hshift b₁ 16 (by omega)
  have h₂ := hshift b₂ 8 (by omega)
  apply BitVec.eq_of_toNat_eq
  rw [BitVec.toNat_append, BitVec.toNat_append, BitVec.toNat_append, Nat.shiftLeft_or_distrib,
    Nat.shiftLeft_or_distrib, Nat.shiftLeft_or_distrib, ← Nat.shiftLeft_add, ← Nat.shiftLeft_add,
    ← Nat.shiftLeft_add]
  show (_ ||| _ ||| _ ||| _ : UInt32).toNat = _
  rw [UInt32.toNat_or, UInt32.toNat_or, UInt32.toNat_or]
  exact congrArg₂ _ (congrArg₂ _ (congrArg₂ _ h₀ h₁) h₂) rfl

/-- The words of a block, the first `n` of them. -/
theorem blockWords_eq (n : Nat) : ∀ block : Bytes, block.length = 4 * n →
    (blockWords block).map UInt32.toBitVec = (List.range n).map (blockWord block) := by
  induction n with
  | zero =>
    intro block hlen
    rw [List.length_eq_zero_iff.mp hlen]
    rfl
  | succ n ih =>
    intro block hlen
    match block, hlen with
    | b₀ :: b₁ :: b₂ :: b₃ :: rest, hlen =>
      have hrest : rest.length = 4 * n := by
        simp only [List.length_cons] at hlen
        omega
      rw [blockWords, List.map_cons, ih rest hrest, byteWord_toBitVec, List.range_succ_eq_map,
        List.map_cons, List.map_map]
      congr 1

section
variable {block : Bytes}

/-- The words computed so far, the last of them first, are the first `t` of the schedule. -/
def Scheduled (block : Bytes) (t : Nat) (ws : List UInt32) : Prop :=
  ws.map UInt32.toBitVec = ((List.range t).map (schedule block)).reverse

theorem Scheduled.getD {t : Nat} {ws : List UInt32} (h : Scheduled block t ws) {i : Nat}
    (hi : i < t) : (ws.getD i 0).toBitVec = schedule block (t - 1 - i) := by
  have hget : (ws.map UInt32.toBitVec).getD i 0
      = (((List.range t).map (schedule block)).reverse).getD i 0 := by rw [h]
  have hmap : (ws.map UInt32.toBitVec).getD i 0 = (ws.getD i 0).toBitVec := by
    rw [List.getD_map]
    rfl
  rw [← hmap, hget, List.getD_eq_getElem _ _ (by simpa using hi), List.getElem_reverse]
  simp

theorem nextWord_toBitVec {t : Nat} {ws : List UInt32} (ht : 16 ≤ t) (h : Scheduled block t ws) :
    (nextWord ws).toBitVec = schedule block t := by
  have h₂ := h.getD (i := 1) (by omega)
  have h₇ := h.getD (i := 6) (by omega)
  have h₁₅ := h.getD (i := 14) (by omega)
  have h₁₆ := h.getD (i := 15) (by omega)
  rw [schedule_of_le block ht]
  show _ + (rotR (ws.getD 14 0) 7 ^^^ rotR (ws.getD 14 0) 18 ^^^ ws.getD 14 0 >>> 3).toBitVec + _
    + (rotR (ws.getD 1 0) 17 ^^^ rotR (ws.getD 1 0) 19 ^^^ ws.getD 1 0 >>> 10).toBitVec = _
  rw [toBitVec_s0, toBitVec_s1, h₂, h₇, h₁₅, h₁₆]
  -- The sum has the same four terms, in another order.
  rw [show t - 1 - 1 = t - 2 by omega, show t - 1 - 6 = t - 7 by omega,
    show t - 1 - 14 = t - 15 by omega, show t - 1 - 15 = t - 16 by omega]
  ac_rfl

theorem Scheduled.moreWords {n t : Nat} {ws : List UInt32} (ht : 16 ≤ t)
    (h : Scheduled block t ws) : Scheduled block (t + n) (moreWords n ws) := by
  induction n generalizing t ws with
  | zero => exact h
  | succ n ih =>
    have hnext : Scheduled block (t + 1) (nextWord ws :: ws) := by
      unfold Scheduled at h ⊢
      rw [List.map_cons, nextWord_toBitVec ht h, h, List.range_succ, List.map_append,
        List.reverse_append]
      rfl
    have hmore := ih (by omega) hnext
    rwa [Nat.add_right_comm, Nat.add_assoc] at hmore

/-- **The array `w` is the message schedule of the block.** -/
theorem schedule_eq (hlen : block.length = 64) :
    (moreWords 48 (blockWords block).reverse).reverse
      = (List.range 64).map fun t => UInt32.ofBitVec (schedule block t) := by
  have hstart : Scheduled block 16 (blockWords block).reverse := by
    unfold Scheduled
    rw [List.map_reverse, blockWords_eq 16 block hlen]
    congr 1
    refine List.map_congr_left fun t ht => ?_
    rw [schedule_of_lt block (List.mem_range.mp ht)]
  have hall := hstart.moreWords (n := 48) (by omega)
  unfold Scheduled at hall
  have hrev : ((moreWords 48 (blockWords block).reverse).reverse).map UInt32.toBitVec
      = (List.range 64).map (schedule block) := by
    rw [List.map_reverse, hall, List.reverse_reverse]
  have hof := congrArg (List.map UInt32.ofBitVec) hrev
  rw [List.map_map, List.map_map] at hof
  rw [← List.map_id ((moreWords 48 (blockWords block).reverse).reverse)]
  exact hof

end

/-! ## A block -/

theorem toVars_shaRound (v : Words) (k w : Word) :
    (shaRound v (UInt32.ofBitVec k, UInt32.ofBitVec w)).toVars = Sha2.round v.toVars k w := by
  unfold shaRound Sha2.round Words.toVars
  simp only [UInt32.toBitVec_add, toBitVec_S0, toBitVec_S1]
  rfl

/-- **`ProcessBlock` is the computation of the standard for one block.** -/
theorem toVars_processBlock (v : Words) {block : Bytes} (hlen : block.length = 64) :
    (processBlock v block).toVars = compress v.toVars block := by
  have hrounds : ∀ (ts : List Nat) (v : Words),
      ((ts.map fun t => (UInt32.ofBitVec (constant t), UInt32.ofBitVec (schedule block t))).foldl
        shaRound v).toVars
        = ts.foldl (fun v t => Sha2.round v (constant t) (schedule block t)) v.toVars := by
    intro ts
    induction ts with
    | nil => intro v; rfl
    | cons t ts ih =>
      intro v
      rw [List.map_cons, List.foldl_cons, List.foldl_cons, ih, toVars_shaRound]
  show (v.add ((sha256K.zip (moreWords 48 (blockWords block).reverse).reverse).foldl
    shaRound v)).toVars = _
  rw [schedule_eq hlen, sha256K_eq, List.zip_map', toVars_add, hrounds]
  rfl

end Auth
end MiniTSDB
