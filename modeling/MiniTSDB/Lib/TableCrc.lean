import MiniTSDB.Lib.Fields
import Mathlib.Data.BitVec
import Mathlib.Logic.Function.Iterate

/-!
# Reflected checksums, a byte at a time from a table

The step of such a checksum is its shift of the state with the byte in the low octet. Where the
highest octet of the table's words tells them apart, the shift is injective: the octet that comes
in at the top names the word, and with it the octet that went out.

A byte met later is the same byte met at once, further up: as long as the bytes fit beside each other
into the state, a whole run of them is one word (`foldl_step`). So two texts that differ within a
window no wider than the state never have the same checksum (`foldl_step_ne`).
-/

namespace MiniTSDB
namespace Lib

/-- A table for states of `w` bits. -/
structure TableCrc (w : Nat) where
  table : BitVec 8 → BitVec w
  wide : 8 ≤ w
  table_inj : ∀ i j, table i >>> (w - 8) = table j >>> (w - 8) → i = j

namespace TableCrc

variable {w : Nat} (T : TableCrc w)

/-- The state moved down an octet, the table's word for that octet on top of it. -/
def shift (c : BitVec w) : BitVec w := T.table (c.setWidth 8) ^^^ c >>> 8

def step (c : BitVec w) (byte : UInt8) : BitVec w := T.shift (c ^^^ byte.toBitVec.setWidth w)

/-- Bytes beside each other, the first one lowest. -/
def word (w : Nat) : List UInt8 → BitVec w
  | [] => 0#w
  | byte :: bytes => byte.toBitVec.setWidth w ^^^ word w bytes <<< 8

theorem shift_injective : Function.Injective T.shift := by
  intro c d h
  have htop : ∀ x : BitVec w, T.shift x >>> (w - 8) = T.table (x.setWidth 8) >>> (w - 8) := by
    intro x
    have hgone : x >>> 8 >>> (w - 8) = 0#w := by
      rw [← BitVec.shiftRight_add, Nat.add_sub_cancel' T.wide]
      exact BitVec.ushiftRight_eq_zero (Nat.le_refl w)
    rw [shift, BitVec.ushiftRight_xor_distrib, hgone, BitVec.xor_zero]
  have hlow : c.setWidth 8 = d.setWidth 8 := by
    refine T.table_inj _ _ ?_
    rw [← htop, ← htop, h]
  have hhigh : c >>> 8 = d >>> 8 := by
    rw [shift, shift, hlow] at h
    exact (BitVec.xor_right_inj _).mp h
  refine BitVec.eq_of_getLsbD_eq ?_
  intro i _
  by_cases hi : i < 8
  · have hbit := congrArg (·.getLsbD i) hlow
    simpa [hi] using hbit
  · have hbit := congrArg (·.getLsbD (i - 8)) hhigh
    simpa [show 8 + (i - 8) = i by omega] using hbit

theorem step_injective (byte : UInt8) : Function.Injective (T.step · byte) := by
  intro c d h
  exact (BitVec.xor_left_inj _).mp (T.shift_injective h)

theorem foldl_step_injective (bytes : List UInt8) :
    Function.Injective (fun c => bytes.foldl T.step c) := by
  induction bytes with
  | nil => exact fun _ _ h => h
  | cons byte bytes ih => exact fun c d h => T.step_injective byte (ih h)

/-! ## Bytes at once -/

theorem getLsbD_word (bytes : List UInt8) (i : Nat) (hi : i < w) :
    (word w bytes).getLsbD i = (bytes.getD (i / 8) 0).toBitVec.getLsbD (i % 8) := by
  induction bytes generalizing i with
  | nil => simp [word]
  | cons byte bytes ih =>
    rw [word, BitVec.getLsbD_xor, BitVec.getLsbD_setWidth, BitVec.getLsbD_shiftLeft]
    by_cases hlow : i < 8
    · simp [hlow, hi, Nat.mod_eq_of_lt hlow, Nat.div_eq_of_lt hlow]
    · have hnext : i / 8 = (i - 8) / 8 + 1 := by omega
      have hbit : i % 8 = (i - 8) % 8 := by omega
      rw [ih (i - 8) (by omega), hnext, hbit, List.getD_cons_succ]
      simp [hi, hlow, Nat.not_lt.mp hlow]

/-- The word is the number the bytes spell. -/
theorem word_eq_ofNat (w : Nat) (bytes : List UInt8) :
    word w bytes = BitVec.ofNat w (ofLeBytes bytes) := by
  induction bytes with
  | nil => rfl
  | cons byte bytes ih =>
    refine BitVec.eq_of_getLsbD_eq ?_
    intro i hi
    have hsum : ofLeBytes (byte :: bytes) = 2 ^ 8 * ofLeBytes bytes + byte.toNat := by
      rw [ofLeBytes]
      omega
    rw [word, ih, hsum, BitVec.getLsbD_xor, BitVec.getLsbD_setWidth, BitVec.getLsbD_shiftLeft,
      BitVec.getLsbD_ofNat, BitVec.getLsbD_ofNat, Nat.testBit_two_pow_mul_add _ byte.toNat_lt]
    by_cases hlow : i < 8
    · simp [hi, hlow, BitVec.getLsbD]
    · have hpast : byte.toBitVec.getLsbD i = false :=
        BitVec.getLsbD_of_ge _ _ (Nat.not_lt.mp hlow)
      simp [hi, hlow, hpast, show i - 8 < w by omega]

/-- There is room for another byte below. -/
theorem word_shiftLeft_shiftRight {bytes : List UInt8} (hfit : 8 * (bytes.length + 1) ≤ w) :
    word w bytes <<< 8 >>> 8 = word w bytes := by
  refine BitVec.eq_of_getLsbD_eq ?_
  intro i hi
  rw [BitVec.getLsbD_ushiftRight, BitVec.getLsbD_shiftLeft]
  by_cases hroom : 8 + i < w
  · simp [hroom]
  · have hpast : bytes.length ≤ i / 8 := by omega
    have hzero : (word w bytes).getLsbD i = false := by
      rw [getLsbD_word bytes i hi, List.getD_eq_getElem?_getD, List.getElem?_eq_none hpast]
      simp
    simp [hroom, hzero]

/-- The shift of a state with a word further up: the word comes down. -/
theorem shift_xor_shiftLeft (c : BitVec w) {x : BitVec w} (hx : x <<< 8 >>> 8 = x) :
    T.shift (c ^^^ x <<< 8) = T.shift c ^^^ x := by
  have hlow : (c ^^^ x <<< 8).setWidth 8 = c.setWidth 8 := by
    refine BitVec.eq_of_getLsbD_eq ?_
    intro i hi
    simp [hi]
  rw [shift, shift, hlow, BitVec.ushiftRight_xor_distrib, hx, BitVec.xor_assoc]

/-- **Bytes that fit into the state are met at once.** -/
theorem foldl_step (bytes : List UInt8) (hfit : 8 * bytes.length ≤ w) (c : BitVec w) :
    bytes.foldl T.step c = T.shift^[bytes.length] (c ^^^ word w bytes) := by
  induction bytes generalizing c with
  | nil => simp [word]
  | cons byte bytes ih =>
    rw [List.length_cons] at hfit ⊢
    have hdown := word_shiftLeft_shiftRight hfit
    rw [List.foldl_cons, ih (by omega), step, ← T.shift_xor_shiftLeft _ hdown, BitVec.xor_assoc, word,
      Function.iterate_succ_apply]

theorem word_injective {bytes bytes' : List UInt8} (hlen : bytes.length = bytes'.length)
    (hfit : 8 * bytes.length ≤ w) (h : word w bytes = word w bytes') : bytes = bytes' := by
  refine List.ext_getElem hlen ?_
  intro k hk hk'
  refine UInt8.toBitVec_inj.mp (BitVec.eq_of_getLsbD_eq ?_)
  intro i hi
  have hdiv : (8 * k + i) / 8 = k := by omega
  have hmod : (8 * k + i) % 8 = i := by omega
  have hbit := congrArg (·.getLsbD (8 * k + i)) h
  rw [getLsbD_word bytes _ (by omega), getLsbD_word bytes' _ (by omega), hdiv, hmod] at hbit
  simpa [List.getD_eq_getElem?_getD, List.getElem?_eq_getElem hk,
    List.getElem?_eq_getElem hk'] using hbit

/-- **Texts that differ within a window no wider than the state have different checksums.** -/
theorem foldl_step_ne {front window window' back : List UInt8} (hlen : window.length = window'.length)
    (hfit : 8 * window.length ≤ w) (hne : window ≠ window') (c : BitVec w) :
    (front ++ window ++ back).foldl T.step c ≠ (front ++ window' ++ back).foldl T.step c := by
  intro h
  simp only [List.foldl_append] at h
  have hwindow := T.foldl_step_injective back h
  rw [T.foldl_step window hfit, T.foldl_step window' (by omega), ← hlen] at hwindow
  have hword := T.shift_injective.iterate window.length hwindow
  exact hne (word_injective hlen hfit ((BitVec.xor_right_inj _).mp hword))

/-- **A text with its own checksum behind it**: what it comes to does not depend on the text. -/
theorem foldl_step_residue {bytes tail : List UInt8} (hfit : 8 * tail.length ≤ w) (c x : BitVec w) :
    (bytes ++ tail).foldl T.step c = T.shift^[tail.length] x ↔
      word w tail = bytes.foldl T.step c ^^^ x := by
  rw [List.foldl_append, T.foldl_step tail hfit]
  constructor
  · intro h
    rw [← T.shift_injective.iterate tail.length h, ← BitVec.xor_assoc, BitVec.xor_self,
      BitVec.zero_xor]
  · intro h
    rw [h, ← BitVec.xor_assoc, BitVec.xor_self, BitVec.zero_xor]

end TableCrc

end Lib
end MiniTSDB
