import Mathlib.Data.List.Basic
import Mathlib.Data.Nat.Bitwise
import Mathlib.Tactic.Ring

/-!
# Bit lists, least significant bit first

The vocabulary every bit stream below is read in. A number of a known width is the list of its
low bits, the least significant one at the head, and a list of bits is the number it spells.
The two maps are inverse up to the width, which is the whole content of a fixed-width field:

    ofBitsLE (bitsLE n v) = v % 2 ^ n

A byte string is the concatenation of its bytes' bits in the same order, so a position in the
stream is the pair (byte, bit) a byte-oriented reader keeps. Nothing here knows what the bits
are for.
-/

namespace MiniTSDB
namespace Lib

/-- The low `n` bits of `v`, least significant first. -/
def bitsLE : Nat → Nat → List Bool
  | 0, _ => []
  | n + 1, v => v.testBit 0 :: bitsLE n (v / 2)

/-- The number a bit list spells, least significant bit first. -/
def ofBitsLE : List Bool → Nat
  | [] => 0
  | b :: bs => b.toNat + 2 * ofBitsLE bs

theorem bitsLE_zero (v : Nat) : bitsLE 0 v = [] := rfl

theorem bitsLE_succ (n v : Nat) : bitsLE (n + 1) v = v.testBit 0 :: bitsLE n (v / 2) := rfl

theorem ofBitsLE_nil : ofBitsLE [] = 0 := rfl

theorem ofBitsLE_cons (b : Bool) (bs : List Bool) :
    ofBitsLE (b :: bs) = b.toNat + 2 * ofBitsLE bs := rfl

/-! ## The two maps are inverse up to the width -/

@[simp] theorem length_bitsLE (n v : Nat) : (bitsLE n v).length = n := by
  induction n generalizing v with
  | zero => rfl
  | succ n ih => simp [bitsLE_succ, ih]

theorem ofBitsLE_bitsLE (n v : Nat) : ofBitsLE (bitsLE n v) = v % 2 ^ n := by
  induction n generalizing v with
  | zero => simp [bitsLE_zero, ofBitsLE_nil, Nat.mod_one]
  | succ n ih =>
    have hb : (v.testBit 0).toNat = v % 2 := by
      rw [Nat.testBit_zero]
      rcases Nat.mod_two_eq_zero_or_one v with h | h <;> simp [h]
    rw [bitsLE_succ, ofBitsLE_cons, ih, hb, pow_succ, Nat.mul_comm (2 ^ n) 2, Nat.mod_mul]

theorem ofBitsLE_bitsLE_of_lt {n v : Nat} (h : v < 2 ^ n) : ofBitsLE (bitsLE n v) = v := by
  rw [ofBitsLE_bitsLE, Nat.mod_eq_of_lt h]

theorem ofBitsLE_lt (bs : List Bool) : ofBitsLE bs < 2 ^ bs.length := by
  induction bs with
  | nil => simp [ofBitsLE_nil]
  | cons b bs ih =>
    have hb : b.toNat ≤ 1 := Bool.toNat_le b
    simp only [ofBitsLE_cons, List.length_cons, pow_succ]
    omega

theorem testBit_ofBitsLE (bs : List Bool) (i : Nat) :
    (ofBitsLE bs).testBit i = bs.getD i false := by
  induction bs generalizing i with
  | nil => simp [ofBitsLE_nil]
  | cons b bs ih =>
    cases i with
    | zero =>
      rw [ofBitsLE_cons, Nat.testBit_zero, List.getD_cons_zero]
      cases b <;> simp
    | succ i =>
      have hhalf : (b.toNat + 2 * ofBitsLE bs) / 2 = ofBitsLE bs := by
        have := Bool.toNat_lt b
        omega
      rw [ofBitsLE_cons, Nat.testBit_succ, hhalf, ih, List.getD_cons_succ]

theorem getElem?_bitsLE {n : Nat} (v : Nat) {i : Nat} (h : i < n) :
    (bitsLE n v)[i]? = some (v.testBit i) := by
  induction n generalizing v i with
  | zero => omega
  | succ n ih =>
    cases i with
    | zero => simp [bitsLE_succ]
    | succ i => rw [bitsLE_succ, List.getElem?_cons_succ, ih _ (by omega), Nat.testBit_succ]

theorem bitsLE_eq_map (n v : Nat) : bitsLE n v = (List.range n).map v.testBit := by
  refine List.ext_getElem? fun i => ?_
  rcases Nat.lt_or_ge i n with h | h
  · rw [getElem?_bitsLE v h]; simp [h]
  · rw [List.getElem?_eq_none (by simpa using h), List.getElem?_eq_none (by simpa using h)]

theorem bitsLE_succ_snoc (n v : Nat) : bitsLE (n + 1) v = bitsLE n v ++ [v.testBit n] := by
  simp [bitsLE_eq_map, List.range_succ]

theorem bitsLE_mod (n v : Nat) : bitsLE n (v % 2 ^ n) = bitsLE n v := by
  rw [bitsLE_eq_map, bitsLE_eq_map]
  refine List.map_congr_left fun i hi => ?_
  rw [Nat.testBit_mod_two_pow, decide_eq_true (List.mem_range.mp hi), Bool.true_and]

/-! ## Byte strings as bit streams -/

/-- The bits of a byte string: byte after byte, each least significant bit first. -/
def bitsOfBytes (bs : List UInt8) : List Bool := bs.flatMap fun b => bitsLE 8 b.toNat

@[simp] theorem bitsOfBytes_nil : bitsOfBytes [] = [] := rfl

@[simp] theorem bitsOfBytes_cons (b : UInt8) (bs : List UInt8) :
    bitsOfBytes (b :: bs) = bitsLE 8 b.toNat ++ bitsOfBytes bs := rfl

theorem bitsOfBytes_append (as bs : List UInt8) :
    bitsOfBytes (as ++ bs) = bitsOfBytes as ++ bitsOfBytes bs := by
  simp [bitsOfBytes]

@[simp] theorem length_bitsOfBytes (bs : List UInt8) : (bitsOfBytes bs).length = 8 * bs.length := by
  induction bs with
  | nil => rfl
  | cons b bs ih => simp [ih]; ring

/-- Position `8 * i + j` of the stream is bit `j` of byte `i`. -/
theorem getElem?_bitsOfBytes {bs : List UInt8} {i j : Nat} (hi : i < bs.length) (hj : j < 8) :
    (bitsOfBytes bs)[8 * i + j]? = some (bs[i].toNat.testBit j) := by
  induction bs generalizing i with
  | nil => simp at hi
  | cons b bs ih =>
    cases i with
    | zero =>
      rw [bitsOfBytes_cons, List.getElem?_append_left (by simp; omega)]
      simpa using getElem?_bitsLE b.toNat hj
    | succ i =>
      rw [bitsOfBytes_cons, List.getElem?_append_right (by simp; omega), length_bitsLE,
        show 8 * (i + 1) + j - 8 = 8 * i + j by omega, ih (by simpa using hi)]
      rfl

/-- Raising one bit of one byte raises one bit of the stream. -/
theorem bitsOfBytes_modify_or {bs : List UInt8} {i : Nat} (j : Fin 8) (hi : i < bs.length) :
    bitsOfBytes (bs.modify i (· ||| 1 <<< UInt8.ofNat j)) =
      (bitsOfBytes bs).set (8 * i + j) true := by
  have hone : ∀ j : Fin 8, (1 <<< UInt8.ofNat j : UInt8).toNat = 2 ^ j.val := by decide
  refine List.ext_getElem? fun p => ?_
  rcases Nat.lt_or_ge p (8 * bs.length) with hp | hp
  · obtain ⟨q, r, hr, rfl⟩ : ∃ q r, r < 8 ∧ p = 8 * q + r := ⟨p / 8, p % 8, by omega, by omega⟩
    have hq : q < bs.length := by omega
    rw [getElem?_bitsOfBytes (by simpa using hq) hr, List.getElem?_set, List.getElem_modify]
    by_cases hqi : q = i
    · subst hqi
      rw [if_pos rfl, UInt8.toNat_or, Nat.testBit_or, hone, Nat.testBit_two_pow,
        getElem?_bitsOfBytes hq hr]
      by_cases hrj : j.val = r
      · simp [hrj]; omega
      · simp [hrj]
    · rw [if_neg (Ne.symm hqi), if_neg (by omega), getElem?_bitsOfBytes hq hr]
  · rw [List.getElem?_eq_none (by simpa using hp), List.getElem?_eq_none (by simpa using hp)]

/-- The number of zero bits that fill the last byte of a stream of `n` bits. -/
def padding (n : Nat) : Nat := (8 - n % 8) % 8

end Lib
end MiniTSDB
