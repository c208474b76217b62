import Mathlib.Data.List.Basic
import Mathlib.Tactic.Ring

/-!
# Fixed-width little-endian fields

What `memcpy` of an integer to and from a buffer does on a little-endian machine. A field of
`n` bytes keeps its number modulo `256 ^ n`, and a byte string of length `n` is the field of the
number it spells:

    ofLeBytes (leBytes n v) = v % 256 ^ n
    leBytes bs.length (ofLeBytes bs) = bs
-/

namespace MiniTSDB
namespace Lib

/-- The low `n` bytes of `v`, least significant first. -/
def leBytes : Nat → Nat → List UInt8
  | 0, _ => []
  | n + 1, v => UInt8.ofNat v :: leBytes n (v / 256)

/-- The number a byte string spells, least significant byte first. -/
def ofLeBytes : List UInt8 → Nat
  | [] => 0
  | b :: bs => b.toNat + 256 * ofLeBytes bs

theorem leBytes_succ (n v : Nat) : leBytes (n + 1) v = UInt8.ofNat v :: leBytes n (v / 256) := rfl

theorem ofLeBytes_cons (b : UInt8) (bs : List UInt8) :
    ofLeBytes (b :: bs) = b.toNat + 256 * ofLeBytes bs := rfl

@[simp] theorem length_leBytes (n v : Nat) : (leBytes n v).length = n := by
  induction n generalizing v with
  | zero => rfl
  | succ n ih => simp [leBytes_succ, ih]

theorem leBytes_add (m n v : Nat) : leBytes (m + n) v = leBytes m v ++ leBytes n (v / 256 ^ m) := by
  induction m generalizing v with
  | zero => simp [leBytes]
  | succ m ih =>
    rw [Nat.succ_add, leBytes_succ, leBytes_succ, ih, List.cons_append, Nat.div_div_eq_div_mul,
      pow_succ, Nat.mul_comm (256 ^ m) 256]

theorem ofLeBytes_leBytes (n v : Nat) : ofLeBytes (leBytes n v) = v % 256 ^ n := by
  induction n generalizing v with
  | zero => simp [leBytes, ofLeBytes, Nat.mod_one]
  | succ n ih =>
    have hb : (UInt8.ofNat v).toNat = v % 256 := by simp
    rw [leBytes_succ, ofLeBytes_cons, ih, hb, pow_succ, Nat.mul_comm (256 ^ n) 256, Nat.mod_mul]

theorem ofLeBytes_lt (bs : List UInt8) : ofLeBytes bs < 256 ^ bs.length := by
  induction bs with
  | nil => exact Nat.one_pos
  | cons b bs ih =>
    have hb := b.toNat_lt
    rw [ofLeBytes_cons, List.length_cons, pow_succ]
    omega

theorem ofLeBytes_append (as bs : List UInt8) :
    ofLeBytes (as ++ bs) = ofLeBytes as + 256 ^ as.length * ofLeBytes bs := by
  induction as with
  | nil => simp [ofLeBytes]
  | cons a as ih =>
    rw [List.cons_append, ofLeBytes_cons, ofLeBytes_cons, ih, List.length_cons, pow_succ]
    ring

theorem leBytes_zero (n : Nat) : leBytes n 0 = List.replicate n 0 := by
  induction n with
  | zero => rfl
  | succ n ih => rw [leBytes_succ, Nat.zero_div, ih, List.replicate_succ]; rfl

theorem ofLeBytes_replicate_zero (n : Nat) : ofLeBytes (List.replicate n 0) = 0 := by
  induction n with
  | zero => rfl
  | succ n ih => rw [List.replicate_succ, ofLeBytes_cons, ih]; rfl

theorem ofLeBytes_leBytes_of_lt {n v : Nat} (h : v < 256 ^ n) : ofLeBytes (leBytes n v) = v := by
  rw [ofLeBytes_leBytes, Nat.mod_eq_of_lt h]

end Lib
end MiniTSDB
