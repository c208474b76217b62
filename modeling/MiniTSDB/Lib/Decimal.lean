import Mathlib.Data.Nat.Digits.Lemmas

/-!
# Decimal numerals

What `std::to_string` gives of an integer, in ASCII. The numeral of a natural number is read back
(`digitsValue_natDecimal`), and two integers with one numeral are one integer.
-/

namespace MiniTSDB
namespace Lib

def digitByte (d : Nat) : UInt8 := UInt8.ofNat (48 + d)

def natDecimal (n : Nat) : List UInt8 :=
  if n = 0 then [digitByte 0] else (Nat.digits 10 n).reverse.map digitByte

/-- An integer in decimal: `std::to_string`. -/
def decimal (i : Int) : List UInt8 :=
  if i < 0 then 45 :: natDecimal i.natAbs else natDecimal i.natAbs

theorem mem_natDecimal {n : Nat} {b : UInt8} (h : b ∈ natDecimal n) :
    ∃ d < 10, b = digitByte d := by
  unfold natDecimal at h
  split at h
  case isTrue => exact ⟨0, by omega, List.mem_singleton.mp h⟩
  case isFalse =>
    obtain ⟨d, hd, rfl⟩ := List.mem_map.mp h
    exact ⟨d, Nat.digits_lt_base (by decide) (List.mem_reverse.mp hd), rfl⟩

/-- The number that the digits stand for. -/
def digitsValue (digits : List UInt8) : Nat := digits.foldl (fun v c => 10 * v + (c.toNat - 48)) 0

/-- A numeral stands for its number. -/
theorem digitsValue_natDecimal (n : Nat) : digitsValue (natDecimal n) = n := by
  have hdigit : ∀ d < 10, (digitByte d).toNat - 48 = d := by
    intro d hd
    simp only [digitByte, UInt8.toNat_ofNat']
    omega
  have hfold : ∀ ds : List Nat, (∀ d ∈ ds, d < 10) →
      digitsValue (ds.reverse.map digitByte) = Nat.ofDigits 10 ds := by
    intro ds hds
    induction ds with
    | nil => rfl
    | cons d ds ih =>
      have hrest := ih fun d hd => hds d (List.mem_cons_of_mem _ hd)
      rw [digitsValue] at hrest ⊢
      rw [List.reverse_cons, List.map_append, List.foldl_append, hrest, List.map_singleton,
        List.foldl_cons, List.foldl_nil, hdigit d (hds d List.mem_cons_self), Nat.ofDigits_cons,
        Nat.add_comm]
  unfold natDecimal
  split
  case isTrue h =>
    rw [h]
    rfl
  case isFalse =>
    rw [hfold _ fun d hd => Nat.digits_lt_base (by decide) hd, Nat.ofDigits_digits]

theorem natDecimal_ne_nil (n : Nat) : natDecimal n ≠ [] := by
  intro h
  have hval := digitsValue_natDecimal n
  rw [h] at hval
  rw [← hval] at h
  exact absurd h (by decide)

theorem natDecimal_injective : Function.Injective natDecimal :=
  Function.LeftInverse.injective digitsValue_natDecimal

theorem decimal_injective : Function.Injective decimal := by
  -- no numeral of a natural number starts with the sign
  have hsign : ∀ m n, (45 : UInt8) :: natDecimal m ≠ natDecimal n := by
    intro m n h
    obtain ⟨d, hd, hb⟩ := mem_natDecimal (n := n) (b := 45) (by rw [← h]; simp)
    have : (45 : UInt8).toNat = (digitByte d).toNat := by rw [← hb]
    simp only [digitByte, UInt8.toNat_ofNat'] at this
    simp at this
    omega
  intro i j h
  unfold decimal at h
  split at h <;> split at h
  case isTrue.isTrue hi hj =>
    have := natDecimal_injective (List.cons.inj h).2
    omega
  case isTrue.isFalse => exact absurd h (hsign _ _)
  case isFalse.isTrue => exact absurd h.symm (hsign _ _)
  case isFalse.isFalse hi hj =>
    have := natDecimal_injective h
    omega

end Lib
end MiniTSDB
