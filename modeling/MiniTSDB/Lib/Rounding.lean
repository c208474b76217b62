import Mathlib.Algebra.Order.Ring.Int

/-!
# Rounding to multiples

`t.tdiv w * w` is the multiple of `w` that rounding towards zero gives, as the integer division of
the machine does. It is at or below `t` exactly if `t` is not negative or is a multiple itself:
of the other negative numbers it is the multiple above.
-/

namespace MiniTSDB
namespace Lib

variable {t w : Int}

/-- The result is between the number and zero. -/
theorem tdiv_mul_between (hpos : 0 < w) :
    (0 ≤ t → 0 ≤ t.tdiv w * w ∧ t.tdiv w * w ≤ t) ∧
      (t ≤ 0 → t ≤ t.tdiv w * w ∧ t.tdiv w * w ≤ 0) := by
  have hnonneg : ∀ t : Int, 0 ≤ t → 0 ≤ t.tdiv w * w ∧ t.tdiv w * w ≤ t := by
    intro t ht
    have hsplit := Int.tdiv_mul_add_tmod t w
    have hrest := Int.tmod_nonneg w ht
    exact ⟨Int.mul_nonneg (Int.tdiv_nonneg ht (Int.le_of_lt hpos)) (Int.le_of_lt hpos), by omega⟩
  refine ⟨hnonneg t, ?_⟩
  intro ht
  have h := hnonneg (-t) (by omega)
  rw [Int.neg_tdiv, Int.neg_mul] at h
  omega

theorem lt_tdiv_mul_add (hpos : 0 < w) : t < t.tdiv w * w + w := by
  have hsplit := Int.tdiv_mul_add_tmod t w
  have hrest := Int.tmod_lt_of_pos t hpos
  omega

theorem tdiv_mul_le_iff (hpos : 0 < w) : t.tdiv w * w ≤ t ↔ 0 ≤ t ∨ w ∣ t := by
  obtain ⟨hup, hdown⟩ := tdiv_mul_between (t := t) hpos
  constructor
  · intro hle
    by_cases ht : 0 ≤ t
    · exact .inl ht
    · have heq : t.tdiv w * w = t := by
        have := hdown (by omega)
        omega
      exact .inr ⟨t.tdiv w, by rw [Int.mul_comm, heq]⟩
  · intro h
    rcases h with ht | hdvd
    · exact (hup ht).2
    · exact Int.le_of_eq (Int.tdiv_mul_cancel hdvd)

/-- Windows at different multiples do not meet. -/
theorem eq_of_windows {k k' : Int} (hk : w ∣ k) (hk' : w ∣ k') (h : k ≤ t ∧ t < k + w)
    (h' : k' ≤ t ∧ t < k' + w) : k = k' := by
  obtain ⟨n, rfl⟩ := hk
  obtain ⟨n', rfl⟩ := hk'
  have hpos : 0 < w := by omega
  have hle : ∀ n n' : Int, w * n ≤ t → t < w * n' + w → n ≤ n' := by
    intro n n' hlo hhi
    have hlt : w * n < w * (n' + 1) := by
      rw [Int.mul_add, Int.mul_one]
      omega
    have := Int.lt_of_mul_lt_mul_left hlt (Int.le_of_lt hpos)
    omega
  rw [Int.le_antisymm (hle n n' h.1 h'.2) (hle n' n h'.1 h.2)]

end Lib
end MiniTSDB
