import Mathlib.Data.List.Induction
import Mathlib.Data.Nat.ModEq

/-!
# Streams taken in blocks

A function that folds a list block by block can be fed one element at a time: the elements wait in
a buffer, and the one that fills it sends the whole block on. What is in the state and in the
buffer depends on the elements only, not on how they were handed over.
-/

namespace MiniTSDB
namespace Lib

variable {σ α : Type}

/-- The whole blocks of a list; what is left over at its end belongs to none. -/
def blocks (n : Nat) (xs : List α) : List (List α) :=
  (List.range (xs.length / n)).map fun i => (xs.drop (n * i)).take n

/-- What is left over. -/
def leftOver (n : Nat) (xs : List α) : List α := xs.drop (n * (xs.length / n))

/-- One element into the buffer, and the block on its way if that fills it. -/
def feed (n : Nat) (compress : σ → List α → σ) (s : σ × List α) (x : α) : σ × List α :=
  if s.2.length + 1 = n then (compress s.1 (s.2 ++ [x]), []) else (s.1, s.2 ++ [x])

section
variable {n : Nat}

@[simp] theorem length_leftOver (xs : List α) : (leftOver n xs).length = xs.length % n := by
  rw [leftOver, List.length_drop, Nat.mod_def]

@[simp] theorem leftOver_nil : leftOver n ([] : List α) = [] := List.drop_nil

@[simp] theorem blocks_nil : blocks n ([] : List α) = [] := by
  simp [blocks]

theorem leftOver_of_dvd {xs : List α} (h : n ∣ xs.length) : leftOver n xs = [] := by
  rw [leftOver, Nat.mul_div_cancel' h, List.drop_length]

theorem block_le {xs : List α} {i : Nat} (hi : i < xs.length / n) : n * i + n ≤ xs.length := by
  have hmul : n * (i + 1) ≤ n * (xs.length / n) := Nat.mul_le_mul_left n hi
  have hle : n * (xs.length / n) ≤ xs.length := Nat.mul_div_le _ _
  rw [Nat.mul_add, Nat.mul_one] at hmul
  omega

theorem length_of_mem_blocks {xs block : List α} (h : block ∈ blocks n xs) : block.length = n := by
  obtain ⟨i, hi, rfl⟩ := List.mem_map.mp h
  have hle := block_le (List.mem_range.mp hi)
  rw [List.length_take, List.length_drop]
  omega

/-- The blocks in front of the last elements do not see them. -/
theorem take_drop_append {xs ys : List α} {i : Nat} (h : n * i + n ≤ xs.length) :
    ((xs ++ ys).drop (n * i)).take n = (xs.drop (n * i)).take n := by
  rw [List.drop_append_of_le_length (by omega), List.take_append_of_le_length]
  rw [List.length_drop]
  omega

theorem succ_div_of_ne {k : Nat} (h : k % n + 1 ≠ n) (hn : 0 < n) : (k + 1) / n = k / n := by
  refine Nat.succ_div_of_not_dvd fun hdvd => h ?_
  have hmod := Nat.mod_lt k hn
  have hsum : (k % n + 1) % n = 0 := by
    rw [Nat.mod_add_mod]
    exact Nat.mod_eq_zero_of_dvd hdvd
  by_contra hne
  rw [Nat.mod_eq_of_lt (by omega)] at hsum
  omega

theorem succ_eq_mul {k : Nat} (h : k % n + 1 = n) : k + 1 = n * (k / n + 1) := by
  have hmod := Nat.div_add_mod k n
  rw [Nat.mul_add, Nat.mul_one]
  omega

theorem blocks_concat_of_ne (xs : List α) (x : α) (h : xs.length % n + 1 ≠ n) (hn : 0 < n) :
    blocks n (xs ++ [x]) = blocks n xs := by
  have hdiv := succ_div_of_ne h hn
  unfold blocks
  rw [List.length_append, List.length_singleton, hdiv]
  refine List.map_congr_left fun i hi => ?_
  exact take_drop_append (block_le (List.mem_range.mp hi))

theorem blocks_concat_of_eq (xs : List α) (x : α) (h : xs.length % n + 1 = n) :
    blocks n (xs ++ [x]) = blocks n xs ++ [leftOver n xs ++ [x]] := by
  have hdiv : (xs.length + 1) / n = xs.length / n + 1 := by
    rw [succ_eq_mul h, Nat.mul_div_cancel_left _ (by omega)]
  unfold blocks
  rw [List.length_append, List.length_singleton, hdiv, List.range_succ, List.map_append,
    List.map_singleton]
  congr 1
  · refine List.map_congr_left fun i hi => ?_
    exact take_drop_append (block_le (List.mem_range.mp hi))
  · -- The last block is what was left over, with the new element behind it.
    rw [List.drop_append_of_le_length (Nat.mul_div_le _ _)]
    show [(leftOver n xs ++ [x]).take n] = _
    rw [List.take_of_length_le]
    exact le_of_eq (by rw [List.length_append, length_leftOver, List.length_singleton, h])

theorem leftOver_concat_of_ne (xs : List α) (x : α) (h : xs.length % n + 1 ≠ n) (hn : 0 < n) :
    leftOver n (xs ++ [x]) = leftOver n xs ++ [x] := by
  have hdiv := succ_div_of_ne h hn
  unfold leftOver
  rw [List.length_append, List.length_singleton, hdiv,
    List.drop_append_of_le_length (Nat.mul_div_le _ _)]

theorem leftOver_concat_of_eq (xs : List α) (x : α) (h : xs.length % n + 1 = n) :
    leftOver n (xs ++ [x]) = [] := by
  refine leftOver_of_dvd ?_
  rw [List.length_append, List.length_singleton]
  exact ⟨xs.length / n + 1, succ_eq_mul h⟩

variable (compress : σ → List α → σ)

/-- **A stream, fed element by element, has folded its whole blocks and holds the rest.** -/
theorem foldl_feed (hn : 0 < n) (s : σ) (xs : List α) :
    xs.foldl (feed n compress) (s, []) = ((blocks n xs).foldl compress s, leftOver n xs) := by
  induction xs using List.reverseRecOn with
  | nil => simp
  | append_singleton xs x ih =>
    rw [List.foldl_append, ih, List.foldl_cons, List.foldl_nil, feed]
    show (if (leftOver n xs).length + 1 = n then _ else _) = _
    rw [length_leftOver]
    by_cases h : xs.length % n + 1 = n
    · rw [if_pos h, blocks_concat_of_eq xs x h, leftOver_concat_of_eq xs x h, List.foldl_append]
      rfl
    · rw [if_neg h, blocks_concat_of_ne xs x h hn, leftOver_concat_of_ne xs x h hn]

end

end Lib
end MiniTSDB
