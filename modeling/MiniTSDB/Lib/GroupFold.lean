import Mathlib.Data.List.AList
import Mathlib.Data.List.Induction

/-!
# Folding by key

A list is gone through once, and every element is folded into the accumulator of its key, which a
map holds. What the map then has under a key is the fold over the elements of that key, in their
order; keys that no element has are not in it.
-/

namespace MiniTSDB
namespace Lib

variable {α κ β : Type} [DecidableEq κ]

/-- `auto& b = map[key(x)]; step(b, x);` for every element. A key that is new starts at `init`. -/
def groupFold (key : α → κ) (start : β) (step : β → α → β) (xs : List α) : AList fun _ : κ => β :=
  xs.foldl (fun m x => m.insert (key x) (step ((m.lookup (key x)).getD start) x)) ∅

/-- The elements of a key. -/
def group (key : α → κ) (k : κ) (xs : List α) : List α := xs.filter fun x => key x = k

section
variable (key : α → κ) (start : β) (step : β → α → β)

theorem groupFold_concat (xs : List α) (x : α) :
    groupFold key start step (xs ++ [x])
      = (groupFold key start step xs).insert (key x)
        (step (((groupFold key start step xs).lookup (key x)).getD start) x) := by
  rw [groupFold, List.foldl_append]
  rfl

theorem group_concat (k : κ) (xs : List α) (x : α) :
    group key k (xs ++ [x]) = group key k xs ++ if key x = k then [x] else [] := by
  by_cases h : key x = k
  · simp [group, h]
  · simp [group, h]

/-- **What is under a key is the fold over its elements.** -/
theorem lookup_groupFold (k : κ) (xs : List α) :
    (groupFold key start step xs).lookup k
      = if group key k xs = [] then none else some ((group key k xs).foldl step start) := by
  induction xs using List.reverseRecOn with
  | nil => rfl
  | append_singleton xs x ih =>
    rw [groupFold_concat, group_concat]
    by_cases h : key x = k
    · have hsome : group key k xs ++ [x] ≠ [] := by simp
      have hstart : ((groupFold key start step xs).lookup k).getD start
          = (group key k xs).foldl step start := by
        rw [ih]
        by_cases hnone : group key k xs = []
        · rw [if_pos hnone, hnone]
          rfl
        · rw [if_neg hnone]
          rfl
      rw [h, AList.lookup_insert, hstart, if_pos rfl, if_neg hsome, List.foldl_append]
      rfl
    · rw [AList.lookup_insert_ne (Ne.symm h), ih, if_neg h, List.append_nil]

theorem mem_entries_groupFold {xs : List α} {e : Sigma fun _ : κ => β} :
    e ∈ (groupFold key start step xs).entries ↔
      group key e.1 xs ≠ [] ∧ e.2 = (group key e.1 xs).foldl step start := by
  rw [← AList.mem_lookup_iff, Option.mem_def, lookup_groupFold]
  by_cases h : group key e.1 xs = []
  · simp [h]
  · simp [h, eq_comm]

theorem exists_mem_entries_groupFold {xs : List α} {x : α} (hx : x ∈ xs) :
    ∃ e ∈ (groupFold key start step xs).entries, e.1 = key x := by
  have hgroup : group key (key x) xs ≠ [] :=
    List.ne_nil_of_mem (List.mem_filter.mpr ⟨hx, decide_eq_true rfl⟩)
  have hlookup := lookup_groupFold key start step (key x) xs
  rw [if_neg hgroup] at hlookup
  exact ⟨_, AList.mem_lookup_iff.mp hlookup, rfl⟩

end

end Lib
end MiniTSDB
