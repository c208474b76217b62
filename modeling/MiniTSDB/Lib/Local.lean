import Mathlib.Data.List.Nodup

/-!
# Going once over keys that do not touch each other

A step for a key changes what is seen of that key and of no other, and it depends on nothing else.
After a pass over distinct keys each key that came up is as one step leaves it (`view_foldl`).
-/

namespace MiniTSDB
namespace Lib

variable {σ κ ν : Type}

/-- A step for a key looks at that key, and changes it alone. -/
structure LocalStep (view : σ → κ → ν) (step : σ → κ → σ) : Prop where
  frame : ∀ s k other, other ≠ k → view (step s k) other = view s other
  reads : ∀ s t k, view s k = view t k → view (step s k) k = view (step t k) k

theorem LocalStep.view_foldl [DecidableEq κ] {view : σ → κ → ν} {step : σ → κ → σ}
    (h : LocalStep view step) {keys : List κ} (hnodup : keys.Nodup) (s : σ) (k : κ) :
    view (keys.foldl step s) k = if k ∈ keys then view (step s k) k else view s k := by
  induction keys generalizing s with
  | nil => rfl
  | cons key keys ih =>
    obtain ⟨hnew, hnodup⟩ := List.nodup_cons.mp hnodup
    rw [List.foldl_cons, ih hnodup]
    by_cases hk : k = key
    · rw [hk, if_neg hnew, if_pos List.mem_cons_self]
    · have hsame : view (step s key) k = view s k := h.frame s key k hk
      by_cases hmem : k ∈ keys
      · rw [if_pos hmem, if_pos (List.mem_cons_of_mem _ hmem)]
        exact h.reads _ _ k hsame
      · rw [if_neg hmem, if_neg (by simp [hk, hmem]), hsame]

/-- Where the step for a key that does not come up would change nothing, every key is as its own
step leaves it. -/
theorem LocalStep.view_foldl_of_idle [DecidableEq κ] {view : σ → κ → ν} {step : σ → κ → σ}
    (h : LocalStep view step) {keys : List κ} (hnodup : keys.Nodup) {s : σ} {k : κ}
    (hidle : k ∉ keys → step s k = s) : view (keys.foldl step s) k = view (step s k) k := by
  rw [h.view_foldl hnodup]
  split
  case isTrue => rfl
  case isFalse hmem => rw [hidle hmem]

end Lib
end MiniTSDB
