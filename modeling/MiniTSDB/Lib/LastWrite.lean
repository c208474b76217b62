import Mathlib.Logic.Function.Basic
import Mathlib.Data.List.Basic

/-!
# The last write to a key

A sequence of steps over a map, each of which sets one key or none. What a key has at the end is
what the last step that sets it gave it, or what it had before if no step sets it
(`overwrite_eq_iff`).
-/

namespace MiniTSDB
namespace Lib

variable {κ ν : Type} [DecidableEq κ]

/-- The map after the steps, taken in order. -/
def overwrite (f : κ → ν) : List (Option (κ × ν)) → κ → ν
  | [] => f
  | none :: steps => overwrite f steps
  | some (k, v) :: steps => overwrite (Function.update f k v) steps

/-- No step sets the key. -/
def NeverSet (steps : List (Option (κ × ν))) (k : κ) : Prop := ∀ v, some (k, v) ∉ steps

/-- The last step that sets the key gives it this value. -/
def LastSet (steps : List (Option (κ × ν))) (k : κ) (v : ν) : Prop :=
  ∃ before after, steps = before ++ some (k, v) :: after ∧ NeverSet after k

omit [DecidableEq κ] in
theorem neverSet_cons {step : Option (κ × ν)} {steps : List (Option (κ × ν))} {k : κ} :
    NeverSet (step :: steps) k ↔ (∀ v, step ≠ some (k, v)) ∧ NeverSet steps k := by
  simp only [NeverSet, List.mem_cons, not_or, forall_and, ne_eq, eq_comm]

omit [DecidableEq κ] in
theorem lastSet_cons {step : Option (κ × ν)} {steps : List (Option (κ × ν))} {k : κ} {v : ν} :
    LastSet (step :: steps) k v ↔
      LastSet steps k v ∨ (step = some (k, v) ∧ NeverSet steps k) := by
  constructor
  · intro ⟨before, after, heq, hnever⟩
    cases before with
    | nil =>
      obtain ⟨hstep, hsteps⟩ := List.cons.inj heq
      exact .inr ⟨hstep, hsteps ▸ hnever⟩
    | cons first before =>
      obtain ⟨-, hsteps⟩ := List.cons.inj heq
      exact .inl ⟨before, after, hsteps, hnever⟩
  · intro h
    cases h with
    | inl h =>
      obtain ⟨before, after, hsteps, hnever⟩ := h
      exact ⟨step :: before, after, by rw [hsteps, List.cons_append], hnever⟩
    | inr h => exact ⟨[], steps, by rw [h.1, List.nil_append], h.2⟩

/-- **The last write stands.** -/
theorem overwrite_eq_iff {f : κ → ν} {steps : List (Option (κ × ν))} {k : κ} {v : ν} :
    overwrite f steps k = v ↔ LastSet steps k v ∨ (NeverSet steps k ∧ f k = v) := by
  induction steps generalizing f with
  | nil =>
    have hlast : ¬ LastSet ([] : List (Option (κ × ν))) k v := by
      intro ⟨before, after, heq, _⟩
      simp at heq
    simp [overwrite, hlast, NeverSet]
  | cons step steps ih =>
    cases step with
    | none => simp [overwrite, ih, lastSet_cons, neverSet_cons]
    | some write =>
      obtain ⟨k', v'⟩ := write
      rw [overwrite, ih, lastSet_cons, neverSet_cons, or_assoc]
      refine or_congr_right ?_
      by_cases hk : k = k'
      · subst hk
        simp [and_comm]
      · have hk' : k' ≠ k := fun h => hk h.symm
        simp [Function.update_of_ne hk, hk']

end Lib
end MiniTSDB
