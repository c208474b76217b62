import Mathlib.Data.List.Basic
import Mathlib.Data.List.Infix
import Mathlib.Data.List.Induction

/-!
# Runs of a labelled transition relation

A run is a list of labels and the state they lead to. What an invariant says may depend on the
labels so far, so it can speak of what the run has asked for as well as of where it is:
`Run.invariant` is the induction, once.

The runs in which every step was taken from a state that allowed it are the runs of the guarded
relation.

Where the step is a function, a run is the fold over its labels, and a property that each step keeps
exactly where it is no bad one holds throughout exactly where no step is bad: `foldl_always_iff`.
-/

namespace MiniTSDB
namespace Lib

variable {σ ι : Type}

/-- `Run step s labels t`: taking `labels` in order leads from `s` to `t`. -/
inductive Run (step : σ → ι → σ → Prop) (s : σ) : List ι → σ → Prop
  | start : Run step s [] s
  | snoc {labels : List ι} {t u : σ} {a : ι} :
      Run step s labels t → step t a u → Run step s (labels ++ [a]) u

/-- The steps a guard on the state before and the label lets through. -/
def Guarded (step : σ → ι → σ → Prop) (guard : σ → ι → Prop) (s : σ) (a : ι) (t : σ) : Prop :=
  step s a t ∧ guard s a

theorem Run.mono {step : σ → ι → σ → Prop} {guard guard' : σ → ι → Prop}
    (hguard : ∀ s a, guard s a → guard' s a) {s t : σ} {labels : List ι}
    (h : Run (Guarded step guard) s labels t) : Run (Guarded step guard') s labels t := by
  induction h with
  | start => exact .start
  | snoc _ ha ih => exact .snoc ih ⟨ha.1, hguard _ _ ha.2⟩

theorem Run.of_guarded {step : σ → ι → σ → Prop} {guard : σ → ι → Prop} {s t : σ}
    {labels : List ι} (h : Run (Guarded step guard) s labels t) : Run step s labels t := by
  induction h with
  | start => exact .start
  | snoc _ ha ih => exact .snoc ih ha.1

/-- **Invariants of runs**: what holds at the start and is preserved by every step holds of every
state reached. -/
theorem Run.invariant {step : σ → ι → σ → Prop} {s : σ} (inv : List ι → σ → Prop)
    (hstart : inv [] s)
    (hstep : ∀ labels t a u, inv labels t → step t a u → inv (labels ++ [a]) u)
    {labels : List ι} {t : σ} (h : Run step s labels t) : inv labels t := by
  induction h with
  | start => exact hstart
  | snoc _ ha ih => exact hstep _ _ _ _ ih ha

/-- The last step of a run. -/
theorem Run.of_concat {step : σ → ι → σ → Prop} {s u : σ} {labels : List ι} {a : ι}
    (h : Run step s (labels ++ [a]) u) : ∃ t, Run step s labels t ∧ step t a u := by
  generalize hall : labels ++ [a] = all at h
  cases h with
  | start => simp at hall
  | snoc hbefore hstep =>
    obtain ⟨rfl, hlast⟩ := List.append_inj' hall rfl
    obtain rfl := List.singleton_inj.mp hlast
    exact ⟨_, hbefore, hstep⟩

/-! ## Steps that are a function -/

theorem foldl_concat (step : σ → ι → σ) (s : σ) (labels : List ι) (a : ι) :
    (labels ++ [a]).foldl step s = step (labels.foldl step s) a := by
  rw [List.foldl_append]
  rfl

/-- **Properties that hold throughout a run**: exactly where no step of it is one that loses
them. -/
theorem foldl_always_iff {step : σ → ι → σ} {s : σ} {labels : List ι} (P : σ → Prop)
    (bad : σ → ι → Prop) (hstart : P s)
    (hstep : ∀ front a, front ++ [a] <+: labels → P (front.foldl step s) →
      (P (step (front.foldl step s) a) ↔ ¬ bad (front.foldl step s) a)) :
    (∀ front, front <+: labels → P (front.foldl step s)) ↔
      ∀ front a, front ++ [a] <+: labels → ¬ bad (front.foldl step s) a := by
  constructor
  · intro h front a hfront
    have hafter := h _ hfront
    rw [foldl_concat] at hafter
    exact (hstep front a hfront (h front ((List.prefix_append front [a]).trans hfront))).mp hafter
  · intro h front
    induction front using List.reverseRecOn with
    | nil => exact fun _ => hstart
    | append_singleton front a ih =>
      intro hfront
      have hbefore := ih ((List.prefix_append front [a]).trans hfront)
      rw [foldl_concat]
      exact (hstep front a hfront hbefore).mpr (h front a hfront)

end Lib
end MiniTSDB
