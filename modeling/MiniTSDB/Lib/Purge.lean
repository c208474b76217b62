import MiniTSDB.Lib.Runs

/-!
# Steps that nobody notices

A system takes steps, each at its time, and answers each. Some of its states are the same from some
time on: no later answer tells them apart. A step is silent in a state if it leaves what is the same
from then on.

Take the silent steps out of a run whose times do not go back, and the others are answered as before
and lead to the same (`Unnoticed.purge`). Which steps are silent may depend on where the run is.
-/

namespace MiniTSDB
namespace Lib

variable {σ ι ω : Type}

section
variable (step : σ → ι → ω × σ)

/-- Where a run ends. -/
def runTo (s : σ) (labels : List ι) : σ := labels.foldl (fun s a => (step s a).2) s

theorem runTo_concat (s : σ) (labels : List ι) (a : ι) :
    runTo step s (labels ++ [a]) = (step (runTo step s labels) a).2 :=
  foldl_concat _ s labels a

omit step in
/-- Where a step of a run is its last, or an earlier one. -/
theorem concat_prefix_concat {front labels : List ι} {a b : ι} :
    front ++ [a] <+: labels ++ [b] ↔ (front = labels ∧ a = b) ∨ front ++ [a] <+: labels := by
  rw [List.prefix_concat_iff]
  constructor
  · rintro (heq | hfront)
    · obtain ⟨hfront, hlast⟩ := List.append_inj' heq rfl
      exact .inl ⟨hfront, List.singleton_inj.mp hlast⟩
    · exact .inr hfront
  · rintro (⟨rfl, rfl⟩ | hfront)
    · exact .inl rfl
    · exact .inr hfront

/-- The answers of a run. -/
def answers : σ → List ι → List ω
  | _, [] => []
  | s, a :: labels => (step s a).1 :: answers (step s a).2 labels

variable (silent : σ → ι → Bool)

/-- What is left of a run without its silent steps. -/
def purge : σ → List ι → List ι
  | _, [] => []
  | s, a :: labels =>
    if silent s a then purge (step s a).2 labels else a :: purge (step s a).2 labels

/-- The answers of a run, but for those of its silent steps. -/
def loudAnswers : σ → List ι → List ω
  | _, [] => []
  | s, a :: labels =>
    if silent s a then loudAnswers (step s a).2 labels
    else (step s a).1 :: loudAnswers (step s a).2 labels

/-- States that are the same from a time on stay so, are answered alike, and are not told apart by a
silent step. -/
structure Unnoticed (time : ι → Int) (same : Int → σ → σ → Prop) : Prop where
  later : ∀ {t t' : Int} {s s' : σ}, t ≤ t' → same t s s' → same t' s s'
  answered : ∀ {s s' : σ} {a : ι}, same (time a) s s' → (step s a).1 = (step s' a).1
  stepped : ∀ {s s' : σ} {a : ι}, same (time a) s s' → same (time a) (step s a).2 (step s' a).2
  quiet : ∀ {s s' : σ} {a : ι}, silent s a = true → same (time a) s s' →
    same (time a) (step s a).2 s'

end

/-- The times of the labels do not go back, from this one on. -/
def TimesFrom (time : ι → Int) : Int → List ι → Prop
  | _, [] => True
  | t, a :: labels => t ≤ time a ∧ TimesFrom time (time a) labels

/-- The time of the last label. -/
def lastTimeOf (time : ι → Int) (t : Int) (labels : List ι) : Int :=
  labels.foldl (fun _ a => time a) t

section
variable {step : σ → ι → ω × σ} {silent : σ → ι → Bool} {time : ι → Int}
  {same : Int → σ → σ → Prop}

/-- **Silent steps are not noticed**: without them the others get the same answers, and the run ends
in the same state. -/
theorem Unnoticed.purge (h : Unnoticed step silent time same) {t : Int} {s s' : σ}
    {labels : List ι} (htimes : TimesFrom time t labels) (hsame : same t s s') :
    loudAnswers step silent s labels = answers step s' (purge step silent s labels) ∧
      same (lastTimeOf time t labels) (runTo step s labels)
        (runTo step s' (Lib.purge step silent s labels)) := by
  induction labels generalizing t s s' with
  | nil => exact ⟨rfl, hsame⟩
  | cons a labels ih =>
    obtain ⟨hle, hrest⟩ := htimes
    have hhere := h.later hle hsame
    rw [loudAnswers, Lib.purge]
    by_cases hsilent : silent s a = true
    · rw [if_pos hsilent, if_pos hsilent]
      exact ih hrest (h.quiet hsilent hhere)
    · obtain ⟨hanswers, hend⟩ := ih hrest (h.stepped hhere)
      rw [if_neg hsilent, if_neg hsilent, answers, h.answered hhere, hanswers]
      exact ⟨rfl, hend⟩

end

end Lib
end MiniTSDB
