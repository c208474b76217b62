/-!
# Computations that return

`Returns p Q`: the computation raises nothing, and what it returns has the property. Its rules
follow the shape of a `do` block.
-/

namespace MiniTSDB
namespace Lib

variable {ε α β : Type}

def Returns (p : Except ε α) (Q : α → Prop) : Prop := ∃ a, p = .ok a ∧ Q a

theorem Returns.ok {Q : α → Prop} {a : α} (h : Q a) : Returns (.ok a : Except ε α) Q :=
  ⟨a, rfl, h⟩

theorem Returns.pure {Q : α → Prop} {a : α} (h : Q a) : Returns (pure a : Except ε α) Q :=
  ⟨a, rfl, h⟩

theorem Returns.bind {p : Except ε α} {f : α → Except ε β} {P : α → Prop} {Q : β → Prop}
    (hp : Returns p P) (hf : ∀ a, P a → Returns (f a) Q) : Returns (p >>= f) Q := by
  obtain ⟨a, rfl, ha⟩ := hp
  exact hf a ha

/-- What a `do` block returns, both of its parts returned. -/
theorem ok_bind (a : α) (f : α → Except ε β) : (Except.ok a >>= f) = f a := rfl

theorem bind_eq_ok {p : Except ε α} {f : α → Except ε β} {b : β} (h : p >>= f = .ok b) :
    ∃ a, p = .ok a ∧ f a = .ok b := by
  cases p with
  | error e => cases h
  | ok a => exact ⟨a, rfl, h⟩

theorem Returns.mono {p : Except ε α} {P Q : α → Prop} (hp : Returns p P)
    (h : ∀ a, P a → Q a) : Returns p Q := by
  obtain ⟨a, rfl, ha⟩ := hp
  exact ⟨a, rfl, h a ha⟩

theorem Returns.ite {c : Prop} [Decidable c] {p p' : Except ε α} {Q : α → Prop}
    (ht : c → Returns p Q) (he : ¬ c → Returns p' Q) : Returns (if c then p else p') Q := by
  by_cases h : c
  · rw [if_pos h]
    exact ht h
  · rw [if_neg h]
    exact he h

/-- What every turn of a loop keeps is kept by the loop. -/
theorem foldlM_keeps {f : β → α → Except ε β} {P : β → Prop} {as : List α}
    (hstep : ∀ a ∈ as, ∀ b b', f b a = .ok b' → P b → P b') {b b' : β}
    (hloop : as.foldlM f b = .ok b') (h : P b) : P b' := by
  induction as generalizing b with
  | nil =>
    cases hloop
    exact h
  | cons a as ih =>
    rw [List.foldlM_cons] at hloop
    obtain ⟨next, hturn, hrest⟩ := bind_eq_ok hloop
    exact ih (fun a ha => hstep a (List.mem_cons_of_mem _ ha)) hrest
      (hstep a List.mem_cons_self b next hturn h)

end Lib
end MiniTSDB
