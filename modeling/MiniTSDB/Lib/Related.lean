/-!
# Two computations side by side

`Related r p q`: both raise the same error, or both return and what they return is related. The
rules follow the shape of a `do` block, so two runs of one program are compared line by line.
-/

namespace MiniTSDB
namespace Lib

variable {ε α β γ δ : Type}

inductive Related (r : α → β → Prop) : Except ε α → Except ε β → Prop
  | error (e : ε) : Related r (.error e) (.error e)
  | ok {a : α} {b : β} (h : r a b) : Related r (.ok a) (.ok b)

theorem Related.pure {r : α → β → Prop} {a : α} {b : β} (h : r a b) :
    Related r (pure a : Except ε α) (pure b) := .ok h

theorem Related.bind {r : α → β → Prop} {r' : γ → δ → Prop} {p : Except ε α} {q : Except ε β}
    {f : α → Except ε γ} {g : β → Except ε δ} (hp : Related r p q)
    (hf : ∀ a b, r a b → Related r' (f a) (g b)) : Related r' (p >>= f) (q >>= g) := by
  cases hp with
  | error e => exact .error e
  | ok h => exact hf _ _ h

theorem Related.mono {r r' : α → β → Prop} {p : Except ε α} {q : Except ε β}
    (hp : Related r p q) (h : ∀ a b, r a b → r' a b) : Related r' p q := by
  cases hp with
  | error e => exact .error e
  | ok hab => exact .ok (h _ _ hab)

/-- Both take the same branch. -/
theorem Related.ite {r : α → β → Prop} {c c' : Prop} [Decidable c] [Decidable c']
    {p p' : Except ε α} {q q' : Except ε β} (hc : c' ↔ c) (ht : c → Related r p q)
    (he : ¬ c → Related r p' q') :
    Related r (if c then p else p') (if c' then q else q') := by
  by_cases h : c
  · rw [if_pos h, if_pos (hc.mpr h)]
    exact ht h
  · rw [if_neg h, if_neg (mt hc.mp h)]
    exact he h

/-- What the one returns, the other returns something like it. -/
theorem Related.exists_ok {r : α → β → Prop} {p : Except ε α} {q : Except ε β} {a : α}
    (h : Related r p q) (hp : p = .ok a) : ∃ b, q = .ok b ∧ r a b := by
  cases h with
  | error e => cases hp
  | ok hab =>
    cases hp
    exact ⟨_, rfl, hab⟩

end Lib
end MiniTSDB
