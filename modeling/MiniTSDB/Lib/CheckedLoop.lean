import Mathlib.Logic.Relation

/-!
# Loops that may fault

A turn of a loop ends it, or faults, or yields a value and the state of the next turn. With as much
fuel as it has turns the loop ends; it ends without a fault exactly if no state it comes to faults.
-/

namespace MiniTSDB
namespace Lib

variable {σ ε α : Type}

/-- The loop, in at most `fuel` turns. -/
def checkedLoop (turn : σ → Option (Except ε (α × σ))) : Nat → σ → Option (Except ε (List α))
  | 0, _ => none
  | fuel + 1, s =>
    match turn s with
    | none => some (.ok [])
    | some (.error fault) => some (.error fault)
    | some (.ok (a, s')) =>
      (checkedLoop turn fuel s').map fun result => result.map fun rest => a :: rest

theorem checkedLoop_succ (turn : σ → Option (Except ε (α × σ))) (fuel : Nat) (s : σ) :
    checkedLoop turn (fuel + 1) s =
      match turn s with
      | none => some (.ok [])
      | some (.error fault) => some (.error fault)
      | some (.ok (a, s')) =>
        (checkedLoop turn fuel s').map fun result => result.map fun rest => a :: rest := rfl

/-- What holds at every state that is come to. -/
def AllReached (next : σ → σ → Prop) (good : σ → Prop) (s : σ) : Prop :=
  ∀ t, Relation.ReflTransGen next s t → good t

theorem allReached_iff {next : σ → σ → Prop} {good : σ → Prop} {s : σ} :
    AllReached next good s ↔ good s ∧ ∀ t, next s t → AllReached next good t := by
  constructor
  · intro h
    refine ⟨h s .refl, ?_⟩
    intro t hnext u hreach
    exact h u (.head hnext hreach)
  · intro ⟨hhere, hrest⟩ t hreach
    cases hreach.cases_head with
    | inl heq =>
      rw [← heq]
      exact hhere
    | inr hstep =>
      obtain ⟨u, hnext, hreach⟩ := hstep
      exact hrest u hnext t hreach

/-- Where there is one way on, what holds here holds throughout if it does from there. -/
theorem allReached_next {next : σ → σ → Prop} {good : σ → Prop} {s t : σ} (hhere : good s)
    (hnext : next s t) (hone : ∀ u, next s u → u = t) :
    AllReached next good s ↔ AllReached next good t := by
  rw [allReached_iff, and_iff_right hhere]
  constructor
  · intro h
    exact h t hnext
  · intro h u hu
    rw [hone u hu]
    exact h

section
variable {turn : σ → Option (Except ε (α × σ))}

theorem checkedLoop_mono {fuel fuel' : Nat} (hle : fuel ≤ fuel') :
    ∀ {s : σ} {result : Except ε (List α)},
      checkedLoop turn fuel s = some result → checkedLoop turn fuel' s = some result := by
  induction fuel generalizing fuel' with
  | zero =>
    intro s result h
    cases h
  | succ fuel ih =>
    intro s result h
    obtain ⟨more, rfl⟩ : ∃ more, fuel' = more + 1 := ⟨fuel' - 1, by omega⟩
    rw [checkedLoop_succ] at h ⊢
    cases hturn : turn s with
    | none => simpa only [hturn] using h
    | some outcome =>
      cases outcome with
      | error fault => simpa only [hturn] using h
      | ok e =>
        obtain ⟨a, s'⟩ := e
        rw [hturn] at h
        obtain ⟨rest, hrest, rfl⟩ := Option.map_eq_some_iff.mp h
        dsimp only
        rw [ih (by omega) hrest]
        rfl

/-- **A loop whose turns use something up ends.** -/
theorem checkedLoop_total (size : σ → Nat)
    (hless : ∀ s a s', turn s = some (.ok (a, s')) → size s' < size s) (fuel : Nat) :
    ∀ s, size s < fuel → ∃ result, checkedLoop turn fuel s = some result := by
  induction fuel with
  | zero =>
    intro s h
    omega
  | succ fuel ih =>
    intro s h
    rw [checkedLoop_succ]
    cases hturn : turn s with
    | none => exact ⟨_, rfl⟩
    | some outcome =>
      cases outcome with
      | error fault => exact ⟨_, rfl⟩
      | ok e =>
        obtain ⟨a, s'⟩ := e
        have hsmaller := hless s a s' hturn
        obtain ⟨result, hresult⟩ := ih s' (by omega)
        exact ⟨_, by dsimp only; rw [hresult]; rfl⟩

/-- **A loop that ends does so without a fault exactly if every state it comes to is good**, where
the good states are those whose turn does not fault. -/
theorem checkedLoop_ok_iff (next : σ → σ → Prop) (good : σ → Prop)
    (hgood : ∀ s, good s ↔ ∀ fault, turn s ≠ some (.error fault))
    (hnext : ∀ s t, good s → (next s t ↔ ∃ a, turn s = some (.ok (a, t)))) (fuel : Nat) :
    ∀ s result, checkedLoop turn fuel s = some result →
      ((∃ values, result = .ok values) ↔ AllReached next good s) := by
  induction fuel with
  | zero =>
    intro s result h
    cases h
  | succ fuel ih =>
    intro s result h
    rw [checkedLoop_succ] at h
    cases hturn : turn s with
    | none =>
      rw [hturn] at h
      have hhere : good s := (hgood s).mpr (by simp [hturn])
      have hlast : AllReached next good s := by
        refine allReached_iff.mpr ⟨hhere, ?_⟩
        intro t ht
        obtain ⟨a, ha⟩ := (hnext s t hhere).mp ht
        rw [hturn] at ha
        cases ha
      exact ⟨fun _ => hlast, fun _ => ⟨[], (Option.some.inj h).symm⟩⟩
    | some outcome =>
      cases outcome with
      | error fault =>
        rw [hturn] at h
        have hbad : ¬ good s := fun hs => (hgood s).mp hs fault hturn
        have hresult : result = .error fault := (Option.some.inj h).symm
        constructor
        · intro ⟨values, hvalues⟩
          rw [hresult] at hvalues
          cases hvalues
        · intro hall
          exact absurd (allReached_iff.mp hall).1 hbad
      | ok e =>
        obtain ⟨a, s'⟩ := e
        rw [hturn] at h
        obtain ⟨rest, hrest, hresult⟩ := Option.map_eq_some_iff.mp h
        have hhere : good s := (hgood s).mpr (by simp [hturn])
        have hstep : next s s' := (hnext s s' hhere).mpr ⟨a, hturn⟩
        have hone : ∀ u, next s u → u = s' := by
          intro u hu
          obtain ⟨b, hb⟩ := (hnext s u hhere).mp hu
          rw [hturn] at hb
          cases hb
          rfl
        rw [allReached_next hhere hstep hone, ← ih s' rest hrest, ← hresult]
        cases rest with
        | ok values => exact ⟨fun _ => ⟨values, rfl⟩, fun _ => ⟨_, rfl⟩⟩
        | error fault => exact ⟨nofun, nofun⟩

/-- The fault of a loop is the fault of a turn. -/
theorem exists_turn_of_error {fault : ε} (fuel : Nat) :
    ∀ s, checkedLoop turn fuel s = some (.error fault) → ∃ t, turn t = some (.error fault) := by
  induction fuel with
  | zero =>
    intro s h
    cases h
  | succ fuel ih =>
    intro s h
    rw [checkedLoop_succ] at h
    cases hturn : turn s with
    | none =>
      rw [hturn] at h
      cases h
    | some outcome =>
      cases outcome with
      | error other =>
        rw [hturn] at h
        cases h
        exact ⟨s, hturn⟩
      | ok e =>
        rw [hturn] at h
        obtain ⟨rest, hrest, herror⟩ := Option.map_eq_some_iff.mp h
        cases rest with
        | ok values => cases herror
        | error other =>
          cases herror
          exact ih e.2 hrest

/-- What each turn counts down bounds the values. -/
theorem checkedLoop_length_le (left : σ → Nat)
    (hcount : ∀ s a s', turn s = some (.ok (a, s')) → left s' < left s) (fuel : Nat) :
    ∀ s values, checkedLoop turn fuel s = some (.ok values) → values.length ≤ left s := by
  induction fuel with
  | zero =>
    intro s values h
    cases h
  | succ fuel ih =>
    intro s values h
    rw [checkedLoop_succ] at h
    cases hturn : turn s with
    | none =>
      rw [hturn] at h
      cases h
      exact Nat.zero_le _
    | some outcome =>
      cases outcome with
      | error fault =>
        rw [hturn] at h
        cases h
      | ok e =>
        obtain ⟨a, s'⟩ := e
        rw [hturn] at h
        obtain ⟨rest, hrest, hvalues⟩ := Option.map_eq_some_iff.mp h
        cases rest with
        | error fault => cases hvalues
        | ok rest =>
          cases hvalues
          have hle := ih s' rest hrest
          have hlt := hcount s a s' hturn
          rw [List.length_cons]
          omega

end

end Lib
end MiniTSDB
