import Mathlib.Algebra.Group.Basic
import Mathlib.Algebra.Order.Group.Nat
import Mathlib.Data.List.Basic

/-!
# Second differences, and summing them back

A sequence is stored as its first element and its *second differences*: with `prev` the element
before and `delta` the step that led to it, the next element `t` is stored as `t - prev - delta`.
`integrate` sums them back. Over any additive group that gives the sequence again, so the only
way to lose something is to alter a second difference on the way, and `integrate_map_eq_iff` says
that this way always loses: the sequence comes back exactly when no second difference was
altered.

A run of zeros after the last second difference continues the sequence by its last step
(`integrate_append_zeros`).
-/

namespace MiniTSDB
namespace Lib

variable {G : Type*} [AddCommGroup G]

/-- The second differences of a sequence that follows `prev`, reached by the step `delta`. -/
def secondDiffs (prev delta : G) : List G → List G
  | [] => []
  | t :: ts => (t - prev - delta) :: secondDiffs t (t - prev) ts

def diffs (prev : G) : List G → List G
  | [] => []
  | t :: ts => (t - prev) :: diffs t ts

/-- The sequence with the given second differences. -/
def integrate (prev delta : G) : List G → List G
  | [] => []
  | dd :: dds => (prev + (delta + dd)) :: integrate (prev + (delta + dd)) (delta + dd) dds

/-- The last element of a sequence that follows `prev`, and the step that led to it. -/
def lastStep (prev delta : G) : List G → G × G
  | [] => (prev, delta)
  | t :: ts => lastStep t (t - prev) ts

def continued (prev delta : G) : Nat → List G
  | 0 => []
  | k + 1 => (prev + delta) :: continued (prev + delta) delta k

theorem secondDiffs_cons (p d t : G) (ts : List G) :
    secondDiffs p d (t :: ts) = (t - p - d) :: secondDiffs t (t - p) ts := rfl

theorem integrate_nil (p d : G) : integrate p d [] = [] := rfl

theorem integrate_cons (p d dd : G) (dds : List G) : integrate p d (dd :: dds)
    = (p + (d + dd)) :: integrate (p + (d + dd)) (d + dd) dds := rfl

theorem lastStep_cons (p d t : G) (ts : List G) :
    lastStep p d (t :: ts) = lastStep t (t - p) ts := rfl

theorem continued_succ (p d : G) (k : Nat) :
    continued p d (k + 1) = (p + d) :: continued (p + d) d k := rfl

@[simp] theorem length_secondDiffs (p d : G) (ts : List G) :
    (secondDiffs p d ts).length = ts.length := by
  induction ts generalizing p d with
  | nil => rfl
  | cons t ts ih => simp [secondDiffs_cons, ih]

@[simp] theorem length_integrate (p d : G) (dds : List G) :
    (integrate p d dds).length = dds.length := by
  induction dds generalizing p d with
  | nil => rfl
  | cons dd dds ih => simp [integrate_cons, ih]

@[simp] theorem length_continued (p d : G) (k : Nat) : (continued p d k).length = k := by
  induction k generalizing p with
  | zero => rfl
  | succ k ih => simp [continued_succ, ih]

/-- Second differences commute with every map that preserves differences. -/
theorem secondDiffs_map {H : Type*} [AddCommGroup H] {f : G → H}
    (hf : ∀ a b, f (a - b) = f a - f b) (p d : G) (ts : List G) :
    secondDiffs (f p) (f d) (ts.map f) = (secondDiffs p d ts).map f := by
  induction ts generalizing p d with
  | nil => rfl
  | cons t ts ih =>
    rw [List.map_cons, secondDiffs_cons, secondDiffs_cons, List.map_cons, ← hf, ← hf, ih]

theorem integrate_secondDiffs (p d : G) (ts : List G) :
    integrate p d (secondDiffs p d ts) = ts := by
  induction ts generalizing p d with
  | nil => rfl
  | cons t ts ih =>
    have hdelta : d + (t - p - d) = t - p := by grind
    have hnext : p + (t - p) = t := by grind
    rw [secondDiffs_cons, integrate_cons, hdelta, hnext, ih]

theorem take_integrate (p d : G) (as bs : List G) :
    (integrate p d (as ++ bs)).take as.length = integrate p d as := by
  induction as generalizing p d with
  | nil => simp [integrate_nil]
  | cons a as ih => simp [integrate_cons, ih]

theorem integrate_injective (p d : G) : ∀ {as bs : List G},
    integrate p d as = integrate p d bs → as = bs := by
  intro as
  induction as generalizing p d with
  | nil =>
    intro bs h
    cases bs with
    | nil => rfl
    | cons b bs => exact absurd h (by simp [integrate_nil, integrate_cons])
  | cons a as ih =>
    intro bs h
    cases bs with
    | nil => exact absurd h (by simp [integrate_nil, integrate_cons])
    | cons b bs =>
      rw [integrate_cons, integrate_cons, List.cons.injEq] at h
      have hab : a = b := by grind
      subst hab
      rw [ih _ _ h.2]

/-- **Altering second differences is seen**: the sequence comes back exactly when every second
difference did. -/
theorem integrate_map_eq_iff (f : G → G) (p d : G) (ts : List G) :
    integrate p d ((secondDiffs p d ts).map f) = ts ↔ ∀ dd ∈ secondDiffs p d ts, f dd = dd := by
  have hmap : (secondDiffs p d ts).map f = secondDiffs p d ts
      ↔ ∀ dd ∈ secondDiffs p d ts, f dd = dd := by
    conv_lhs => rhs; rw [← List.map_id (secondDiffs p d ts)]
    exact List.map_inj_left
  rw [← hmap]
  constructor
  · intro h
    exact integrate_injective p d (h.trans (integrate_secondDiffs p d ts).symm)
  · intro h
    rw [h, integrate_secondDiffs]

theorem integrate_replicate_zero (p d : G) (k : Nat) :
    integrate p d (List.replicate k 0) = continued p d k := by
  induction k generalizing p with
  | zero => rfl
  | succ k ih =>
    have hd : d + 0 = d := by grind
    rw [List.replicate_succ, integrate_cons, continued_succ, hd, ih]

/-- Zeros after the last second difference continue the sequence by its last step. -/
theorem integrate_append_zeros (p d : G) (dds : List G) (k : Nat) :
    integrate p d (dds ++ List.replicate k 0)
      = integrate p d dds ++ continued (lastStep p d (integrate p d dds)).1
          (lastStep p d (integrate p d dds)).2 k := by
  induction dds generalizing p d with
  | nil => exact integrate_replicate_zero p d k
  | cons dd dds ih =>
    have hdelta : p + (d + dd) - p = d + dd := by grind
    rw [List.cons_append, integrate_cons, integrate_cons, ih, lastStep_cons, hdelta,
      List.cons_append]

end Lib
end MiniTSDB
