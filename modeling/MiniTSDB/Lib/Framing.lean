import Mathlib.Data.List.Basic

/-!
# Files of frames

A log is a concatenation of frames, and its reader takes one frame after the other off the
front, until the bytes run out or a frame cannot be read. A `FrameReader` is such a reader with
the two facts that matter about it: a whole frame is read, whatever follows, and a frame that the
file ends in the middle of is not.

    loop (frames.flatMap encode ++ rest) = frames ++ loop rest      (`loop_append`)
    loop ((frames.flatMap encode).take k) = the frames within k     (`loop_take`)

Nothing is assumed of bytes that are no frame, so nothing is said of what the reader makes of
frames that come after a broken one.
-/

namespace MiniTSDB
namespace Lib

/-- A reader of frames: `ι` is what is written, `α` what is read of it, `β` a byte, and `σ` the
state of the reader, of which `rest` is still ahead. -/
structure FrameReader (ι α β σ : Type) where
  encode : ι → List β
  value : ι → α
  rest : σ → List β
  next : σ → Option (α × σ)
  loop : σ → List α
  loop_end : ∀ s, rest s = [] → loop s = []
  loop_none : ∀ s, next s = none → loop s = []
  loop_some : ∀ s a s', rest s ≠ [] → next s = some (a, s') → loop s = a :: loop s'
  whole : ∀ s i r, rest s = encode i ++ r → ∃ s', next s = some (value i, s') ∧ rest s' = r
  torn : ∀ s i n, n < (encode i).length → rest s = (encode i).take n → next s = none
  encode_ne_nil : ∀ i, encode i ≠ []

/-- The frames that lie wholly within the first `k` bytes. -/
def wholeWithin {ι β : Type} (encode : ι → List β) (k : Nat) : List ι → List ι
  | [] => []
  | i :: is =>
    if (encode i).length ≤ k then i :: wholeWithin encode (k - (encode i).length) is else []

theorem map_wholeWithin {ι κ β : Type} (f : ι → κ) (encode : κ → List β) (k : Nat) (is : List ι) :
    (wholeWithin (fun i => encode (f i)) k is).map f = wholeWithin encode k (is.map f) := by
  induction is generalizing k with
  | nil => rfl
  | cons i is ih =>
    simp only [wholeWithin, List.map_cons]
    split
    · rw [List.map_cons, ih]
    · rfl

/-- **A file cut anywhere ends behind a frame or within one.** -/
theorem take_flatMap_cases {ι β : Type} (encode : ι → List β) (is : List ι) (k : Nat) :
    (∃ whole, whole <+: is ∧ (is.flatMap encode).take k = whole.flatMap encode) ∨
      ∃ whole i n, whole ++ [i] <+: is ∧ 0 < n ∧ n < (encode i).length ∧
        (is.flatMap encode).take k = whole.flatMap encode ++ (encode i).take n := by
  induction is generalizing k with
  | nil => exact .inl ⟨[], List.prefix_refl [], List.take_nil⟩
  | cons i is ih =>
    rw [List.flatMap_cons, List.take_append]
    by_cases hk : (encode i).length ≤ k
    · rw [List.take_of_length_le hk]
      cases ih (k - (encode i).length) with
      | inl hwhole =>
        obtain ⟨whole, hle, htake⟩ := hwhole
        exact .inl ⟨i :: whole, (List.prefix_cons_inj i).mpr hle, by rw [htake, List.flatMap_cons]⟩
      | inr htorn =>
        obtain ⟨whole, j, n, hle, hpos, hlt, htake⟩ := htorn
        exact .inr ⟨i :: whole, j, n, (List.prefix_cons_inj i).mpr hle, hpos, hlt,
          by rw [htake, List.flatMap_cons, List.append_assoc]⟩
    · have hzero : k - (encode i).length = 0 := by omega
      rw [hzero, List.take_zero, List.append_nil]
      cases k with
      | zero => exact .inl ⟨[], List.nil_prefix, List.take_zero⟩
      | succ k =>
        refine .inr ⟨[], i, k + 1, ?_, Nat.succ_pos k, Nat.lt_of_not_le hk, rfl⟩
        exact (List.prefix_cons_inj i).mpr List.nil_prefix

namespace FrameReader

variable {ι α β σ : Type} (R : FrameReader ι α β σ)

/-- Whole frames at the front are read, and reading goes on behind them. -/
theorem loop_append (is : List ι) {s : σ} {r : List β} (h : R.rest s = is.flatMap R.encode ++ r) :
    ∃ s', R.rest s' = r ∧ R.loop s = is.map R.value ++ R.loop s' := by
  induction is generalizing s with
  | nil => exact ⟨s, h, rfl⟩
  | cons i is ih =>
    rw [List.flatMap_cons, List.append_assoc] at h
    obtain ⟨s₁, hnext, hrest⟩ := R.whole s i _ h
    obtain ⟨s', hs', hloop⟩ := ih hrest
    have hne : R.rest s ≠ [] := by simp [h, R.encode_ne_nil i]
    exact ⟨s', hs', by rw [R.loop_some s _ s₁ hne hnext, hloop, List.map_cons, List.cons_append]⟩

/-- **A file cut anywhere is read as the frames that lie wholly before the cut.** -/
theorem loop_take (is : List ι) (k : Nat) {s : σ} (h : R.rest s = (is.flatMap R.encode).take k) :
    R.loop s = (wholeWithin R.encode k is).map R.value := by
  induction is generalizing k s with
  | nil => exact R.loop_end s (by simpa using h)
  | cons i is ih =>
    rw [List.flatMap_cons, List.take_append] at h
    rw [wholeWithin]
    split
    case isTrue hk =>
      rw [List.take_of_length_le hk] at h
      obtain ⟨s', hnext, hrest⟩ := R.whole s i _ h
      have hne : R.rest s ≠ [] := by simp [h, R.encode_ne_nil i]
      rw [R.loop_some s _ s' hne hnext, ih _ hrest, List.map_cons]
    case isFalse hk =>
      have hzero : k - (R.encode i).length = 0 := by omega
      rw [hzero, List.take_zero, List.append_nil] at h
      exact R.loop_none s (R.torn s i k (by omega) h)

end FrameReader

end Lib
end MiniTSDB
