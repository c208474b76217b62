import MiniTSDB.Cache.MatchPattern
import MiniTSDB.Snapshot.SnapshotStore

/-!
# What a pattern matches in the snapshot store

This `MatchPattern` is another one than the cache's. Behind a `%` it goes on to the first character
of the tag that is the next one of the pattern, be that a wildcard, and does not come back. So it
matches what can be matched with every `%` as short as that (`matchPattern_iff`), and misses what a
longer one is needed for.
-/

namespace MiniTSDB
namespace Snapshot

open Lib Storage

/-- `SnapshotStore::MatchPattern`. -/
def SnapshotMap.matchPattern : Bytes → Bytes → Bool
  | [], tag => tag.isEmpty
  | q :: pattern, [] => (q :: pattern).all (· = percent)
  | q :: pattern, c :: tag =>
    if q = percent then
      match pattern with
      | [] => true
      | d :: _ =>
        -- on to the next `d`, which is then compared again
        match (c :: tag).dropWhile (· ≠ d) with
        | [] => false
        | rest => matchPattern pattern rest
    else if q = underscore ∨ q = c then matchPattern pattern tag
    else false

/-- `GetByPattern`. -/
def SnapshotMap.getByPattern (order : List CachedSnapshot) (pattern : Bytes) :
    List CachedSnapshot :=
  order.filter fun entry => matchPattern pattern entry.tag

/-- Each `%` that is not the last of the pattern stops at the next character of the pattern, where
that comes first in what is left of the tag. -/
def StopsAtFirst : Bytes → List Bytes → Prop
  | q :: d :: pattern, piece :: pieces =>
    (q = percent → piece ++ pieces.flatten ≠ [] → d ∉ piece ∧ pieces.flatten.head? = some d) ∧
      StopsAtFirst (d :: pattern) pieces
  | _, _ => True

/-- The tag can be cut as `LIKE` asks for, with every `%` that short. -/
def LikeAtFirst (pattern tag : Bytes) : Prop :=
  ∃ pieces, List.Forall₂ (Stands percent underscore) pattern pieces ∧ pieces.flatten = tag ∧
    StopsAtFirst pattern pieces

theorem LikeAtFirst.like {pattern tag : Bytes} (h : LikeAtFirst pattern tag) :
    SqlLike pattern tag := by
  obtain ⟨pieces, hstands, htag, _⟩ := h
  exact ⟨pieces, hstands, htag⟩

/-! ## Character by character -/

section
variable {q c d : UInt8} {pattern tag : Bytes}

theorem likeAtFirst_nil_iff : LikeAtFirst [] tag ↔ tag = [] := by
  constructor
  · intro h
    exact like_nil_iff.mp h.like
  · rintro rfl
    exact ⟨[], .nil, rfl, trivial⟩

theorem stopsAtFirst_cons_iff (hq : q ≠ percent) {piece : Bytes} {pieces : List Bytes} :
    StopsAtFirst (q :: pattern) (piece :: pieces) ↔ StopsAtFirst pattern pieces := by
  cases pattern with
  | nil => simp [StopsAtFirst]
  | cons d pattern => simp [StopsAtFirst, hq]

/-- What is no `%` takes one character. -/
theorem likeAtFirst_cons_cons_iff (hq : q ≠ percent) :
    LikeAtFirst (q :: pattern) (c :: tag) ↔ (q = underscore ∨ q = c) ∧ LikeAtFirst pattern tag := by
  constructor
  · intro ⟨pieces, hstands, htag, hstops⟩
    cases hstands with
    | @cons q piece pattern pieces hpiece hpieces =>
      rw [stopsAtFirst_cons_iff hq] at hstops
      cases hpiece with
      | many => exact absurd rfl hq
      | one e =>
        obtain ⟨-, htail⟩ := List.cons.inj htag
        exact ⟨.inl rfl, pieces, hpieces, htail, hstops⟩
      | self q _ _ =>
        obtain ⟨hc, htail⟩ := List.cons.inj htag
        exact ⟨.inr hc, pieces, hpieces, htail, hstops⟩
  · intro ⟨hc, pieces, hpieces, htag, hstops⟩
    have hstops' : StopsAtFirst (q :: pattern) ([c] :: pieces) := (stopsAtFirst_cons_iff hq).mpr hstops
    refine ⟨[c] :: pieces, .cons ?_ hpieces, ?_, hstops'⟩
    · by_cases hone : q = underscore
      · exact hone ▸ .one c
      · rw [← hc.resolve_left hone]
        exact .self q hq hone
    · rw [List.flatten_cons, htag]
      rfl

/-- Where the tag has ended, only `%` can stand for nothing. -/
theorem likeAtFirst_nil_right_iff :
    LikeAtFirst pattern [] ↔ pattern.all (· = percent) = true := by
  induction pattern with
  | nil => simp [likeAtFirst_nil_iff]
  | cons q pattern ih =>
    rw [List.all_cons, Bool.and_eq_true, decide_eq_true_iff, ← ih]
    constructor
    · intro ⟨pieces, hstands, htag, hstops⟩
      cases hstands with
      | @cons q piece pattern pieces hpiece hpieces =>
        obtain ⟨rfl, hrest⟩ := List.append_eq_nil_iff.mp htag
        have hq : q = percent := by
          cases hpiece with
          | many => rfl
        refine ⟨hq, pieces, hpieces, hrest, ?_⟩
        cases hpieces with
        | nil => trivial
        | cons _ _ => exact hstops.2
    · intro ⟨hq, pieces, hpieces, htag, hstops⟩
      refine ⟨[] :: pieces, .cons (hq ▸ .many []) hpieces, htag, ?_⟩
      cases hpieces with
      | nil => trivial
      | cons _ _ => exact ⟨fun _ hne => absurd htag hne, hstops⟩

/-- A `%` in front of a `d` takes what is in front of the first `d` of the tag. -/
theorem likeAtFirst_percent_iff :
    LikeAtFirst (percent :: d :: pattern) (c :: tag) ↔
      (c :: tag).dropWhile (· ≠ d) ≠ [] ∧
        LikeAtFirst (d :: pattern) ((c :: tag).dropWhile (· ≠ d)) := by
  constructor
  · intro ⟨pieces, hstands, htag, hstops⟩
    cases hstands with
    | @cons q piece pattern pieces hpiece hpieces =>
      obtain ⟨hfirst, hrest⟩ := hstops
      rw [List.flatten_cons] at htag
      obtain ⟨hnot, hhead⟩ := hfirst rfl (by rw [htag]; exact List.cons_ne_nil _ _)
      obtain ⟨behind, hbehind⟩ := List.head?_eq_some_iff.mp hhead
      have hdrop : (c :: tag).dropWhile (· ≠ d) = pieces.flatten := by
        have hpass : ∀ e ∈ piece, decide (e ≠ d) = true := by
          intro e he
          rw [decide_eq_true_iff]
          rintro rfl
          exact hnot he
        rw [← htag, List.dropWhile_append_of_pos hpass, hbehind]
        exact List.dropWhile_cons_of_neg (by simp)
      rw [hdrop, hbehind]
      exact ⟨List.cons_ne_nil _ _, pieces, hpieces, hbehind, hrest⟩
  · intro ⟨hne, pieces, hpieces, htag, hstops⟩
    refine ⟨(c :: tag).takeWhile (· ≠ d) :: pieces, .cons (.many _) hpieces, ?_, ?_, hstops⟩
    · rw [List.flatten_cons, htag]
      exact List.takeWhile_append_dropWhile
    · intro _ _
      rw [htag]
      constructor
      · intro hmem
        have hpass := List.mem_takeWhile_imp hmem
        simp at hpass
      · obtain ⟨e, rest, hcons⟩ := List.exists_cons_of_ne_nil hne
        have hstop := List.head?_dropWhile_not (p := fun e => decide (e ≠ d)) (l := c :: tag)
        rw [hcons] at hstop ⊢
        simpa using hstop

end

/-- **What the matcher decides**, by induction on the pattern. -/
theorem matchPattern_iff {pattern tag : Bytes} :
    SnapshotMap.matchPattern pattern tag = true ↔ LikeAtFirst pattern tag := by
  induction pattern generalizing tag with
  | nil =>
    rw [likeAtFirst_nil_iff, SnapshotMap.matchPattern, List.isEmpty_iff]
  | cons q pattern ih =>
    cases tag with
    | nil => rw [likeAtFirst_nil_right_iff, SnapshotMap.matchPattern]
    | cons c tag =>
      unfold SnapshotMap.matchPattern
      split
      case isTrue hpercent =>
        subst hpercent
        cases pattern with
        | nil =>
          have hlike : LikeAtFirst [percent] (c :: tag) :=
            ⟨[c :: tag], .cons (.many _) .nil, List.flatten_singleton, trivial⟩
          exact iff_of_true rfl hlike
        | cons d pattern =>
          rw [likeAtFirst_percent_iff]
          dsimp only
          split
          case h_1 hdrop =>
            refine iff_of_false Bool.false_ne_true ?_
            intro h
            exact h.1 hdrop
          case h_2 rest hdrop =>
            rw [ih]
            exact (and_iff_right hdrop).symm
      case isFalse hq =>
        rw [likeAtFirst_cons_cons_iff hq, ← ih]
        split
        case isTrue hc => simp [hc]
        case isFalse hc => simp [hc]

/-- **`LIKE` is SQL's for the tags that are not like the pattern, and for those that are so with
every `%` as short as it can be.** -/
theorem snapshot_like_iff (pattern tag : Bytes) :
    (SnapshotMap.matchPattern pattern tag = true ↔ SqlLike pattern tag) ↔
      (SqlLike pattern tag → LikeAtFirst pattern tag) := by
  rw [matchPattern_iff]
  constructor
  · intro hagrees hlike
    exact hagrees.mpr hlike
  · intro himplies
    exact ⟨LikeAtFirst.like, himplies⟩

/-- `%AB` does not match `AAB`: the first `A` is not the one in front of the `B`. -/
theorem snapshot_misses_later :
    ¬ (SnapshotMap.matchPattern (ascii "%AB") (ascii "AAB") = true ↔
      SqlLike (ascii "%AB") (ascii "AAB")) := by
  have hlike : SqlLike (ascii "%AB") (ascii "AAB") :=
    ⟨[ascii "A", ascii "A", ascii "B"], .cons (.many _) (.cons (.self 65 (by decide) (by decide))
      (.cons (.self 66 (by decide) (by decide)) .nil)), rfl⟩
  intro h
  exact absurd (h.mpr hlike) (by decide)

end Snapshot
end MiniTSDB
