import MiniTSDB.Os.Copy
import MiniTSDB.Storage.TierManager

/-!
# The copies of `MoveExpiredHotToCold`

Where a `Rename` fails the file is copied, by the loops of `fs::Copy` over `read` and `write`. The
pass is here with these loops in it. It is the pass of which only the outcomes are known
(`moveByCopy_eq`), and these are all there are (`exists_copyOutcome_iff`).
-/

namespace MiniTSDB
namespace Storage

open Lib Os

/-- What the calls for one file return. -/
structure MoveCalls where
  renamed : Bool
  copy : CopyCalls
  removed : Bool

/-- The turn of one file, with the loops of `Copy`. -/
def moveFileByCopy (calls : FilePlace → MoveCalls) (nowMs cutoff : Int) (s : MoveState)
    (f : FilePlace) : MoveState :=
  match s.hot f with
  | none => s
  | some file =>
    if isExpired cutoff f file then
      if (calls f).renamed then
        { hot := Function.update s.hot f none, cold := Function.update s.cold f (some file) }
      else
        match copy (calls f).copy file.data with
        | (_, none) => s
        | (ok, some target) =>
          { hot := if ok ∧ (calls f).removed then Function.update s.hot f none else s.hot
            cold := Function.update s.cold f (some { data := target, lastWriteMs := nowMs }) }
    else s

/-- `MoveExpiredHotToCold`, with the loops of `Copy`. -/
def moveByCopy (calls : FilePlace → MoveCalls) (nowMs retentionDays : Int)
    (order : List FilePlace) (s : MoveState) : MoveState :=
  order.foldl (moveFileByCopy calls nowMs (cutoffMs nowMs retentionDays)) s

/-! ## The outcomes -/

/-- What becomes of the copy of these bytes. -/
def copyOutcome (calls : CopyCalls) (source : Bytes) : CopyOutcome :=
  match copy calls source with
  | (_, none) => .notOpened
  | (true, some _) => .whole
  | (false, some target) => .stopped target.length

/-- What becomes of the calls for a file of these bytes. -/
def MoveCalls.outcome (calls : MoveCalls) (source : Bytes) : MoveOutcome :=
  { renamed := calls.renamed, copied := copyOutcome calls.copy source, removed := calls.removed }

/-- The outcomes for the files that the hot tier has. -/
def moveOutcomes (calls : FilePlace → MoveCalls) (hot : Tier) (f : FilePlace) : MoveOutcome :=
  (calls f).outcome (((hot f).map TierFile.data).getD [])

/-! ## One file -/

/-- What `Copy` leaves is told by its outcome. -/
theorem copy_cases (calls : CopyCalls) (source : Bytes) :
    (copyOutcome calls source = .notOpened ∧ copy calls source = (false, none)) ∨
      (copyOutcome calls source = .whole ∧ copy calls source = (true, some source)) ∨
        ∃ k ≤ source.length, copyOutcome calls source = .stopped k ∧
          copy calls source = (false, some (source.take k)) := by
  obtain ⟨k, hk, htarget, hall⟩ := copyLoop_spec calls source [] 0 0
  rw [List.nil_append] at htarget
  unfold copyOutcome copy
  by_cases hopens : calls.opensSource ∧ calls.opensTarget
  · rw [if_pos hopens]
    cases hloop : copyLoop calls source [] 0 0 with
    | mk ok target =>
      rw [hloop] at htarget hall
      obtain rfl : target = source.take k := htarget
      cases ok with
      | true =>
        rw [hall rfl, List.take_length]
        exact .inr (.inl ⟨rfl, rfl⟩)
      | false =>
        refine .inr (.inr ⟨k, hk, ?_, rfl⟩)
        show CopyOutcome.stopped (source.take k).length = .stopped k
        rw [List.length_take, Nat.min_eq_left hk]
  · rw [if_neg hopens]
    exact .inl ⟨rfl, rfl⟩

/-- **The turn of one file goes by the outcome.** -/
theorem moveFileByCopy_eq {calls : FilePlace → MoveCalls} {nowMs cutoff : Int} {s : MoveState}
    {f : FilePlace} {outcome : FilePlace → MoveOutcome}
    (h : ∀ file, s.hot f = some file → outcome f = (calls f).outcome file.data) :
    moveFileByCopy calls nowMs cutoff s f = moveFile outcome nowMs cutoff s f := by
  unfold moveFileByCopy moveFile
  cases hfile : s.hot f with
  | none => rfl
  | some file =>
    rw [h file hfile, MoveCalls.outcome]
    dsimp only
    rcases copy_cases (calls f).copy file.data with ⟨hcase, hcopy⟩ | ⟨hcase, hcopy⟩ |
      ⟨k, hk, hcase, hcopy⟩
    · rw [hcase, hcopy]
    · rw [hcase, hcopy]
      cases (calls f).removed <;> rfl
    · rw [hcase, hcopy]
      rfl

/-- **These are all the outcomes there are**: a copy that does not get to its end may stop after
any number of bytes. -/
theorem exists_copyOutcome_iff {source : Bytes} {outcome : CopyOutcome} :
    (∃ calls, copyOutcome calls source = outcome) ↔
      ∀ k, outcome = .stopped k → k ≤ source.length := by
  constructor
  · rintro ⟨calls, rfl⟩ k hk
    rcases copy_cases calls source with ⟨hcase, -⟩ | ⟨hcase, -⟩ | ⟨k', hk', hcase, -⟩
    · rw [hcase] at hk
      cases hk
    · rw [hcase] at hk
      cases hk
    · rw [hcase] at hk
      cases hk
      exact hk'
  · intro h
    cases outcome with
    | whole =>
      refine ⟨readsDownTo 0 false (fun _ => rfl), ?_⟩
      rw [copyOutcome, copy_readsDownTo (Nat.zero_le _)]
      rfl
    | notOpened =>
      refine ⟨{ readsDownTo 0 false (fun _ => rfl) with opensSource := false }, ?_⟩
      rw [copyOutcome, copy, if_neg (by simp)]
    | stopped k =>
      have hk : k ≤ source.length := h k rfl
      refine ⟨readsDownTo (source.length - k) true (absurd · Bool.true_eq_false_eq_False), ?_⟩
      rw [copyOutcome, copy_readsDownTo (Nat.sub_le _ _)]
      show CopyOutcome.stopped _ = .stopped k
      rw [List.length_take, Nat.sub_sub_self hk, Nat.min_eq_left hk]

/-! ## The pass -/

theorem foldl_moveFileByCopy {calls : FilePlace → MoveCalls} {nowMs cutoff : Int}
    {order : List FilePlace} (hnodup : order.Nodup) {s : MoveState}
    {outcome : FilePlace → MoveOutcome}
    (h : ∀ f ∈ order, ∀ file, s.hot f = some file → outcome f = (calls f).outcome file.data) :
    order.foldl (moveFileByCopy calls nowMs cutoff) s
      = order.foldl (moveFile outcome nowMs cutoff) s := by
  induction order generalizing s with
  | nil => rfl
  | cons f order ih =>
    obtain ⟨hnew, hnodup⟩ := List.nodup_cons.mp hnodup
    rw [List.foldl_cons, List.foldl_cons, moveFileByCopy_eq (h f List.mem_cons_self)]
    refine ih hnodup fun other hother file hfile => ?_
    -- the turn of `f` has left the other files in the hot tier as they were
    have hne : other ≠ f := fun heq => hnew (heq ▸ hother)
    have hsame : (moveFile outcome nowMs cutoff s f).hot other = s.hot other :=
      (Prod.mk.inj ((localStep_moveFile outcome nowMs cutoff).frame s f other hne)).1
    rw [hsame] at hfile
    exact h other (List.mem_cons_of_mem f hother) file hfile

/-- **The pass with the loops in it is the pass by outcomes.** -/
theorem moveByCopy_eq (calls : FilePlace → MoveCalls) (nowMs retentionDays : Int)
    {order : List FilePlace} (hnodup : order.Nodup) (s : MoveState) :
    moveByCopy calls nowMs retentionDays order s
      = moveExpiredHotToCold (moveOutcomes calls s.hot) nowMs retentionDays order s := by
  refine foldl_moveFileByCopy hnodup fun f _ file hfile => ?_
  rw [moveOutcomes, hfile]
  rfl

theorem tornCopy_fails (h : true = false) : 1 = 0 := nomatch h

/-- The rename fails, and so does the copy, one byte before its end. -/
def tornCopy (_ : FilePlace) : MoveCalls where
  renamed := false
  copy := readsDownTo 1 true tornCopy_fails
  removed := true

/-- The file stays where it is, and an empty one is left in the cold tier. -/
theorem moveByCopy_eq_torn :
    (moveByCopy tornCopy 1 0 [(ascii "a", ascii "1.sst")] oneExpired).hot = oneExpired.hot ∧
      (moveByCopy tornCopy 1 0 [(ascii "a", ascii "1.sst")] oneExpired).cold
          (ascii "a", ascii "1.sst") = some { data := [], lastWriteMs := 1 } := by
  rw [moveByCopy_eq tornCopy 1 0 (List.nodup_singleton _) oneExpired]
  have hfile : oneExpired.hot (ascii "a", ascii "1.sst") = some { data := [1], lastWriteMs := 0 } :=
    rfl
  have hcopied : copyOutcome (readsDownTo 1 true tornCopy_fails) [1] = .stopped 0 := by
    rw [copyOutcome, copy_readsDownTo (show 1 ≤ [(1 : UInt8)].length by decide)]
    rfl
  have houtcome : moveOutcomes tornCopy oneExpired.hot (ascii "a", ascii "1.sst")
      = { renamed := false, copied := .stopped 0, removed := true } := by
    rw [← hcopied]
    rfl
  have hexpired : isExpired (cutoffMs 1 0) (ascii "a", ascii "1.sst")
      { data := [1], lastWriteMs := 0 } = true := by decide
  rw [moveExpiredHotToCold, List.foldl_cons, List.foldl_nil, moveFile, hfile, houtcome]
  dsimp only
  rw [if_pos hexpired, if_neg Bool.false_ne_true]
  refine ⟨rfl, ?_⟩
  dsimp only
  rw [Function.update_self, List.take_zero]

end Storage
end MiniTSDB
