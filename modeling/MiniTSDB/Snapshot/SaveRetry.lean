import MiniTSDB.Snapshot.SaveLoop

/-!
# A save that fails

A save takes the flag before it knows how it ends, and what `SaveToFile` returns is not looked at.
When the last save of a run has failed, `Shutdown` saves again only if an `OnWrite` has come since;
otherwise the file is the one the failed save has left, which is none, or a part of one
(`retried_iff`).
-/

namespace MiniTSDB
namespace Snapshot

open Lib Os

/-- A part of a message is no message of the same entries: each field says where it ends. -/
def SnapshotFormat.TellsCut (format : SnapshotFormat) : Prop :=
  ∀ (now now' : Int64) (order order' : List CachedSnapshot) (n : Nat), order.Perm order' →
    format.serialize (snapshotFile now' order')
        = (format.serialize (snapshotFile now order)).take n →
      (format.serialize (snapshotFile now order)).length ≤ n

/-! ## What a failed save leaves -/

theorem Holds.lookup {format : SnapshotFormat} {d : Dir} {m : SnapshotMap}
    (h : Holds format d m) : ∃ data, d.lookup snapshotPath = some (.file data) := by
  obtain ⟨now, order, -, hread⟩ := h
  unfold Dir.readFile at hread
  split at hread
  case h_1 data hlookup => exact ⟨data, hlookup⟩
  case h_2 => cases hread

/-- Moving the file away leaves one only if there is a directory in its way. -/
theorem holds_backup_iff {format : SnapshotFormat} {d : Dir} {m : SnapshotMap} :
    Holds format (backup d) m ↔ d.isDir bakPath = true ∧ Holds format d m := by
  constructor
  · intro h
    obtain ⟨data, hlookup⟩ := h.lookup
    have hbackup : backup d
        = if (d.lookup snapshotPath).isSome then (d.rename snapshotPath bakPath).getD d else d := rfl
    cases hfile : d.lookup snapshotPath with
    | none =>
      rw [hbackup, hfile, Option.isSome_none, if_neg Bool.false_ne_true, hfile] at hlookup
      cases hlookup
    | some node =>
      rw [hfile, Option.isSome_some, if_pos rfl] at hbackup
      cases hmoved : d.rename snapshotPath bakPath with
      | none =>
        rw [hmoved, Option.getD_none] at hbackup
        rw [hbackup] at h hlookup
        rcases Dir.rename_file hlookup bakPath with ⟨⟨empty, hdir⟩, -⟩ | hrenamed
        · exact ⟨by rw [Dir.isDir, hdir], h⟩
        · rw [hmoved] at hrenamed
          cases hrenamed
      | some d' =>
        rw [hmoved, Option.getD_some] at hbackup
        rw [hbackup, Dir.lookup_rename snapshotPath_ne_bakPath hmoved] at hlookup
        cases hlookup
  · rintro ⟨hdir, h⟩
    obtain ⟨data, hlookup⟩ := h.lookup
    have hsame : backup d = d := by
      unfold backup Dir.rename
      unfold Dir.isDir at hdir
      split at hdir
      case h_1 empty hbak => simp only [hlookup, hbak, Option.isSome_some, if_true, Option.getD_none]
      case h_2 => cases hdir
    rw [hsame]
    exact h

variable {Thread : Type} [DecidableEq Thread] {format : SnapshotFormat} {s₀ s s₁ t : Store Thread}
  {labels : List (Label Thread)} {written : Option Nat}

/-- **From the last save that failed on**: the directory is as it was left, and so is the map if
nothing is pending. -/
theorem LastFailed.left (hstart : s₀.Fresh) (h : LastFailed format s₀ labels s written s₁) :
    Wrote labels ∧ ∃ now order, Leaves format s₁.dir now order written s.dir ∧
      (s.saver = .idle → s.Pending ∨ s.map.Lists order) := by
  induction h with
  | fail hrun hstep =>
    have hinv := inv_run hstart hrun
    cases hstep with
    | @fail now order _ d hsaver hleaves =>
      have hwrote := hinv.wrote (.inr (by rw [hsaver]; exact fun heq => nomatch heq))
      exact ⟨hwrote.concat _, now, order, hleaves, fun _ => hinv.writing now order hsaver⟩
  | @later labels s s₁ t written a _ hstep hgoes ih =>
    obtain ⟨hwrote, now, order, hleaves, hidle⟩ := ih
    refine ⟨hwrote.concat _, now, order, ?_⟩
    cases hstep with
    | put hmark => exact ⟨hleaves, fun _ => .inl (pending_put _ _ _)⟩
    | mark hmark => exact ⟨hleaves, fun _ => .inl (Or.inl rfl)⟩
    | exchange hsaver =>
      refine ⟨hleaves, ?_⟩
      cases hdirty : s.dirty with
      | true => exact fun hafter => nomatch hafter
      | false =>
        have hsame := exchange_clean hsaver hdirty
        rw [hdirty] at hsame
        rw [hsame]
        exact hidle
    | read hsaver horder => exact ⟨hleaves, fun hafter => nomatch hafter⟩
    | write hsaver hsave => cases hgoes
    | fail hsaver hfails => cases hgoes

/-- What is left holds the map only if the file has not been touched. -/
theorem Leaves.holds_iff (hformat : format.TellsCut) {d d' : Dir} {now : Int64}
    {order : List CachedSnapshot} {m : SnapshotMap} (h : Leaves format d now order written d')
    (horder : m.Lists order) :
    Holds format d' m ↔ written = none ∧ d.isDir bakPath = true ∧ Holds format d m := by
  cases h with
  | notOpened =>
    rw [holds_backup_iff]
    exact ⟨fun hholds => ⟨rfl, hholds⟩, fun hholds => hholds.2⟩
  | written n _ hn hsave =>
    refine ⟨?_, fun hholds => nomatch hholds.1⟩
    rintro ⟨now', order', horder', hread⟩
    rw [Dir.create_eq_some hsave, Dir.readFile_set_file, Option.some.injEq] at hread
    exact absurd (hformat now now' order order' n (horder.perm horder') hread.symm)
      (Nat.not_le.mpr hn)

theorem serialize_smallFormat (now : Int64) (order : List CachedSnapshot) :
    smallFormat.serialize (snapshotFile now order)
      = (if now = 0 then [] else [8, now.toUInt64.toUInt8])
        ++ (16 :: 1 :: (order.map Field.entry).flatMap smallFormat.encode) := by
  rw [SnapshotFormat.serialize, fields_snapshotFile, List.flatMap_append, scalars]
  split
  · rfl
  · rfl

/-- A message with the time in it begins with another byte than one without. -/
theorem smallFormat_tellsCut : smallFormat.TellsCut := by
  intro now now' order order' n hperm hcut
  have hentries : ((order.map Field.entry).flatMap smallFormat.encode).length
      = ((order'.map Field.entry).flatMap smallFormat.encode).length :=
    ((hperm.map Field.entry).flatMap_right smallFormat.encode).length_eq
  by_contra hn
  have hlen := congrArg List.length hcut
  rw [List.length_take, Nat.min_eq_left (Nat.le_of_not_le hn)] at hlen
  rw [serialize_smallFormat] at hn hlen hcut
  rw [serialize_smallFormat] at hcut
  by_cases hnow : now = 0
  · by_cases hnow' : now' = 0
    · simp only [hnow, hnow', if_true, List.length_append, List.length_cons, List.length_nil]
        at hn hlen
      omega
    · cases n with
      | zero => simp [hnow'] at hlen
      | succ n => simp [hnow, hnow'] at hcut
  · by_cases hnow' : now' = 0
    · cases n with
      | zero => simp [hnow'] at hlen
      | succ n => simp [hnow, hnow'] at hcut
    · simp only [hnow, hnow', if_false, List.length_append, List.length_cons, List.length_nil]
        at hn hlen
      omega

/-- The save has failed: the file could not be opened. -/
def failedStore : Store Unit where
  map := SnapshotMap.empty.onWrite (ascii "a") pointA
  marking := Function.update (Function.update (fun _ => false) () true) () false
  dir := .empty

theorem quiet_failedStore : failedStore.Quiet := ⟨fun thread => by cases thread; rfl, rfl⟩

theorem run_failedStore : Run (Step smallFormat) freshStore
    [.put () (ascii "a") pointA, .mark (), .exchange, .read 2 [entryA 1], .fail none] failedStore :=
  Run.snoc run_savingStore (.fail rfl .notOpened)

end Snapshot
end MiniTSDB
