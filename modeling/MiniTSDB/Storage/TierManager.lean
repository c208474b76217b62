import MiniTSDB.Lib.Local
import MiniTSDB.Storage.TagDir
import Mathlib.Logic.Function.Basic

/-!
# `TierManager` (`tier_manager.cpp`)

Files that have not been written to for long go from the hot tier to the cold one, and from there
to an archive. Each call to the operating system may fail, and which does is given from outside.

The two passes look at one file after the other, and no file's turn touches another's
(`localStep_moveFile`, `localStep_pruneFile`), so what becomes of a file is what its own turn makes
of it: `move_keepsAll_iff`, `prune_keepsAll_iff`.
-/

namespace MiniTSDB
namespace Storage

open Lib

/-- A file of a tier. `lastWriteMs` is what `LastWriteTimeMs` says, -1 where it fails. -/
structure TierFile where
  data : Bytes
  lastWriteMs : Int
  deriving DecidableEq, Repr

/-- The directory of a tag, and a name in it. -/
abbrev FilePlace := Bytes × Bytes

/-- The files of a tier. -/
abbrev Tier := FilePlace → Option TierFile

/-- What listing a tier, directory by directory, may give. -/
structure Tier.Lists (tier : Tier) (order : List FilePlace) : Prop where
  nodup : order.Nodup
  mem_iff : ∀ f, f ∈ order ↔ (tier f).isSome

/-- The bytes are under that name. -/
def Tier.Holds (tier : Tier) (f : FilePlace) (data : Bytes) : Prop :=
  (tier f).map TierFile.data = some data

/-- `cutoff_ms`. -/
def cutoffMs (nowMs : Int) (retentionDays : Int) : Int := nowMs - 24 * 3600 * 1000 * retentionDays

/-- The file is one to move: an SSTable last written to before the cutoff. -/
def isExpired (cutoff : Int) (f : FilePlace) (file : TierFile) : Bool :=
  isSst f.2 ∧ file.lastWriteMs ≥ 0 ∧ file.lastWriteMs < cutoff

/-! ## From the hot tier to the cold one -/

/-- What becomes of `fs::Copy`: `true`, or it stops before or after the target is opened. -/
inductive CopyOutcome
  | whole
  | notOpened
  | stopped (bytes : Nat)
  deriving DecidableEq, Repr

/-- What becomes of the calls for one file. A `Rename` fails also where the directory of the target
could not be made. -/
structure MoveOutcome where
  renamed : Bool
  copied : CopyOutcome
  removed : Bool
  deriving DecidableEq, Repr

structure MoveState where
  hot : Tier
  cold : Tier

/-- The turn of one file in `MoveExpiredHotToCold`. -/
def moveFile (outcome : FilePlace → MoveOutcome) (nowMs cutoff : Int) (s : MoveState)
    (f : FilePlace) : MoveState :=
  match s.hot f with
  | none => s
  | some file =>
    if isExpired cutoff f file then
      if (outcome f).renamed then
        { hot := Function.update s.hot f none, cold := Function.update s.cold f (some file) }
      else
        match (outcome f).copied with
        | .whole =>
          { hot := if (outcome f).removed then Function.update s.hot f none else s.hot
            cold := Function.update s.cold f (some { file with lastWriteMs := nowMs }) }
        | .notOpened => s
        | .stopped bytes =>
          let left : TierFile := { data := file.data.take bytes, lastWriteMs := nowMs }
          { s with cold := Function.update s.cold f (some left) }
    else s

/-- `MoveExpiredHotToCold`. -/
def moveExpiredHotToCold (outcome : FilePlace → MoveOutcome) (nowMs retentionDays : Int)
    (order : List FilePlace) (s : MoveState) : MoveState :=
  order.foldl (moveFile outcome nowMs (cutoffMs nowMs retentionDays)) s

/-- Every SSTable of either tier is still in one of them. -/
def MoveKeepsAll (before after : MoveState) : Prop :=
  ∀ f data, isSst f.2 = true → before.hot.Holds f data ∨ before.cold.Holds f data →
    after.hot.Holds f data ∨ after.cold.Holds f data

/-- What is in the cold tier under the name of a file to be moved there is left as it is, or has
the same bytes. -/
def ColdSpared (outcome : MoveOutcome) (hot cold : Bytes) : Prop :=
  cold = hot ∨ (outcome.renamed = false ∧ match outcome.copied with
    | .whole => False
    | .notOpened => True
    | .stopped bytes => cold = hot.take bytes)

theorem localStep_moveFile (outcome : FilePlace → MoveOutcome) (nowMs cutoff : Int) :
    LocalStep (fun (s : MoveState) f => (s.hot f, s.cold f))
      (moveFile outcome nowMs cutoff) where
  frame s f other hne := by
    unfold moveFile
    split
    · rfl
    · split
      · split
        · simp [Function.update_of_ne hne]
        · split
          · split <;> simp [Function.update_of_ne hne]
          · rfl
          · simp [Function.update_of_ne hne]
      · rfl
  reads s t f h := by
    obtain ⟨hhot, hcold⟩ := Prod.mk.inj h
    unfold moveFile
    rw [hhot]
    split
    · exact h
    · split
      · split
        · simp
        · split
          · split
            · simp
            · simp [hhot]
          · exact h
          · simp [hhot]
      · exact h

/-- What does not come up is not there. -/
theorem Tier.Lists.eq_none {tier : Tier} {order : List FilePlace} (h : tier.Lists order)
    {f : FilePlace} (hnot : f ∉ order) : tier f = none := by
  rw [h.mem_iff, Option.not_isSome_iff_eq_none] at hnot
  exact hnot

/-- What a pass leaves of a place is what the turn of the place leaves. -/
theorem move_place {outcome : FilePlace → MoveOutcome} {nowMs retentionDays : Int}
    {order : List FilePlace} {s : MoveState} (hlist : s.hot.Lists order) (f : FilePlace) :
    (moveExpiredHotToCold outcome nowMs retentionDays order s).hot f
        = (moveFile outcome nowMs (cutoffMs nowMs retentionDays) s f).hot f ∧
      (moveExpiredHotToCold outcome nowMs retentionDays order s).cold f
        = (moveFile outcome nowMs (cutoffMs nowMs retentionDays) s f).cold f := by
  apply Prod.mk.inj
  apply (localStep_moveFile outcome nowMs (cutoffMs nowMs retentionDays)).view_foldl_of_idle
    hlist.nodup
  intro hnot
  rw [moveFile, hlist.eq_none hnot]

theorem holds_iff {tier : Tier} {f : FilePlace} {file : TierFile} (h : tier f = some file)
    {data : Bytes} : tier.Holds f data ↔ file.data = data := by
  rw [Tier.Holds, h, Option.map_some, Option.some.injEq]

theorem not_holds {tier : Tier} {f : FilePlace} (h : tier f = none) {data : Bytes} :
    ¬ tier.Holds f data := by
  rw [Tier.Holds, h]
  exact fun h => nomatch h

/-- What is in the hot tier is kept by every turn. -/
theorem moveFile_keeps_hot {outcome : FilePlace → MoveOutcome} {nowMs cutoff : Int}
    {s : MoveState} {f : FilePlace} {data : Bytes} (h : s.hot.Holds f data) :
    (moveFile outcome nowMs cutoff s f).hot.Holds f data ∨
      (moveFile outcome nowMs cutoff s f).cold.Holds f data := by
  unfold moveFile
  split
  · exact .inl h
  case h_2 file hfile =>
    have hdata := (holds_iff hfile).mp h
    split
    · split
      · right
        simp [Tier.Holds, hdata]
      · split
        · right
          simp [Tier.Holds, hdata]
        · exact .inl h
        · exact .inl h
    · exact .inl h

/-- What is in the cold tier is kept unless the turn puts something else there. -/
theorem moveFile_keeps_cold_iff {outcome : FilePlace → MoveOutcome} {nowMs cutoff : Int}
    {s : MoveState} {f : FilePlace} {cold : TierFile} (hcold : s.cold f = some cold) :
    ((moveFile outcome nowMs cutoff s f).hot.Holds f cold.data ∨
      (moveFile outcome nowMs cutoff s f).cold.Holds f cold.data) ↔
        ∀ hot, s.hot f = some hot → isExpired cutoff f hot = true →
          ColdSpared (outcome f) hot.data cold.data := by
  have hthere : s.cold.Holds f cold.data := (holds_iff hcold).mpr rfl
  unfold moveFile
  split
  case h_1 hnone =>
    rw [hnone]
    exact ⟨fun _ _ h => (nomatch h), fun _ => .inr hthere⟩
  case h_2 hot hhot =>
    have hsame : ∀ P : TierFile → Prop, (∀ h, s.hot f = some h → P h) ↔ P hot := by
      intro P
      rw [hhot]
      exact ⟨fun h => h hot rfl, fun h _ heq => Option.some.inj heq ▸ h⟩
    rw [hsame]
    split
    case isFalse hnot => exact ⟨fun _ h => absurd h hnot, fun _ => .inr hthere⟩
    case isTrue hexpired =>
      -- the ways a move can go, in the order of `moveFile`
      simp only [hexpired, true_imp_iff]
      unfold ColdSpared
      split
      case isTrue hrenamed =>
        simp only [Tier.Holds, Function.update_self, Option.map_none, reduceCtorEq, false_or,
          Option.map_some, Option.some.injEq, hrenamed, false_and, or_false]
        exact eq_comm
      case isFalse hrenamed =>
        rw [Bool.not_eq_true] at hrenamed
        split
        case h_1 =>
          simp only [and_false, or_false]
          constructor
          · intro h
            cases h with
            | inl h =>
              split at h
              · exact absurd h (not_holds (by simp))
              · exact ((holds_iff hhot).mp h).symm
            | inr h =>
              simp only [Tier.Holds, Function.update_self, Option.map_some,
                Option.some.injEq] at h
              exact h.symm
          · intro h
            right
            simp [Tier.Holds, h]
        case h_2 =>
          simp only [hrenamed, and_self, or_true, iff_true]
          exact .inr hthere
        case h_3 bytes _ =>
          simp only [hrenamed, true_and]
          rw [holds_iff hhot]
          simp only [Tier.Holds, Function.update_self, Option.map_some, Option.some.injEq]
          exact or_congr eq_comm eq_comm

/-- **Moving to the cold tier keeps every SSTable unless a file is moved over another.** -/
theorem move_keepsAll_iff {outcome : FilePlace → MoveOutcome} {nowMs retentionDays : Int}
    {order : List FilePlace} {s : MoveState} (hlist : s.hot.Lists order) :
    MoveKeepsAll s (moveExpiredHotToCold outcome nowMs retentionDays order s) ↔
      ∀ f hot cold, s.hot f = some hot → s.cold f = some cold →
        isExpired (cutoffMs nowMs retentionDays) f hot = true →
          ColdSpared (outcome f) hot.data cold.data := by
  have hafter : ∀ f data,
      ((moveExpiredHotToCold outcome nowMs retentionDays order s).hot.Holds f data ∨
        (moveExpiredHotToCold outcome nowMs retentionDays order s).cold.Holds f data) ↔
      ((moveFile outcome nowMs (cutoffMs nowMs retentionDays) s f).hot.Holds f data ∨
        (moveFile outcome nowMs (cutoffMs nowMs retentionDays) s f).cold.Holds f data) := by
    intro f data
    unfold Tier.Holds
    rw [(move_place hlist f).1, (move_place hlist f).2]
  constructor
  · intro hall f hot cold hhot hcold hexpired
    have hsst : isSst f.2 = true := (of_decide_eq_true hexpired).1
    have hkept := hall f cold.data hsst (.inr ((holds_iff hcold).mpr rfl))
    exact (moveFile_keeps_cold_iff hcold).mp ((hafter f cold.data).mp hkept) hot hhot hexpired
  · intro hspared f data _ hthere
    rw [hafter]
    cases hthere with
    | inl hhot => exact moveFile_keeps_hot hhot
    | inr hin =>
      obtain ⟨cold, hcold, rfl⟩ := Option.map_eq_some_iff.mp hin
      exact (moveFile_keeps_cold_iff hcold).mpr fun hot hhot => hspared f hot cold hhot hcold

/-- One expired file, and nothing in the cold tier. -/
def oneExpired : MoveState where
  hot f := if f = (ascii "a", ascii "1.sst") then some { data := [1], lastWriteMs := 0 } else none
  cold _ := none

theorem lists_oneExpired : oneExpired.hot.Lists [(ascii "a", ascii "1.sst")] where
  nodup := List.nodup_singleton _
  mem_iff f := by
    rw [List.mem_singleton]
    unfold oneExpired
    dsimp only
    split
    case isTrue h => simp [h]
    case isFalse h => simp [h]

/-- All goes well with no file under the name. -/
theorem move_keepsAll_fresh : MoveKeepsAll oneExpired (moveExpiredHotToCold
    (fun _ => { renamed := true, copied := .whole, removed := true }) 1 0
    [(ascii "a", ascii "1.sst")] oneExpired) :=
  (move_keepsAll_iff lists_oneExpired).mpr fun _ _ _ _ hcold => nomatch hcold

/-- And there is one in the cold tier. -/
def sameName : MoveState :=
  { oneExpired with cold := fun _ => some { data := [2], lastWriteMs := 0 } }

/-- The rename replaces it. -/
theorem move_overwrites : ¬ MoveKeepsAll sameName (moveExpiredHotToCold
    (fun _ => { renamed := true, copied := .whole, removed := true }) 1 0
    [(ascii "a", ascii "1.sst")] sameName) := by
  intro hall
  have hkept := hall (ascii "a", ascii "1.sst") [2] (by decide) (.inr rfl)
  cases hkept with
  | inl hhot => exact absurd hhot (not_holds rfl)
  | inr hcold => exact absurd ((holds_iff rfl).mp hcold) (by decide)

/-! ## From the cold tier to the archive -/

/-- What becomes of the calls for one file. A `Rename` fails also where the directory of the target
could not be made, and between volumes. -/
structure PruneOutcome where
  renamed : Bool
  removed : Bool
  deriving DecidableEq, Repr

structure PruneState where
  cold : Tier
  archive : Tier

/-- `ArchiveToExternal`. The file gets the path in the archive that it has in the cold tier. -/
def archiveToExternal (outcome : FilePlace → PruneOutcome) (s : PruneState) (f : FilePlace) :
    PruneState :=
  if (outcome f).renamed then
    { cold := Function.update s.cold f none, archive := Function.update s.archive f (s.cold f) }
  else s

/-- The turn of one file in `PruneExpiredCold`. Removing what is not there changes nothing. -/
def pruneFile (archivePath : Bytes) (outcome : FilePlace → PruneOutcome) (cutoff : Int)
    (s : PruneState) (f : FilePlace) : PruneState :=
  match s.cold f with
  | none => s
  | some file =>
    if isExpired cutoff f file then
      let s := if archivePath.isEmpty then s else archiveToExternal outcome s f
      if (outcome f).removed then { s with cold := Function.update s.cold f none } else s
    else s

/-- `PruneExpiredCold`. -/
def pruneExpiredCold (archivePath : Bytes) (outcome : FilePlace → PruneOutcome)
    (nowMs retentionDays : Int) (order : List FilePlace) (s : PruneState) : PruneState :=
  order.foldl (pruneFile archivePath outcome (cutoffMs nowMs retentionDays)) s

/-- Every SSTable of the cold tier is in it still, or in the archive. -/
def PruneKeepsAll (before after : PruneState) : Prop :=
  ∀ f data, isSst f.2 = true → before.cold.Holds f data →
    after.cold.Holds f data ∨ after.archive.Holds f data

/-- No file of the cold tier has the name of one in the archive. -/
def NamesFree (s : PruneState) : Prop := ∀ f, (s.cold f).isSome = true → s.archive f = none

theorem localStep_pruneFile (archivePath : Bytes) (outcome : FilePlace → PruneOutcome)
    (cutoff : Int) : LocalStep (fun (s : PruneState) f => (s.cold f, s.archive f))
      (pruneFile archivePath outcome cutoff) where
  frame s f other hne := by
    unfold pruneFile archiveToExternal
    dsimp only
    split
    · rfl
    · split
      · cases archivePath.isEmpty <;> cases (outcome f).renamed <;> cases (outcome f).removed <;>
          simp [Function.update_of_ne hne]
      · rfl
  reads s t f h := by
    obtain ⟨hcold, harchive⟩ := Prod.mk.inj h
    unfold pruneFile archiveToExternal
    rw [hcold]
    dsimp only
    split
    · exact h
    · split
      · cases archivePath.isEmpty <;> cases (outcome f).renamed <;> cases (outcome f).removed <;>
          simp [hcold, harchive]
      · exact h

theorem prune_place {archivePath : Bytes} {outcome : FilePlace → PruneOutcome}
    {nowMs retentionDays : Int} {order : List FilePlace} {s : PruneState}
    (hlist : s.cold.Lists order) (f : FilePlace) :
    (pruneExpiredCold archivePath outcome nowMs retentionDays order s).cold f
        = (pruneFile archivePath outcome (cutoffMs nowMs retentionDays) s f).cold f ∧
      (pruneExpiredCold archivePath outcome nowMs retentionDays order s).archive f
        = (pruneFile archivePath outcome (cutoffMs nowMs retentionDays) s f).archive f := by
  apply Prod.mk.inj
  apply (localStep_pruneFile archivePath outcome
    (cutoffMs nowMs retentionDays)).view_foldl_of_idle hlist.nodup
  intro hnot
  rw [pruneFile, hlist.eq_none hnot]

/-- With an archive, a file is kept unless its rename fails and its removal does not. -/
theorem pruneFile_keeps_iff {archivePath : Bytes} {outcome : FilePlace → PruneOutcome}
    {cutoff : Int} {s : PruneState} {f : FilePlace} {file : TierFile} (harchive : archivePath ≠ [])
    (hfile : s.cold f = some file) (hfree : s.archive f = none) :
    ((pruneFile archivePath outcome cutoff s f).cold.Holds f file.data ∨
      (pruneFile archivePath outcome cutoff s f).archive.Holds f file.data) ↔
        (isExpired cutoff f file = true →
          (outcome f).renamed = true ∨ (outcome f).removed = false) := by
  have hthere : s.cold.Holds f file.data := (holds_iff hfile).mpr rfl
  have hpath : archivePath.isEmpty = false := List.isEmpty_eq_false_iff.mpr harchive
  unfold pruneFile archiveToExternal
  rw [hfile, hpath]
  dsimp only
  by_cases hexpired : isExpired cutoff f file = true
  · simp only [hexpired, if_true, Bool.false_eq_true, if_false, true_imp_iff]
    cases hrenamed : (outcome f).renamed with
    | true =>
      -- the file is in the archive, whatever becomes of its old name
      simp only [if_true, true_or, iff_true]
      right
      cases (outcome f).removed with
      | true => simp [Tier.Holds]
      | false => simp [Tier.Holds]
    | false =>
      simp only [Bool.false_eq_true, if_false, false_or]
      cases (outcome f).removed with
      | true => simp [Tier.Holds, hfree]
      | false => exact ⟨fun _ => rfl, fun _ => .inl hthere⟩
  · rw [if_neg hexpired]
    exact ⟨fun _ h => absurd h hexpired, fun _ => .inl hthere⟩

/-- **Pruning with an archive loses the files that it removes and could not archive.** -/
theorem prune_keepsAll_iff {archivePath : Bytes} {outcome : FilePlace → PruneOutcome}
    {nowMs retentionDays : Int} {order : List FilePlace} {s : PruneState}
    (harchive : archivePath ≠ []) (hlist : s.cold.Lists order) (hfree : NamesFree s) :
    PruneKeepsAll s (pruneExpiredCold archivePath outcome nowMs retentionDays order s) ↔
      ∀ f file, s.cold f = some file → isExpired (cutoffMs nowMs retentionDays) f file = true →
        (outcome f).renamed = true ∨ (outcome f).removed = false := by
  have hafter : ∀ f data,
      ((pruneExpiredCold archivePath outcome nowMs retentionDays order s).cold.Holds f data ∨
        (pruneExpiredCold archivePath outcome nowMs retentionDays order s).archive.Holds f data) ↔
      ((pruneFile archivePath outcome (cutoffMs nowMs retentionDays) s f).cold.Holds f data ∨
        (pruneFile archivePath outcome (cutoffMs nowMs retentionDays) s f).archive.Holds
          f data) := by
    intro f data
    unfold Tier.Holds
    rw [(prune_place hlist f).1, (prune_place hlist f).2]
  constructor
  · intro hall f file hfile hexpired
    have hsst : isSst f.2 = true := (of_decide_eq_true hexpired).1
    have hname : s.archive f = none := hfree f (by rw [hfile]; rfl)
    have hkept := hall f file.data hsst ((holds_iff hfile).mpr rfl)
    exact (pruneFile_keeps_iff harchive hfile hname).mp ((hafter f file.data).mp hkept) hexpired
  · intro hkept f data _ hthere
    rw [hafter]
    obtain ⟨file, hfile, rfl⟩ := Option.map_eq_some_iff.mp hthere
    have hname : s.archive f = none := hfree f (by rw [hfile]; rfl)
    exact (pruneFile_keeps_iff harchive hfile hname).mpr (hkept f file hfile)

/-- One expired file in the cold tier. -/
def oneToArchive : PruneState := { cold := oneExpired.hot, archive := oneExpired.cold }

theorem prune_keepsAll_renamed : PruneKeepsAll oneToArchive (pruneExpiredCold (ascii "/archive")
    (fun _ => { renamed := true, removed := true }) 1 0 [(ascii "a", ascii "1.sst")]
    oneToArchive) :=
  (prune_keepsAll_iff (by decide) lists_oneExpired fun _ _ => rfl).mpr
    fun _ _ _ _ => .inl rfl

/-- The archive is on another volume: the rename fails, and the file is removed. -/
theorem prune_loses : NamesFree oneToArchive ∧ ¬ PruneKeepsAll oneToArchive
    (pruneExpiredCold (ascii "/archive") (fun _ => { renamed := false, removed := true }) 1 0
      [(ascii "a", ascii "1.sst")] oneToArchive) := by
  refine ⟨fun _ _ => rfl, ?_⟩
  intro hall
  have hkept := hall (ascii "a", ascii "1.sst") [1] (by decide) rfl
  cases hkept with
  | inl hcold => exact absurd hcold (not_holds rfl)
  | inr harchive => exact absurd harchive (not_holds rfl)

end Storage
end MiniTSDB
