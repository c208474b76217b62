import MiniTSDB.Lib.Runs
import MiniTSDB.Storage.TierManager

/-!
# The tiers over time (`tier_manager.cpp`)

`RunOnce` again and again, and in between the flushes that put files into the hot tier and the
compactions that take them out of it. Whatever fails, a file is in one of the tiers for as long as
it is to be retained (`retained_run`). Where nothing fails, the tier it is in depends on the last
look at the clock alone, and not on when, or how often, `RunOnce` has been called (`staged_run`).
-/

namespace MiniTSDB
namespace Storage

open Lib

/-! ## `RunOnce` -/

/-- What a `TierManager` is made with, but for the paths of the tiers. -/
structure TierConfig where
  archivePath : Bytes
  hotRetentionDays : Int
  coldRetentionDays : Int

/-- The three tiers. -/
structure Tiered where
  hot : Tier
  cold : Tier
  archive : Tier

/-- A call of `RunOnce`. Each half of it looks at the clock, and at the directories. -/
structure Pass where
  moveMs : Int
  pruneMs : Int
  hotOrder : List FilePlace
  coldOrder : List FilePlace
  moved : FilePlace → MoveOutcome
  pruned : FilePlace → PruneOutcome

/-- After the first half. -/
def Tiered.move (config : TierConfig) (pass : Pass) (s : Tiered) : MoveState :=
  moveExpiredHotToCold pass.moved pass.moveMs config.hotRetentionDays pass.hotOrder
    { hot := s.hot, cold := s.cold }

/-- `RunOnce`. -/
def runOnce (config : TierConfig) (pass : Pass) (s : Tiered) : Tiered :=
  let moved := s.move config pass
  let pruned := pruneExpiredCold config.archivePath pass.pruned pass.pruneMs
    config.coldRetentionDays pass.coldOrder { cold := moved.cold, archive := s.archive }
  { hot := moved.hot, cold := pruned.cold, archive := pruned.archive }

/-- What the directories are when they are listed. -/
def Pass.Listed (config : TierConfig) (pass : Pass) (s : Tiered) : Prop :=
  s.hot.Lists pass.hotOrder ∧ (s.move config pass).cold.Lists pass.coldOrder

inductive TierOp
  | written (f : FilePlace) (data : Bytes) (nowMs : Int)
  | removed (f : FilePlace)
  | passed (pass : Pass)

/-- A file of the hot tier is written, or removed, or `RunOnce` is called. -/
def TierStep (config : TierConfig) (s : Tiered) : TierOp → Tiered → Prop
  | .written f data nowMs, s' =>
    s' = { s with hot := Function.update s.hot f (some { data, lastWriteMs := nowMs }) }
  | .removed f, s' => s' = { s with hot := Function.update s.hot f none }
  | .passed pass, s' => pass.Listed config s ∧ s' = runOnce config pass s

/-- The files that are written or removed have another name. -/
def TierOp.Elsewhere (f : FilePlace) : TierOp → Prop
  | .written other _ _ => f ≠ other
  | .removed other => f ≠ other
  | .passed _ => True

/-- **What passes keep of a place, runs keep**, where nothing else is written or removed under its
name. -/
theorem place_run {config : TierConfig} {s s' : Tiered} {f : FilePlace} {ops : List TierOp}
    {P : Tiered → Prop} (hrun : Run (TierStep config) s ops s')
    (helsewhere : ∀ op ∈ ops, op.Elsewhere f)
    (hsame : ∀ t u : Tiered, u.hot f = t.hot f → u.cold f = t.cold f → u.archive f = t.archive f →
      P t → P u)
    (hpass : ∀ pass t, .passed pass ∈ ops → pass.Listed config t → P t → P (runOnce config pass t))
    (hstart : P s) : P s' := by
  induction hrun with
  | start => exact hstart
  | @snoc ops t u op _ hstep ih =>
    have hbefore := ih (fun op hop => helsewhere op (List.mem_append_left _ hop))
      (fun pass t hmem => hpass pass t (List.mem_append_left _ hmem))
    have hother := helsewhere op List.mem_concat_self
    cases op with
    | written other data nowMs =>
      obtain rfl := show u = _ from hstep
      exact hsame t _ (Function.update_of_ne hother _ _) rfl rfl hbefore
    | removed other =>
      obtain rfl := show u = _ from hstep
      exact hsame t _ (Function.update_of_ne hother _ _) rfl rfl hbefore
    | passed pass =>
      obtain ⟨hlisted, rfl⟩ := hstep
      exact hpass pass t List.mem_concat_self hlisted hbefore

/-! ## One place -/

section Turn

variable {config : TierConfig} {pass : Pass} {s : Tiered} {f : FilePlace}

/-- The turn of a file in the first half of a pass, -/
def Pass.moveTurn (config : TierConfig) (pass : Pass) (s : Tiered) (f : FilePlace) : MoveState :=
  moveFile pass.moved pass.moveMs (cutoffMs pass.moveMs config.hotRetentionDays)
    { hot := s.hot, cold := s.cold } f

/-- and in the second. -/
def Pass.pruneTurn (config : TierConfig) (pass : Pass) (s : Tiered) (f : FilePlace) : PruneState :=
  pruneFile config.archivePath pass.pruned (cutoffMs pass.pruneMs config.coldRetentionDays)
    { cold := (s.move config pass).cold, archive := s.archive } f

/-- A pass does to a place what its two turns do to it. -/
theorem runOnce_place (hlisted : pass.Listed config s) :
    (runOnce config pass s).hot f = (pass.moveTurn config s f).hot f ∧
      (s.move config pass).cold f = (pass.moveTurn config s f).cold f ∧
      (runOnce config pass s).cold f = (pass.pruneTurn config s f).cold f ∧
      (runOnce config pass s).archive f = (pass.pruneTurn config s f).archive f := by
  obtain ⟨hhot, hcold⟩ := hlisted
  obtain ⟨hmove, hmove'⟩ : (s.move config pass).hot f = (pass.moveTurn config s f).hot f ∧
      (s.move config pass).cold f = (pass.moveTurn config s f).cold f := move_place hhot f
  have hprune : (runOnce config pass s).cold f = (pass.pruneTurn config s f).cold f ∧
      (runOnce config pass s).archive f = (pass.pruneTurn config s f).archive f :=
    prune_place hcold f
  exact ⟨hmove, hmove', hprune⟩

theorem not_expired_of_le {cutoff : Int} {file : TierFile} (h : cutoff ≤ file.lastWriteMs) :
    isExpired cutoff f file = false := by
  apply decide_eq_false
  rintro ⟨-, -, hlt⟩
  omega

end Turn

/-! ## Files are retained -/

/-- The file is in the hot tier, or only in the cold one, or only in the archive; in the first two
it has not been written to before `since`. -/
def Retained (f : FilePlace) (data : Bytes) (since : Int) (s : Tiered) : Prop :=
  (∃ file, s.hot f = some file ∧ file.data = data ∧ since ≤ file.lastWriteMs) ∨
    (s.hot f = none ∧ ∃ file, s.cold f = some file ∧ file.data = data ∧ since ≤ file.lastWriteMs) ∨
    (s.hot f = none ∧ s.cold f = none ∧ s.archive.Holds f data)

/-- The pass looks at the clock after `since`, and if what is as old as that is no longer to be
retained, it gets into the archive, or is not removed. -/
structure Pass.Spares (config : TierConfig) (pass : Pass) (f : FilePlace) (since : Int) : Prop where
  after : since ≤ pass.moveMs
  spared : cutoffMs pass.pruneMs config.coldRetentionDays ≤ since ∨
    (config.archivePath ≠ [] ∧ (pass.pruned f).renamed = true) ∨ (pass.pruned f).removed = false

section Retained

variable {config : TierConfig} {pass : Pass} {s : Tiered} {f : FilePlace} {data : Bytes}
variable {since : Int}

/-- The first half of a pass: a file stays, or it goes to the cold tier. -/
theorem retained_moveTurn {file : TierFile} (hafter : since ≤ pass.moveMs)
    (hfile : s.hot f = some file) (hdata : file.data = data) (hsince : since ≤ file.lastWriteMs) :
    (pass.moveTurn config s f).hot f = some file ∨
      (pass.moveTurn config s f).hot f = none ∧ ∃ file,
        (pass.moveTurn config s f).cold f = some file ∧ file.data = data ∧
          since ≤ file.lastWriteMs := by
  unfold Pass.moveTurn moveFile
  dsimp only
  rw [hfile]
  dsimp only
  split
  case isFalse => exact .inl hfile
  case isTrue hexpired =>
    split
    case isTrue hrenamed =>
      right
      simp [hdata, hsince]
    case isFalse hrenamed =>
      split
      case h_1 hcopied =>
        -- the copy is written now
        split
        · right
          simp [hdata, hafter]
        · exact .inl hfile
      case h_2 => exact .inl hfile
      case h_3 => exact .inl hfile

/-- The second half. -/
theorem retained_pruneTurn {file : TierFile} (hspares : pass.Spares config f since)
    (hfile : (s.move config pass).cold f = some file) (hdata : file.data = data)
    (hsince : since ≤ file.lastWriteMs) :
    (pass.pruneTurn config s f).cold f = some file ∨
      (pass.pruneTurn config s f).cold f = none ∧
        (pass.pruneTurn config s f).archive.Holds f data := by
  unfold Pass.pruneTurn pruneFile archiveToExternal
  dsimp only
  rw [hfile]
  dsimp only
  split
  case isFalse => exact .inl hfile
  case isTrue hexpired =>
    rcases hspares.spared with hyoung | ⟨harchive, hrenamed⟩ | hremoved
    · have hnot := not_expired_of_le (f := f) (hyoung.trans hsince)
      rw [hnot] at hexpired
      cases hexpired
    · right
      rw [List.isEmpty_eq_false_iff.mpr harchive, hrenamed]
      cases (pass.pruned f).removed with
      | true => simp [Tier.Holds, hdata]
      | false => simp [Tier.Holds, hdata]
    · rw [hremoved]
      cases config.archivePath.isEmpty with
      | true => exact .inl (by simpa using hfile)
      | false =>
        cases (pass.pruned f).renamed with
        | true => exact .inr (by simp [Tier.Holds, hdata])
        | false => exact .inl (by simpa using hfile)

/-- Where there is nothing, nothing is moved or archived. -/
theorem idle_moveTurn (config : TierConfig) (pass : Pass) (hnone : s.hot f = none) :
    (pass.moveTurn config s f).hot f = none ∧ (pass.moveTurn config s f).cold f = s.cold f := by
  unfold Pass.moveTurn moveFile
  dsimp only
  rw [hnone]
  exact ⟨hnone, rfl⟩

theorem idle_pruneTurn (hnone : (s.move config pass).cold f = none) :
    (pass.pruneTurn config s f).cold f = none ∧
      (pass.pruneTurn config s f).archive f = s.archive f := by
  unfold Pass.pruneTurn pruneFile
  dsimp only
  rw [hnone]
  exact ⟨hnone, rfl⟩

/-- **A pass retains a file**, whatever fails in it. -/
theorem retained_runOnce (hlisted : pass.Listed config s) (hspares : pass.Spares config f since)
    (h : Retained f data since s) : Retained f data since (runOnce config pass s) := by
  obtain ⟨hhot, hmoved, hcold, harchive⟩ := runOnce_place hlisted
  -- the two ways it goes on with a file that is only in the cold tier after the first half
  have hpruned : (runOnce config pass s).hot f = none → ∀ file,
      (s.move config pass).cold f = some file → file.data = data → since ≤ file.lastWriteMs →
        Retained f data since (runOnce config pass s) := by
    intro hnone file hfile hdata hsince
    rcases retained_pruneTurn hspares hfile hdata hsince with hstays | ⟨hgone, hin⟩
    · exact .inr (.inl ⟨hnone, file, hcold.trans hstays, hdata, hsince⟩)
    · refine .inr (.inr ⟨hnone, hcold.trans hgone, ?_⟩)
      rw [Tier.Holds, harchive]
      exact hin
  rcases h with ⟨file, hfile, hdata, hsince⟩ | ⟨hnone, file, hfile, hdata, hsince⟩ |
    ⟨hnone, hnone', hin⟩
  · rcases retained_moveTurn hspares.after hfile hdata hsince with
      hstays | ⟨hgone, file', hfile', hdata', hsince'⟩
    · exact .inl ⟨file, hhot.trans hstays, hdata, hsince⟩
    · exact hpruned (hhot.trans hgone) file' (hmoved.trans hfile') hdata' hsince'
  · obtain ⟨hidle, hidle'⟩ := idle_moveTurn config pass hnone
    exact hpruned (hhot.trans hidle) file (hmoved.trans (hidle'.trans hfile)) hdata hsince
  · obtain ⟨hidle, hidle'⟩ := idle_moveTurn config pass hnone
    obtain ⟨hidle₂, hidle₂'⟩ := idle_pruneTurn (hmoved.trans (hidle'.trans hnone'))
    refine .inr (.inr ⟨hhot.trans hidle, hcold.trans hidle₂, ?_⟩)
    rw [Tier.Holds, harchive, hidle₂']
    exact hin

/-- **A file is retained**: whatever happens to other files, and whatever fails, what is written to
the hot tier is there, or in the cold tier, or in the archive, as long as no pass comes to it that
is to remove it. -/
theorem retained_run {config : TierConfig} {s s' : Tiered} {f : FilePlace} {data : Bytes}
    {since : Int} {ops : List TierOp} (hrun : Run (TierStep config) s ops s')
    (hwritten : s.hot f = some { data, lastWriteMs := since })
    (helsewhere : ∀ op ∈ ops, op.Elsewhere f)
    (hspares : ∀ pass, .passed pass ∈ ops → pass.Spares config f since) :
    s'.hot.Holds f data ∨ s'.cold.Holds f data ∨ s'.archive.Holds f data := by
  have hretained : Retained f data since s' := by
    refine place_run hrun helsewhere ?_ ?_ (.inl ⟨_, hwritten, rfl, le_rfl⟩)
    · intro t u hhot hcold harchive h
      unfold Retained Tier.Holds
      rw [hhot, hcold, harchive]
      exact h
    · intro pass t hmem hlisted h
      exact retained_runOnce hlisted (hspares pass hmem) h
  rcases hretained with ⟨file, hfile, hdata, -⟩ | ⟨-, file, hfile, hdata, -⟩ | ⟨-, -, hin⟩
  · exact .inl ((holds_iff hfile).mpr hdata)
  · exact .inr (.inl ((holds_iff hfile).mpr hdata))
  · exact .inr (.inr hin)

end Retained

/-! ## Where a file is -/

/-- How far a file has come. -/
inductive Stage
  | hot
  | cold
  | gone
  deriving DecidableEq, Repr

/-- What is under the name of the file at a stage. -/
def Stage.At (config : TierConfig) (f : FilePlace) (file : TierFile) (s : Tiered) : Stage → Prop
  | .hot => s.hot f = some file ∧ s.cold f = none ∧ s.archive f = none
  | .cold => s.hot f = none ∧ s.cold f = some file ∧ s.archive f = none
  | .gone => s.hot f = none ∧ s.cold f = none ∧
      s.archive f = if config.archivePath = [] then none else some file

/-- The stage that two looks at the clock call for. -/
def stageFor (config : TierConfig) (f : FilePlace) (file : TierFile) (moveMs pruneMs : Int) :
    Stage :=
  if isExpired (cutoffMs moveMs config.hotRetentionDays) f file then
    if isExpired (cutoffMs pruneMs config.coldRetentionDays) f file then .gone else .cold
  else .hot

/-- What a pass makes of a stage. -/
def Stage.pass (config : TierConfig) (f : FilePlace) (file : TierFile) (pass : Pass) :
    Stage → Stage
  | .hot => stageFor config f file pass.moveMs pass.pruneMs
  | .cold =>
    if isExpired (cutoffMs pass.pruneMs config.coldRetentionDays) f file then .gone else .cold
  | .gone => .gone

/-- No call of the pass fails. -/
structure Pass.Succeeds (pass : Pass) : Prop where
  moved : ∀ f, (pass.moved f).renamed = true
  archived : ∀ f, (pass.pruned f).renamed = true
  removed : ∀ f, (pass.pruned f).removed = true

section Staged

variable {config : TierConfig} {pass : Pass} {s : Tiered} {f : FilePlace} {file : TierFile}

/-- An expired file is renamed, and another is left. -/
theorem moveFile_renamed {outcome : FilePlace → MoveOutcome} {nowMs cutoff : Int} {s : MoveState}
    (hfile : s.hot f = some file) (hrenamed : (outcome f).renamed = true) :
    moveFile outcome nowMs cutoff s f = if isExpired cutoff f file then
        { hot := Function.update s.hot f none, cold := Function.update s.cold f (some file) }
      else s := by
  rw [moveFile, hfile, hrenamed]
  rfl

/-- An expired file of the cold tier is gone after the second half, and another is not. -/
theorem pruneTurn_cold (hall : pass.Succeeds) (hcold : (s.move config pass).cold f = some file)
    (harchive : s.archive f = none) :
    ((pass.pruneTurn config s f).cold f, (pass.pruneTurn config s f).archive f)
      = if isExpired (cutoffMs pass.pruneMs config.coldRetentionDays) f file then
          (none, if config.archivePath = [] then none else some file)
        else (some file, none) := by
  unfold Pass.pruneTurn pruneFile archiveToExternal
  dsimp only
  rw [hcold]
  dsimp only
  split
  case isFalse => exact Prod.ext hcold harchive
  case isTrue =>
    rw [hall.archived f, hall.removed f]
    cases hpath : config.archivePath with
    | nil => simp [harchive]
    | cons c path => simp

/-- **A pass makes of a stage what it is to be.** -/
theorem stage_runOnce (hlisted : pass.Listed config s) (hall : pass.Succeeds) {stage : Stage}
    (h : stage.At config f file s) :
    (stage.pass config f file pass).At config f file (runOnce config pass s) := by
  obtain ⟨hhot', hmoved, hcold', harchive'⟩ := runOnce_place (f := f) hlisted
  -- what the second half makes of a file that the first leaves in the cold tier
  have hpruned : (runOnce config pass s).hot f = none → (s.move config pass).cold f = some file →
      s.archive f = none →
      (if isExpired (cutoffMs pass.pruneMs config.coldRetentionDays) f file then Stage.gone
        else .cold).At config f file (runOnce config pass s) := by
    intro hnone hcold harchive
    have hturn := pruneTurn_cold hall hcold harchive
    split
    case isTrue hexpired =>
      rw [if_pos hexpired] at hturn
      obtain ⟨hleft, hright⟩ := Prod.mk.inj hturn
      exact ⟨hnone, hcold'.trans hleft, harchive'.trans hright⟩
    case isFalse hyoung =>
      rw [if_neg hyoung] at hturn
      obtain ⟨hleft, hright⟩ := Prod.mk.inj hturn
      exact ⟨hnone, hcold'.trans hleft, harchive'.trans hright⟩
  cases stage with
  | hot =>
    obtain ⟨hhot, hcold, harchive⟩ := h
    have hmove : pass.moveTurn config s f = _ := moveFile_renamed hhot (hall.moved f)
    rw [hmove] at hhot' hmoved
    rw [Stage.pass, stageFor]
    split
    case isTrue hexpired =>
      rw [if_pos hexpired] at hhot' hmoved
      exact hpruned (hhot'.trans (Function.update_self ..)) (hmoved.trans (Function.update_self ..))
        harchive
    case isFalse hyoung =>
      rw [if_neg hyoung] at hhot' hmoved
      obtain ⟨hidle, hidle'⟩ := idle_pruneTurn (hmoved.trans hcold)
      exact ⟨hhot'.trans hhot, hcold'.trans hidle, harchive'.trans (hidle'.trans harchive)⟩
  | cold =>
    obtain ⟨hhot, hcold, harchive⟩ := h
    obtain ⟨hidle, hidle'⟩ := idle_moveTurn config pass hhot
    exact hpruned (hhot'.trans hidle) (hmoved.trans (hidle'.trans hcold)) harchive
  | gone =>
    obtain ⟨hhot, hcold, harchive⟩ := h
    obtain ⟨hidle, hidle'⟩ := idle_moveTurn config pass hhot
    obtain ⟨hidle₂, hidle₂'⟩ := idle_pruneTurn (hmoved.trans (hidle'.trans hcold))
    exact ⟨hhot'.trans hidle, hcold'.trans hidle₂, harchive'.trans (hidle₂'.trans harchive)⟩

/-- What has expired by a time has expired by a later one. -/
theorem isExpired_mono {cutoff cutoff' : Int} (hle : cutoff ≤ cutoff')
    (h : isExpired cutoff f file = true) : isExpired cutoff' f file = true := by
  obtain ⟨hsst, hknown, hlt⟩ := of_decide_eq_true h
  exact decide_eq_true ⟨hsst, hknown, hlt.trans_le hle⟩

/-- A stage that the clock calls for at its latest, or one before it. -/
def Stage.Reached (config : TierConfig) (f : FilePlace) (file : TierFile) (moveMs pruneMs : Int) :
    Stage → Prop
  | .hot => True
  | .cold => isExpired (cutoffMs moveMs config.hotRetentionDays) f file = true
  | .gone => isExpired (cutoffMs moveMs config.hotRetentionDays) f file = true ∧
      isExpired (cutoffMs pruneMs config.coldRetentionDays) f file = true

theorem reached_pass {moveMs pruneMs : Int} (hmove : pass.moveMs ≤ moveMs)
    (hprune : pass.pruneMs ≤ pruneMs) {stage : Stage}
    (h : stage.Reached config f file moveMs pruneMs) :
    (stage.pass config f file pass).Reached config f file moveMs pruneMs := by
  have hhot : isExpired (cutoffMs pass.moveMs config.hotRetentionDays) f file = true →
      isExpired (cutoffMs moveMs config.hotRetentionDays) f file = true :=
    isExpired_mono (Int.sub_le_sub_right hmove _)
  have hcold : isExpired (cutoffMs pass.pruneMs config.coldRetentionDays) f file = true →
      isExpired (cutoffMs pruneMs config.coldRetentionDays) f file = true :=
    isExpired_mono (Int.sub_le_sub_right hprune _)
  cases stage with
  | hot =>
    rw [Stage.pass, stageFor]
    split
    case isFalse => trivial
    case isTrue hexpired =>
      split
      case isTrue hexpired' => exact ⟨hhot hexpired, hcold hexpired'⟩
      case isFalse => exact hhot hexpired
  | cold =>
    rw [Stage.pass]
    split
    case isTrue hexpired => exact ⟨h, hcold hexpired⟩
    case isFalse => exact h
  | gone => exact h

/-- A pass at that time leads where the clock says. -/
theorem pass_of_reached {stage : Stage} (h : stage.Reached config f file pass.moveMs pass.pruneMs) :
    stage.pass config f file pass = stageFor config f file pass.moveMs pass.pruneMs := by
  cases stage with
  | hot => rfl
  | cold =>
    rw [Stage.Reached] at h
    rw [Stage.pass, stageFor, if_pos h]
  | gone => rw [Stage.pass, stageFor, if_pos h.1, if_pos h.2]

/-- **Where a file is depends on the last look at the clock alone.** However often `RunOnce` was
called before, and whenever, and whatever became of other files: if no call failed, then after a
pass that looks at the clock last the file is where its age says. -/
theorem staged_run {ops : List TierOp} {s' : Tiered} {last : Pass}
    (hrun : Run (TierStep config) s (ops ++ [.passed last]) s')
    (hstart : Stage.hot.At config f file s) (helsewhere : ∀ op ∈ ops, op.Elsewhere f)
    (hall : ∀ pass, .passed pass ∈ ops ++ [.passed last] → pass.Succeeds)
    (hlast : ∀ pass, .passed pass ∈ ops → pass.moveMs ≤ last.moveMs ∧ pass.pruneMs ≤ last.pruneMs) :
    (stageFor config f file last.moveMs last.pruneMs).At config f file s' := by
  obtain ⟨t, hbefore, hlisted, rfl⟩ := hrun.of_concat
  have hall' : ∀ pass, .passed pass ∈ ops → pass.Succeeds :=
    fun pass hmem => hall pass (List.mem_append_left _ hmem)
  -- up to the last pass the file is at a stage that the last look at the clock calls for as well
  obtain ⟨stage, hat, hreached⟩ : ∃ stage : Stage, stage.At config f file t ∧
      stage.Reached config f file last.moveMs last.pruneMs := by
    refine place_run (P := fun t => ∃ stage : Stage, stage.At config f file t ∧
      stage.Reached config f file last.moveMs last.pruneMs) hbefore helsewhere ?_ ?_
      ⟨.hot, hstart, trivial⟩
    · rintro t u hhot hcold harchive ⟨stage, hat, hreached⟩
      refine ⟨stage, ?_, hreached⟩
      cases stage <;> exact ⟨hhot.trans hat.1, hcold.trans hat.2.1, harchive.trans hat.2.2⟩
    · rintro pass t hmem hlisted ⟨stage, hat, hreached⟩
      obtain ⟨hmove, hprune⟩ := hlast pass hmem
      exact ⟨_, stage_runOnce hlisted (hall' pass hmem) hat, reached_pass hmove hprune hreached⟩
  rw [← pass_of_reached hreached]
  exact stage_runOnce hlisted (hall last List.mem_concat_self) hat

end Staged

/-! ## A run -/

/-- What is moved after a day is archived after another. -/
def archiving : TierConfig where
  archivePath := ascii "/archive"
  hotRetentionDays := 1
  coldRetentionDays := 2

/-- One file, in the hot tier. -/
def oneWritten : Tiered :=
  { hot := oneExpired.hot, cold := oneExpired.cold, archive := oneExpired.cold }

theorem hot_oneWritten : oneWritten.hot (ascii "a", ascii "1.sst")
    = some { data := [1], lastWriteMs := 0 } := rfl

/-- A `RunOnce` that comes to the file in both halves. -/
def passAt (nowMs : Int) : Pass where
  moveMs := nowMs
  pruneMs := nowMs
  hotOrder := [(ascii "a", ascii "1.sst")]
  coldOrder := [(ascii "a", ascii "1.sst")]
  moved _ := { renamed := true, copied := .whole, removed := true }
  pruned _ := { renamed := true, removed := true }

/-- After a day the first half leaves the file in the cold tier. -/
theorem listed_passAt {nowMs : Int} (h : 86400000 < nowMs) :
    (passAt nowMs).Listed archiving oneWritten := by
  refine ⟨lists_oneExpired, List.nodup_singleton _, ?_⟩
  have hexpired : isExpired (cutoffMs nowMs 1) (ascii "a", ascii "1.sst")
      { data := [1], lastWriteMs := 0 } = true := by
    refine decide_eq_true ⟨by decide, le_rfl, ?_⟩
    unfold cutoffMs
    dsimp only
    omega
  intro f
  have hmoved : (oneWritten.move archiving (passAt nowMs)).cold
      = Function.update (fun _ => none) (ascii "a", ascii "1.sst")
          (some { data := [1], lastWriteMs := 0 }) := by
    show (moveFile (passAt nowMs).moved nowMs (cutoffMs nowMs 1)
      { hot := oneWritten.hot, cold := oneWritten.cold } (ascii "a", ascii "1.sst")).cold = _
    rw [moveFile_renamed hot_oneWritten rfl, if_pos hexpired]
    rfl
  rw [hmoved, passAt, List.mem_singleton]
  by_cases hf : f = (ascii "a", ascii "1.sst")
  · rw [hf, Function.update_self]
    simp
  · rw [Function.update_of_ne hf]
    simp [hf]

theorem run_passAt {nowMs : Int} (h : 86400000 < nowMs) : Run (TierStep archiving) oneWritten
    ([] ++ [.passed (passAt nowMs)]) (runOnce archiving (passAt nowMs) oneWritten) :=
  .snoc .start ⟨listed_passAt h, rfl⟩

/-- On the second day, a file is still somewhere. -/
theorem retained_second_day :
    (runOnce archiving (passAt 90000000) oneWritten).hot.Holds (ascii "a", ascii "1.sst") [1] ∨
      (runOnce archiving (passAt 90000000) oneWritten).cold.Holds (ascii "a", ascii "1.sst") [1] ∨
        (runOnce archiving (passAt 90000000) oneWritten).archive.Holds (ascii "a", ascii "1.sst")
          [1] := by
  refine retained_run (run_passAt (by decide)) hot_oneWritten ?_ ?_
  · intro op hop
    obtain rfl := List.mem_singleton.mp hop
    trivial
  · intro pass hpass
    obtain rfl := TierOp.passed.inj (List.mem_singleton.mp hpass)
    exact ⟨by decide, .inl (by decide)⟩

/-- After the second day it is in the archive. -/
theorem staged_third_day : Stage.gone.At archiving (ascii "a", ascii "1.sst")
    { data := [1], lastWriteMs := 0 } (runOnce archiving (passAt 180000000) oneWritten) := by
  refine staged_run (run_passAt (by decide)) ⟨hot_oneWritten, rfl, rfl⟩
    (fun _ hop => nomatch hop) ?_ (fun _ hpass => nomatch hpass)
  intro pass hpass
  obtain rfl := TierOp.passed.inj (List.mem_singleton.mp hpass)
  exact ⟨fun _ => rfl, fun _ => rfl, fun _ => rfl⟩

end Storage
end MiniTSDB
