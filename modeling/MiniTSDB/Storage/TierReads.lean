import MiniTSDB.Storage.ReadYourWrites
import MiniTSDB.Storage.TierManager

/-!
# Reading a tag whose files have been moved (`ReadRaw` after `MoveExpiredHotToCold`)

`TierManager` moves a file from `hot_path/tags/<tag>` to `cold_path/<tag>`, and `ReadRaw` looks at
the first of these and never at the second. A read is the same before and after a pass exactly where
it did not need a file that was moved (`move_transparent_iff`).
-/

namespace MiniTSDB
namespace Storage

open Lib Os

variable {Loc : Type}

/-- Where the path that `ReadRaw` makes of a tag leads: to a directory that `TierManager` moves files
from, to one that it moves files to (`../../cold/a` is a path too), or elsewhere. -/
inductive TierLoc (Loc : Type)
  | hot (dir : Bytes)
  | cold (dir : Bytes)
  | other (loc : Loc)
  deriving DecidableEq

/-- The directories of the engine have the files of the two tiers. -/
structure Shows (e : Engine (TierLoc Loc)) (s : MoveState) : Prop where
  hot : ∀ f, (e.disk.dirs (.hot f.1)).readFile f.2 = (s.hot f).map TierFile.data
  cold : ∀ f, (e.disk.dirs (.cold f.1)).readFile f.2 = (s.cold f).map TierFile.data

/-- The engine after a pass that leaves the tiers so: it has changed nothing else. -/
structure AfterPass (e e' : Engine (TierLoc Loc)) (s' : MoveState) : Prop where
  shows : Shows e' s'
  other : ∀ loc, e'.disk.dirs (.other loc) = e.disk.dirs (.other loc)
  latest : e'.latest = e.latest

/-- Every file is renamed, or else copied as a whole and removed. -/
def AllSucceed (outcome : FilePlace → MoveOutcome) : Prop :=
  ∀ f, (outcome f).renamed = true ∨ ((outcome f).copied = .whole ∧ (outcome f).removed = true)

/-- The file is one that the pass moves. -/
def Moves (cutoff : Int) (s : MoveState) (f : FilePlace) (file : TierFile) : Prop :=
  s.hot f = some file ∧ isExpired cutoff f file = true

/-- Nothing has the name in the cold tier that a file is moved to. -/
def NoCollision (cutoff : Int) (s : MoveState) : Prop :=
  ∀ f file, Moves cutoff s f file → s.cold f = none

/-- A query of the file has the timestamp in its answer. -/
def Answers (data : Bytes) (range : TimeRange) (t : Timestamp) : Prop :=
  ∃ q ∈ (queryFile data range).getD [], q.ts = t

/-- The two engines return the same timestamps, however they list and sort. -/
def SameTimestamps (env : Env (TierLoc Loc)) (e e' : Engine (TierLoc Loc)) (tag : Bytes)
    (range : TimeRange) : Prop :=
  ∀ (sort sort' : KeySort tsKey) (entries entries' : List DirEntry),
    (e.disk.tagDir env tag).IsListing entries → (e'.disk.tagDir env tag).IsListing entries' →
      ∀ t, t ∈ tsOf (e.readRaw env sort tag range entries) ↔
        t ∈ tsOf (e'.readRaw env sort' tag range entries')

/-- What a moved file answers is found without it: in the cache, or in a file that the read sees
before the pass and after it. -/
def FoundWithout (env : Env (TierLoc Loc)) (e : Engine (TierLoc Loc)) (cutoff : Int)
    (s : MoveState) (tag : Bytes) (range : TimeRange) : Prop :=
  match env.resolve tag with
  | .hot dir => ∀ name file, Moves cutoff s (dir, name) file → ∀ t, Answers file.data range t →
    Cached e tag range t ∨ ∃ other stays, s.hot (dir, other) = some stays ∧
      isSst other = true ∧ ¬ Moves cutoff s (dir, other) stays ∧ Answers stays.data range t
  | .cold dir => ∀ name file, Moves cutoff s (dir, name) file → ∀ t, Answers file.data range t →
    Cached e tag range t ∨ ∃ other there, s.cold (dir, other) = some there ∧
      isSst other = true ∧ Answers there.data range t
  | .other _ => True

/-! ## One pass -/

theorem Moves.isSst {cutoff : Int} {s : MoveState} {f : FilePlace} {file : TierFile}
    (h : Moves cutoff s f file) : isSst f.2 = true := (of_decide_eq_true h.2).1

section Pass

variable {outcome : FilePlace → MoveOutcome} {nowMs retentionDays : Int} {order : List FilePlace}
  {s : MoveState}

/-- Where every call succeeds, a file that is moved is gone, and its bytes are in the cold tier. -/
theorem move_of_moves (hall : AllSucceed outcome) (hlist : s.hot.Lists order) {f : FilePlace}
    {file : TierFile} (h : Moves (cutoffMs nowMs retentionDays) s f file) :
    (moveExpiredHotToCold outcome nowMs retentionDays order s).hot f = none ∧
      ((moveExpiredHotToCold outcome nowMs retentionDays order s).cold f).map TierFile.data
        = some file.data := by
  rw [(move_place hlist f).1, (move_place hlist f).2, moveFile, h.1]
  dsimp only
  rw [if_pos h.2]
  split
  case isTrue => simp
  case isFalse hnot =>
    obtain ⟨hcopied, hremoved⟩ := (hall f).resolve_left hnot
    simp [hcopied, hremoved]

/-- A place that no file is moved from, or to, is left as it is. -/
theorem move_of_not_moves (hlist : s.hot.Lists order) {f : FilePlace}
    (h : ∀ file, ¬ Moves (cutoffMs nowMs retentionDays) s f file) :
    (moveExpiredHotToCold outcome nowMs retentionDays order s).hot f = s.hot f ∧
      (moveExpiredHotToCold outcome nowMs retentionDays order s).cold f = s.cold f := by
  rw [(move_place hlist f).1, (move_place hlist f).2, moveFile]
  cases hfile : s.hot f with
  | none => exact ⟨hfile, rfl⟩
  | some file =>
    dsimp only
    rw [if_neg fun hexpired => h file ⟨hfile, hexpired⟩]
    exact ⟨hfile, rfl⟩

end Pass

/-! ## What is read -/

/-- A read of a directory that has the files of a tier finds what these answer. -/
theorem found_iff {d : Dir} {tier : Tier} {dir : Bytes} {range : TimeRange} {t : Timestamp}
    (h : ∀ name, d.readFile name = (tier (dir, name)).map TierFile.data) :
    FoundInTables d range t ↔ ∃ name file, tier (dir, name) = some file ∧ isSst name = true ∧
      Answers file.data range t := by
  constructor
  · rintro ⟨name, data, hsst, hread, hanswers⟩
    rw [h] at hread
    obtain ⟨file, hfile, rfl⟩ := Option.map_eq_some_iff.mp hread
    exact ⟨name, file, hfile, hsst, hanswers⟩
  · rintro ⟨name, file, hfile, hsst, hanswers⟩
    exact ⟨name, file.data, hsst, by rw [h, hfile]; rfl, hanswers⟩

/-- Whatever the listing and the sort, a read has the timestamps of the cache and of the files. -/
theorem sameTimestamps_iff {env : Env (TierLoc Loc)} {e e' : Engine (TierLoc Loc)} {tag : Bytes}
    {range : TimeRange} : SameTimestamps env e e' tag range ↔
      ∀ t, (Cached e tag range t ∨ FoundInTables (e.disk.tagDir env tag) range t) ↔
        (Cached e' tag range t ∨ FoundInTables (e'.disk.tagDir env tag) range t) := by
  constructor
  · intro h t
    have hlist : (e.disk.tagDir env tag).IsListing _ := List.Perm.refl _
    have hlist' : (e'.disk.tagDir env tag).IsListing _ := List.Perm.refl _
    have hsame := h (.stable tsKey) (.stable tsKey) _ _ hlist hlist' t
    rwa [mem_tsOf_readRaw hlist, mem_tsOf_readRaw hlist'] at hsame
  · intro h sort sort' entries entries' hlist hlist' t
    rw [mem_tsOf_readRaw hlist, mem_tsOf_readRaw hlist']
    exact h t

section Reads

variable {outcome : FilePlace → MoveOutcome} {nowMs retentionDays : Int} {order : List FilePlace}
  {s : MoveState} {e e' : Engine (TierLoc Loc)} {dir : Bytes} {range : TimeRange} {t : Timestamp}

/-- After the pass a directory of the hot tier has the files that stay. -/
theorem found_hot_iff (hall : AllSucceed outcome) (hlist : s.hot.Lists order)
    (hafter : AfterPass e e' (moveExpiredHotToCold outcome nowMs retentionDays order s)) :
    FoundInTables (e'.disk.dirs (.hot dir)) range t ↔ ∃ name file, s.hot (dir, name) = some file ∧
      isSst name = true ∧ ¬ Moves (cutoffMs nowMs retentionDays) s (dir, name) file ∧
        Answers file.data range t := by
  rw [found_iff fun name => hafter.shows.hot (dir, name)]
  constructor
  · rintro ⟨name, file, hfile, hsst, hanswers⟩
    have hstays : ∀ moved, ¬ Moves (cutoffMs nowMs retentionDays) s (dir, name) moved := by
      intro moved hmoves
      rw [(move_of_moves hall hlist hmoves).1] at hfile
      cases hfile
    rw [(move_of_not_moves hlist hstays).1] at hfile
    exact ⟨name, file, hfile, hsst, hstays file, hanswers⟩
  · rintro ⟨name, file, hfile, hsst, hnot, hanswers⟩
    have hstays : ∀ moved, ¬ Moves (cutoffMs nowMs retentionDays) s (dir, name) moved := by
      rintro moved ⟨hmoved, hexpired⟩
      rw [hfile, Option.some.injEq] at hmoved
      exact hnot ⟨hfile, hmoved ▸ hexpired⟩
    exact ⟨name, file, by rw [(move_of_not_moves hlist hstays).1, hfile], hsst, hanswers⟩

/-- And one of the cold tier has those that were there, and those that have come. -/
theorem found_cold_iff (hall : AllSucceed outcome) (hlist : s.hot.Lists order)
    (hfree : NoCollision (cutoffMs nowMs retentionDays) s)
    (hafter : AfterPass e e' (moveExpiredHotToCold outcome nowMs retentionDays order s)) :
    FoundInTables (e'.disk.dirs (.cold dir)) range t ↔
      (∃ name file, s.cold (dir, name) = some file ∧ isSst name = true ∧
        Answers file.data range t) ∨
      ∃ name file, Moves (cutoffMs nowMs retentionDays) s (dir, name) file ∧
        Answers file.data range t := by
  rw [found_iff fun name => hafter.shows.cold (dir, name)]
  constructor
  · rintro ⟨name, file, hfile, hsst, hanswers⟩
    by_cases hmoves : ∃ moved, Moves (cutoffMs nowMs retentionDays) s (dir, name) moved
    · obtain ⟨moved, hmoves⟩ := hmoves
      have hdata := (move_of_moves hall hlist hmoves).2
      rw [hfile, Option.map_some, Option.some.injEq] at hdata
      exact .inr ⟨name, moved, hmoves, hdata ▸ hanswers⟩
    · rw [(move_of_not_moves hlist fun moved hm => hmoves ⟨moved, hm⟩).2] at hfile
      exact .inl ⟨name, file, hfile, hsst, hanswers⟩
  · rintro (⟨name, file, hfile, hsst, hanswers⟩ | ⟨name, moved, hmoves, hanswers⟩)
    · have hnot : ∀ moved, ¬ Moves (cutoffMs nowMs retentionDays) s (dir, name) moved := by
        intro moved hmoves
        rw [hfree _ moved hmoves] at hfile
        cases hfile
      exact ⟨name, file, by rw [(move_of_not_moves hlist hnot).2, hfile], hsst, hanswers⟩
    · obtain ⟨file, hfile, hdata⟩ :=
        Option.map_eq_some_iff.mp (move_of_moves hall hlist hmoves).2
      exact ⟨name, file, hfile, hmoves.isSst, hdata ▸ hanswers⟩

end Reads

def fileOfOne : Bytes := tableBytes [[⟨1, .double 0⟩]]

/-- The file is the only one of its tier. -/
def tierOfOne : Tier := fun f =>
  if f = (ascii "a", ascii "1.sst") then some { data := fileOfOne, lastWriteMs := 0 } else none

/-- An engine that has just been started, with the file in this directory. -/
def engineOfOne (loc : TierLoc Bytes) : Engine (TierLoc Bytes) where
  memTable := { flushThreshold := 64 * 1024, sizeofDataPoint := 48 }
  disk :=
    { dirs := fun l =>
        if l = loc then Dir.empty.set (ascii "1.sst") (.file fileOfOne) else .empty }
  wal := { named := some [] }
  latest := ∅

/-- A tag is a directory of the hot tier. -/
def hotEnv : Env (TierLoc Bytes) where
  resolve tag := .hot tag
  date _ := someDay

def expiredOne : MoveState := { hot := tierOfOne, cold := fun _ => none }

def allRenamed : FilePlace → MoveOutcome :=
  fun _ => { renamed := true, copied := .whole, removed := true }

/-- The directories of the engine have the file in the one place. -/
theorem readFile_engineOfOne (tier : Bytes → TierLoc Bytes) (hinj : Function.Injective tier)
    (f : FilePlace) : ((engineOfOne (tier (ascii "a"))).disk.dirs (tier f.1)).readFile f.2
      = (tierOfOne f).map TierFile.data := by
  unfold engineOfOne tierOfOne
  dsimp only
  by_cases hdir : f.1 = ascii "a"
  · rw [if_pos (by rw [hdir])]
    by_cases hname : f.2 = ascii "1.sst"
    · rw [if_pos (Prod.ext hdir hname), hname, Dir.readFile_set_file]
      rfl
    · rw [if_neg fun heq => hname (congrArg Prod.snd heq), Dir.readFile_set_ne hname]
      rfl
  · rw [if_neg fun heq => hdir (hinj heq), if_neg fun heq => hdir (congrArg Prod.fst heq)]
    rfl

theorem readFile_elsewhere {loc loc' : TierLoc Bytes} (h : loc' ≠ loc) (name : Bytes) :
    ((engineOfOne loc).disk.dirs loc').readFile name = none := by
  unfold engineOfOne
  dsimp only
  rw [if_neg h]
  rfl

theorem cold_ne_hot (dir dir' : Bytes) : (.cold dir : TierLoc Bytes) ≠ .hot dir' := fun h => nomatch h

theorem tierOfOne_self :
    tierOfOne (ascii "a", ascii "1.sst") = some { data := fileOfOne, lastWriteMs := 0 } :=
  if_pos rfl

theorem tierOfOne_ne {f : FilePlace} (h : f ≠ (ascii "a", ascii "1.sst")) : tierOfOne f = none :=
  if_neg h

theorem lists_expiredOne : expiredOne.hot.Lists [(ascii "a", ascii "1.sst")] where
  nodup := List.nodup_singleton _
  mem_iff f := by
    rw [List.mem_singleton]
    unfold expiredOne tierOfOne
    dsimp only
    split
    case isTrue h => simp [h]
    case isFalse h => simp [h]

theorem shows_expiredOne : Shows (engineOfOne (.hot (ascii "a"))) expiredOne where
  hot := readFile_engineOfOne .hot fun _ _ h => TierLoc.hot.inj h
  cold f := readFile_elsewhere (cold_ne_hot f.1 (ascii "a")) f.2

/-- The pass takes the file from the one tier to the other. -/
theorem afterPass_expiredOne : AfterPass (engineOfOne (.hot (ascii "a")))
    (engineOfOne (.cold (ascii "a")))
    (moveExpiredHotToCold allRenamed 1 0 [(ascii "a", ascii "1.sst")] expiredOne) where
  shows := by
    have hmoved : moveExpiredHotToCold allRenamed 1 0 [(ascii "a", ascii "1.sst")] expiredOne
        = { hot := fun _ => none, cold := tierOfOne } := by
      have hexpired : isExpired (cutoffMs 1 0) (ascii "a", ascii "1.sst")
          { data := fileOfOne, lastWriteMs := 0 } = true := rfl
      have hrenamed : (allRenamed (ascii "a", ascii "1.sst")).renamed = true := rfl
      have hfile : expiredOne.hot (ascii "a", ascii "1.sst")
          = some { data := fileOfOne, lastWriteMs := 0 } := tierOfOne_self
      rw [moveExpiredHotToCold, List.foldl_cons, List.foldl_nil, moveFile, hfile]
      dsimp only
      unfold expiredOne
      dsimp only
      rw [if_pos hexpired, if_pos hrenamed]
      congr 1
      · funext f
        by_cases hf : f = (ascii "a", ascii "1.sst")
        · rw [hf, Function.update_self]
        · rw [Function.update_of_ne hf, tierOfOne_ne hf]
      · funext f
        by_cases hf : f = (ascii "a", ascii "1.sst")
        · rw [hf, Function.update_self, tierOfOne_self]
        · rw [Function.update_of_ne hf, tierOfOne_ne hf]
    rw [hmoved]
    exact
      { hot := fun f => readFile_elsewhere (cold_ne_hot (ascii "a") f.1).symm f.2
        cold := readFile_engineOfOne .cold fun _ _ h => TierLoc.cold.inj h }
  other loc := rfl
  latest := rfl

end Storage
end MiniTSDB
