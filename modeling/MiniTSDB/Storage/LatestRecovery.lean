import MiniTSDB.Storage.ReadYourWrites
import MiniTSDB.Storage.Recovery

/-!
# The latest values after a crash

`Init` replays the log into the write buffer and then sets up an empty cache of latest values. So
`ReadLatest` knows no tag after it, whatever the log holds.
-/

namespace MiniTSDB
namespace Storage

open Lib Os

variable {Loc : Type} [DecidableEq Loc] {env : Env Loc}

def EngineOp.isWrite : EngineOp → Bool
  | .write .. => true
  | .flush _ => false

/-- A crash with the whole log on disk, and `Init`, change no answer of `ReadLatest`. -/
def RecoveryRestores (env : Env Loc) (config : StorageConfig) (s : Session Loc) : Prop :=
  ∀ unset tag, (s.restart env config []).engine.readLatest unset tag
    = s.engine.readLatest unset tag

omit [DecidableEq Loc] in
theorem readLatest_of_none {e : Engine Loc} {tag : Bytes} (h : e.latest.lookup tag = none)
    (unset : Timestamp) : e.readLatest unset tag = { ts := unset, value := .double 0 } := by
  rw [Engine.readLatest, h, Option.getD_none]

omit [DecidableEq Loc] in
theorem readLatest_of_some {e : Engine Loc} {tag : Bytes} {p : DataPoint}
    (h : e.latest.lookup tag = some p) (unset : Timestamp) : e.readLatest unset tag = p := by
  rw [Engine.readLatest, h, Option.getD_some]

/-- Nothing is in the cache after `Init`. -/
theorem readLatest_restart (config : StorageConfig) (left : Bytes) (s : Session Loc)
    (unset : Timestamp) (tag : Bytes) : (s.restart env config left).engine.readLatest unset tag
      = { ts := unset, value := .double 0 } := readLatest_of_none rfl unset

/-- What has been written is acknowledged. -/
theorem acked_ne_nil {config : StorageConfig} {disk : Disk Loc} {named : Option Bytes}
    {ops : List EngineOp} {s : Session Loc}
    (h : Run (EngineStep env) (.start env config disk named) ops s) :
    (∃ op ∈ ops, op.isWrite = true) → s.acked ≠ [] := by
  refine h.invariant (fun ops s => (∃ op ∈ ops, op.isWrite = true) → s.acked ≠ []) ?_ ?_
  · intro ⟨_, hmem, _⟩
    cases hmem
  · intro ops s op s' ih hstep ⟨other, hmem, hwrite⟩
    rw [hstep.spec.2.2]
    cases op with
    | write pad tag ts bits => exact List.append_ne_nil_of_right_ne_nil _ (List.cons_ne_nil _ _)
    | flush order =>
      cases List.mem_append.mp hmem with
      | inl hmem => exact ih ⟨other, hmem, hwrite⟩
      | inr hmem =>
        rw [List.mem_singleton.mp hmem] at hwrite
        cases hwrite

/-- **Recovery restores the latest values only where there are none.** -/
theorem recoveryRestores_iff {config : StorageConfig} {disk : Disk Loc} {named : Option Bytes}
    {ops : List EngineOp} {s : Session Loc} (config' : StorageConfig)
    (h : Run (EngineStep env) (.start env config disk named) ops s)
    (hwrites : ∀ op ∈ ops, op.isWrite = true) : RecoveryRestores env config' s ↔ ops = [] := by
  constructor
  · intro hrestores
    by_contra hops
    obtain ⟨op, hop⟩ := List.exists_mem_of_ne_nil ops hops
    have hacked : s.acked ≠ [] := acked_ne_nil h ⟨op, hop, hwrites op hop⟩
    obtain ⟨⟨tag, p⟩, hmem⟩ := List.exists_mem_of_ne_nil s.acked hacked
    have hlatest := latestOf_run h tag
    cases hlookup : s.engine.latest.lookup tag with
    | none =>
      rw [hlookup] at hlatest
      exact hlatest p hmem
    | some c =>
      -- whatever is in the cache, the timestamp need not be the one that is there by chance
      have hsame := hrestores (c.ts + 1) tag
      rw [readLatest_restart, readLatest_of_some hlookup] at hsame
      have hts : c.ts + 1 = c.ts := congrArg DataPoint.ts hsame
      exact absurd (add_eq_left.mp hts) (by decide)
  · intro hops unset tag
    have hempty : ops = [] → s.engine.latest = ∅ :=
      h.invariant (fun ops s => ops = [] → s.engine.latest = ∅) (fun _ => rfl)
        fun ops _ op _ _ _ hnil => absurd hnil (List.append_ne_nil_of_right_ne_nil ops (by simp))
    rw [readLatest_restart, readLatest_of_none]
    rw [hempty hops]
    rfl

/-- Nothing written, nothing to restore. -/
theorem recoveryRestores_nothing : RecoveryRestores plainEnv {} freshSession := by
  have hrun : Run (EngineStep plainEnv) freshSession [] freshSession := .start
  exact (recoveryRestores_iff {} hrun fun _ h => nomatch h).mpr rfl

/-- One point is written, and after the crash its tag is not known. -/
theorem recovery_forgets_latest :
    Run (EngineStep plainEnv) freshSession [writeA 1] (freshSession.after plainEnv (writeA 1)) ∧
      ¬ RecoveryRestores plainEnv {} (freshSession.after plainEnv (writeA 1)) := by
  constructor
  · have hrun : Run (EngineStep plainEnv) freshSession [] freshSession := .start
    exact hrun.snoc (engineStep_write plainEnv _ _ _ _ _)
  · intro hrestores
    have hsame := hrestores 0 (ascii "a")
    have hlookup : (freshSession.after plainEnv (writeA 1)).engine.latest.lookup (ascii "a")
        = some { ts := 1, value := .double 0 } := by
      rw [freshSession_eq]
      rfl
    rw [readLatest_restart, readLatest_of_some hlookup] at hsame
    exact absurd (congrArg DataPoint.ts hsame) (by decide)

end Storage
end MiniTSDB
