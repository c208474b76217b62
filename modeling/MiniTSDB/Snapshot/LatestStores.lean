import MiniTSDB.Snapshot.SnapshotStore
import MiniTSDB.Storage.ReadYourWrites

/-!
# The two stores of latest values

Every `Write` of the engine goes to the cache of latest values and to the snapshot store. The cache
keeps the point with the greatest timestamp and the store the point that came last, so the two
agree for as long as no point comes late (`storesAgree_iff`).
-/

namespace MiniTSDB
namespace Snapshot

open Lib Storage

variable {Loc : Type} [DecidableEq Loc]

/-- An engine and its snapshot store. -/
structure Stores (Loc : Type) where
  engine : Engine Loc
  snapshot : SnapshotMap

/-- `StorageEngine::Write`; `none` where it throws. -/
def Stores.write (env : Env Loc) (s : Stores Loc) (pad : HeaderPad) (tag : Bytes)
    (point : DataPoint) : Option (Stores Loc) := do
  let engine ← s.engine.write env pad tag point
  return { engine := engine, snapshot := s.snapshot.onWrite tag point }

/-- A call of `Write` with a double. -/
structure DoubleWrite where
  pad : HeaderPad
  tag : Bytes
  ts : Timestamp
  bits : UInt64

def DoubleWrite.point (w : DoubleWrite) : DataPoint := { ts := w.ts, value := .double w.bits }

/-- The points written, each with its tag. -/
def written (ws : List DoubleWrite) : List (Bytes × DataPoint) := ws.map fun w => (w.tag, w.point)

/-- One call of `Write` after the other. -/
def Stores.writes (env : Env Loc) (s : Stores Loc) (ws : List DoubleWrite) : Option (Stores Loc) :=
  ws.foldlM (fun s w => s.write env w.pad w.tag w.point) s

/-- A fresh engine, and no snapshot file. -/
def Stores.fresh (env : Env Loc) (config : StorageConfig) (disk : Disk Loc)
    (named : Option Bytes) : Stores Loc :=
  { engine := Engine.init env config disk named, snapshot := .empty }

/-- The entry of a tag says what `ReadLatest` does. -/
def StoresAgree (s : Stores Loc) : Prop :=
  ∀ tag, ((s.snapshot.get tag).isSome ↔ (s.engine.latest.lookup tag).isSome) ∧
    ∀ entry, s.snapshot.get tag = some entry → ∀ unset, s.engine.readLatest unset tag
      = { ts := entry.timestamp, value := .double entry.value }

/-- The last point of a tag. -/
def lastWritten (acked : List (Bytes × DataPoint)) (tag : Bytes) : Option DataPoint :=
  acked.reverse.lookup tag

/-- Of no tag does a point come after one that is later. -/
def NoneLate (acked : List (Bytes × DataPoint)) : Prop :=
  ∀ tag p, lastWritten acked tag = some p → ∀ q, (tag, q) ∈ acked → q.ts ≤ p.ts

/-! ## The last point of a tag -/

theorem lastWritten_append (acked : List (Bytes × DataPoint)) (tag : Bytes) (p : DataPoint)
    (other : Bytes) : lastWritten (acked ++ [(tag, p)]) other =
      if other = tag then some p else lastWritten acked other := by
  rw [lastWritten, List.reverse_append, List.reverse_singleton, List.singleton_append]
  by_cases h : other = tag
  · rw [if_pos h, h, List.lookup_cons_self]
  · rw [if_neg h, List.lookup_cons, beq_false_of_ne h, lastWritten]

theorem mem_of_lastWritten {acked : List (Bytes × DataPoint)} {tag : Bytes} {p : DataPoint}
    (h : lastWritten acked tag = some p) : (tag, p) ∈ acked := by
  obtain ⟨before, after, heq, -⟩ := List.lookup_eq_some_iff.mp h
  rw [← List.mem_reverse, heq]
  exact List.mem_append_right _ List.mem_cons_self

theorem lastWritten_eq_none {acked : List (Bytes × DataPoint)} {tag : Bytes}
    (h : lastWritten acked tag = none) (p : DataPoint) : (tag, p) ∉ acked := by
  intro hmem
  have hne := List.lookup_eq_none_iff.mp h (tag, p) (List.mem_reverse.mpr hmem)
  exact absurd rfl (bne_iff_ne.mp hne)

/-! ## After any number of writes -/

/-- What is in the two stores once these points have been written. -/
structure StoresHold (acked : List (Bytes × DataPoint)) (s : Stores Loc) : Prop where
  doubles : ∀ tag p, (tag, p) ∈ acked → p.value.isDouble = true
  latest : LatestOf s.engine.latest acked
  /-- a last point that no earlier one is later than is in the cache -/
  last : ∀ tag p, lastWritten acked tag = some p → (∀ q, (tag, q) ∈ acked → q.ts ≤ p.ts) →
    s.engine.latest.lookup tag = some p
  snapshot : ∀ tag, s.snapshot.get tag = (lastWritten acked tag).map (.ofPoint tag)

theorem storesHold_fresh (env : Env Loc) (config : StorageConfig) (disk : Disk Loc)
    (named : Option Bytes) : StoresHold [] (Stores.fresh env config disk named) where
  doubles _ _ h := nomatch h
  latest := by
    intro tag
    simp [Stores.fresh, Engine.init]
  last _ _ h := nomatch h
  snapshot _ := rfl

/-- **One write.** -/
theorem StoresHold.write {env : Env Loc} {acked : List (Bytes × DataPoint)} {s s' : Stores Loc}
    (h : StoresHold acked s) {w : DoubleWrite}
    (hwrite : s.write env w.pad w.tag w.point = some s') :
    StoresHold (acked ++ [(w.tag, w.point)]) s' := by
  unfold Stores.write DoubleWrite.point at hwrite
  rw [Engine.write_double] at hwrite
  cases hwrite
  constructor
  case doubles =>
    intro tag p hmem
    cases List.mem_append.mp hmem with
    | inl hmem => exact h.doubles tag p hmem
    | inr hmem =>
      cases List.mem_singleton.mp hmem
      rfl
  case latest => exact h.latest.update _ _
  case last =>
    intro tag p hlast hmax
    dsimp only
    rw [lastWritten_append] at hlast
    rw [lookup_update]
    split at hlast
    case isTrue htag =>
      cases hlast
      rw [if_pos htag]
      -- the last point written is at least as late, so the entry gives way to it
      cases hold : s.engine.latest.lookup w.tag with
      | none => rfl
      | some old =>
        have hmem := h.latest w.tag
        rw [hold] at hmem
        have hle : old.ts ≤ w.ts :=
          hmax old (List.mem_append_left _ (htag ▸ hmem.1))
        exact if_pos hle
    case isFalse htag =>
      rw [if_neg htag]
      exact h.last tag p hlast fun q hq => hmax q (List.mem_append_left _ hq)
  case snapshot =>
    intro tag
    dsimp only
    rw [get_onWrite, lastWritten_append, h.snapshot]
    split
    case isTrue htag =>
      rw [htag]
      rfl
    case isFalse => rfl

theorem StoresHold.writes {env : Env Loc} {ws : List DoubleWrite} {acked : List (Bytes × DataPoint)}
    {s s' : Stores Loc} (h : StoresHold acked s) (hwrites : s.writes env ws = some s') :
    StoresHold (acked ++ written ws) s' := by
  induction ws generalizing acked s with
  | nil =>
    cases hwrites
    rw [written, List.map_nil, List.append_nil]
    exact h
  | cons w ws ih =>
    rw [Stores.writes, List.foldlM_cons] at hwrites
    obtain ⟨t, ht, hrest⟩ := Option.bind_eq_some_iff.mp hwrites
    have hrest := ih (h.write ht) hrest
    rw [List.append_assoc] at hrest
    exact hrest

/-- Doubles never make a `Write` throw. -/
theorem exists_writes (env : Env Loc) (s : Stores Loc) (ws : List DoubleWrite) :
    ∃ s', s.writes env ws = some s' := by
  induction ws generalizing s with
  | nil => exact ⟨s, rfl⟩
  | cons w ws ih =>
    have hwrite : ∃ t, s.write env w.pad w.tag w.point = some t := by
      unfold Stores.write DoubleWrite.point
      rw [Engine.write_double]
      exact ⟨_, rfl⟩
    obtain ⟨t, ht⟩ := hwrite
    obtain ⟨s', hs'⟩ := ih t
    refine ⟨s', ?_⟩
    rw [Stores.writes, List.foldlM_cons, ht]
    exact hs'

theorem ofPoint_double {tag : Bytes} {p : DataPoint} (h : p.value.isDouble = true) :
    ({ ts := (CachedSnapshot.ofPoint tag p).timestamp
       value := .double (CachedSnapshot.ofPoint tag p).value } : DataPoint) = p := by
  obtain ⟨ts, value⟩ := p
  cases value with
  | double bits => rfl
  | int64 i => cases h
  | string s => cases h

/-- **The stores agree just when no point came late.** -/
theorem storesAgree_iff {env : Env Loc} {config : StorageConfig} {disk : Disk Loc}
    {named : Option Bytes} {ws : List DoubleWrite} {s : Stores Loc}
    (h : (Stores.fresh env config disk named).writes env ws = some s) :
    StoresAgree s ↔ NoneLate (written ws) := by
  have hold : StoresHold ([] ++ written ws) s := (storesHold_fresh env config disk named).writes h
  rw [List.nil_append] at hold
  constructor
  · -- the snapshot holds the last point, the engine the latest
    intro hagree tag p hlast q hq
    obtain ⟨hboth, hsame⟩ := hagree tag
    have hentry := hold.snapshot tag
    rw [hlast, Option.map_some] at hentry
    have hpoint := hsame _ hentry 0
    rw [ofPoint_double (hold.doubles tag p (mem_of_lastWritten hlast))] at hpoint
    have hlatest := hold.latest tag
    cases hlookup : s.engine.latest.lookup tag with
    | none =>
      rw [hlookup] at hlatest
      exact absurd hq (hlatest q)
    | some c =>
      rw [hlookup] at hlatest
      rw [Engine.readLatest, hlookup, Option.getD_some] at hpoint
      rw [← hpoint]
      exact hlatest.2 q hq
  · intro hnone tag
    have hentry := hold.snapshot tag
    have hlatest := hold.latest tag
    cases hlast : lastWritten (written ws) tag with
    | none =>
      rw [hlast, Option.map_none] at hentry
      rw [hentry]
      refine ⟨?_, fun entry hsome => nomatch hsome⟩
      cases hlookup : s.engine.latest.lookup tag with
      | none => rfl
      | some c =>
        rw [hlookup] at hlatest
        exact absurd hlatest.1 (lastWritten_eq_none hlast c)
    | some p =>
      have hlookup := hold.last tag p hlast (hnone tag p hlast)
      rw [hlast, Option.map_some] at hentry
      rw [hentry, hlookup]
      refine ⟨by simp, ?_⟩
      intro entry hsome unset
      cases hsome
      rw [Engine.readLatest, hlookup, Option.getD_some,
        ofPoint_double (hold.doubles tag p (mem_of_lastWritten hlast))]

/-- A write to the tag `a`. -/
def writeAt (ts : Timestamp) : DoubleWrite :=
  { pad := .replicate 3 0, tag := ascii "a", ts := ts, bits := 0 }

/-- An engine on an empty disk. -/
def freshStores : Stores Bytes := .fresh plainEnv {} { dirs := fun _ => .empty } none

theorem storesAgree_inOrder :
    ∃ s, freshStores.writes plainEnv [writeAt 1, writeAt 2] = some s ∧ StoresAgree s := by
  obtain ⟨s, hs⟩ := exists_writes plainEnv freshStores [writeAt 1, writeAt 2]
  have hnone : NoneLate (written [writeAt 1, writeAt 2]) := by
    intro tag p hlast q hq
    have htag : tag = ascii "a" := by
      cases hq with
      | head => rfl
      | tail _ hq => cases List.mem_singleton.mp hq; rfl
    rw [htag] at hlast
    cases hlast
    cases hq with
    | head => decide
    | tail _ hq => cases List.mem_singleton.mp hq; decide
  exact ⟨s, hs, (storesAgree_iff hs).mpr hnone⟩

/-- A point that comes late is in the snapshot store and not in the cache. -/
theorem late_point_disagrees :
    ∃ s, freshStores.writes plainEnv [writeAt 2, writeAt 1] = some s ∧ ¬ StoresAgree s := by
  obtain ⟨s, hs⟩ := exists_writes plainEnv freshStores [writeAt 2, writeAt 1]
  refine ⟨s, hs, ?_⟩
  intro hagree
  have hold : StoresHold ([] ++ written [writeAt 2, writeAt 1]) s :=
    (storesHold_fresh plainEnv {} { dirs := fun _ => .empty } none).writes hs
  have hpoint := (hagree (ascii "a")).2 _ (hold.snapshot (ascii "a")) 0
  have hlatest := hold.latest (ascii "a")
  have hmem : (ascii "a", (writeAt 2).point) ∈ [] ++ written [writeAt 2, writeAt 1] :=
    List.mem_cons_self
  cases hlookup : s.engine.latest.lookup (ascii "a") with
  | none =>
    rw [hlookup] at hlatest
    exact hlatest _ hmem
  | some c =>
    rw [hlookup] at hlatest
    rw [Engine.readLatest, hlookup, Option.getD_some] at hpoint
    have hle := hlatest.2 _ hmem
    rw [hpoint] at hle
    exact absurd hle (by decide)

end Snapshot
end MiniTSDB
