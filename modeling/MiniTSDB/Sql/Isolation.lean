import MiniTSDB.Os.Walk
import MiniTSDB.Sql.DeleteFrame
import MiniTSDB.Sql.Insert
import MiniTSDB.Storage.ReadYourWrites

/-!
# What an `INSERT` does to the other tables

The check of an `INSERT` looks at the database and the table, the write and the reads look at the
tag alone. So whoever may write a tag of one table writes the tags of that name in all of them.
-/

namespace MiniTSDB
namespace Sql

open Lib Os Storage

variable {Loc : Type} [DecidableEq Loc]

/-- The same executor, with another current database. -/
def Executor.use (ex : Executor Loc) (db : Bytes) : Executor Loc := { ex with currentDb := db }

/-- Everything around the executor. -/
structure Setting (Loc : Type) where
  env : Env Loc
  conv : Conversions
  formats : Formats
  sorts : Sorts
  context : Nat → RowContext

/-- No `INSERT` into the one table changes what a `SELECT` from the other returns. -/
structure Isolated (setting : Setting Loc) (ex : Executor Loc) (d₁ t₁ d₂ t₂ : Bytes) : Prop where
  latest : ∀ stmt : InsertStmt, stmt.tableName = t₁ → ∀ result ex',
    (ex.use d₁).executeInsert setting.env setting.conv setting.context stmt = some (result, ex') →
      ∀ select : SelectStmt, select.tableName = t₂ → selectKind select = .latest →
        ∀ order order', ex.cache.Lists order → ex'.cache.Lists order' →
          (((ex'.use d₂).executeSelectLatest setting.formats select order').rows).Perm
            ((ex.use d₂).executeSelectLatest setting.formats select order).rows
  raw : ∀ stmt : InsertStmt, stmt.tableName = t₁ → ∀ result ex',
    (ex.use d₁).executeInsert setting.env setting.conv setting.context stmt = some (result, ex') →
      ∀ select : SelectStmt, select.tableName = t₂ → selectKind select = .raw →
        ∀ entries entries',
          (ex.engine.disk.tagDir setting.env select.where_.tagFilter).IsListing entries →
          (ex'.engine.disk.tagDir setting.env select.where_.tagFilter).IsListing entries' →
            ((ex'.use d₂).executeSelectRaw setting.env setting.sorts setting.formats select
              entries').rows
              = ((ex.use d₂).executeSelectRaw setting.env setting.sorts setting.formats select
                entries).rows

/-- `std::stod` of `0` and of `1`, and `std::to_string` of what it gives. -/
structure ReadsDigits (setting : Setting Loc) : Prop where
  stod_zero : setting.conv.stod (ascii "0") = some 0
  stod_one : setting.conv.stod (ascii "1") = some 0x3ff0000000000000
  value_zero : setting.formats.value (.double 0) = ascii "0.000000"
  value_one : setting.formats.value (.double 0x3ff0000000000000) = ascii "1.000000"

/-! ## One row -/

/-- `INSERT INTO t (tag, value, ts) VALUES ('x', v, 9223372036854775807)`: no point can be later. -/
def lastInsert (t x v : Bytes) : InsertStmt where
  tableName := t
  columns := [ascii "tag", ascii "value", ascii "ts"]
  rows := [[x, v, ascii "9223372036854775807"]]

def lastPoint (bits : UInt64) : DataPoint := { ts := Int64.maxValue, value := .double bits }

omit [DecidableEq Loc] in
/-- The directory of a registered tag is below that of its table. -/
theorem tableExists_of_tagExists {tiers : Tiers} {db table tag : Bytes}
    (h : tiers.tagExists db table tag = true) : tiers.tableExists db table = true := by
  have hpath : tagPath db table tag = tablePath db table ++ slash :: (ascii "tags/" ++ tag) := by
    unfold tagPath
    rw [List.append_assoc]
    rfl
  unfold Tiers.tagExists at h
  rw [hpath] at h
  exact pathExists_of_append h

theorem lookup_update_last (cache : LatestCache) (x : Bytes) (bits : UInt64) :
    (cache.update x (lastPoint bits)).lookup x = some (lastPoint bits) := by
  rw [lookup_update, if_pos rfl]
  cases cache.lookup x with
  | none => rfl
  | some old => exact if_pos (Int64.le_maxValue old.ts)

variable {setting : Setting Loc} {ex : Executor Loc}

/-- **The row is written under the name of its tag.** -/
theorem executeInsert_last {t x v : Bytes} {bits : UInt64}
    (hthere : ex.tiers.tagExists ex.currentDb t x = true) (hv : setting.conv.stod v = some bits) :
    ∃ engine, ex.executeInsert setting.env setting.conv setting.context (lastInsert t x v)
      = some ({ ok := true, affectedRows := 1 },
        { ex with engine := engine, cache := ex.cache.update x (lastPoint bits) }) := by
  have hscan : scanRow setting.conv (ex.tiers.tagExists ex.currentDb t) (setting.context 0).now
      (lastInsert t x v).columns [x, v, ascii "9223372036854775807"]
        = .ok { tag := some x, value := some (.double bits), ts := Int64.maxValue } := by
    have htag : toLower (ascii "tag") = ascii "tag" := rfl
    have hvalue : toLower (ascii "value") = ascii "value" := rfl
    have hts : toLower (ascii "ts") = ascii "ts" := rfl
    have hmax : stoll (ascii "9223372036854775807") = some Int64.maxValue := by decide
    unfold scanRow lastInsert
    simp only [List.zip_cons_cons, List.zip_nil_left, List.foldlM_cons, List.foldlM_nil, scanColumn,
      htag, hvalue, hts, hthere, hv, hmax]
    rfl
  have hwrite : ∃ engine, ex.engine.write setting.env (setting.context 0).pad x (lastPoint bits)
      = some engine := ⟨_, Engine.write_double _ _ _ _ _ _⟩
  obtain ⟨engine, hwrite⟩ := hwrite
  exact ⟨engine, Executor.executeInsert_row rfl (tableExists_of_tagExists hthere) hscan hwrite⟩

/-! ## The other table -/

/-- `SELECT LATEST ... FROM t WHERE tag = 'x'`. -/
def selectLatestOf (t x : Bytes) : SelectStmt :=
  { tableName := t, where_ := { tagFilter := x }, latest := true }

omit [DecidableEq Loc] in
/-- A cache can be gone over. -/
theorem exists_lists (cache : LatestCache) : ∃ order, cache.Lists order := by
  refine ⟨cache.entries.map fun e => (e.1, e.2), ?_⟩
  rw [LatestCache.Lists, List.map_map]
  exact List.Perm.of_eq (List.map_id _)

omit [DecidableEq Loc] in
/-- What is selected of a tag, whatever the database and the table. -/
theorem rows_selectLatestOf (formats : Formats) (ex : Executor Loc) {t x : Bytes} (hx : x ≠ [])
    (order : List (Bytes × DataPoint)) :
    (ex.executeSelectLatest formats (selectLatestOf t x) order).rows
      = (ex.cache.lookup x).toList.map fun p =>
        [x, formats.value p.value, formats.timestamp p.ts] := by
  unfold Executor.executeSelectLatest Executor.latestData selectLatestOf
  dsimp only
  rw [if_pos hx, List.map_map]
  rfl

theorem selectKind_selectLatestOf {t : Bytes} (x : Bytes) (ht : toUpper t ≠ ascii "SNAPSHOT") :
    selectKind (selectLatestOf t x) = .latest := by
  unfold selectKind selectLatestOf
  dsimp only
  rw [if_neg ht, if_pos rfl]

/-- **What is inserted into one table is selected from another.** -/
theorem Isolated.selected {x d₁ t₁ d₂ t₂ v : Bytes} {bits : UInt64}
    (h : Isolated setting ex d₁ t₁ d₂ t₂) (hx : x ≠ [])
    (hthere : ex.tiers.tagExists d₁ t₁ x = true) (ht₂ : toUpper t₂ ≠ ascii "SNAPSHOT")
    (hv : setting.conv.stod v = some bits) :
    [[x, setting.formats.value (.double bits), setting.formats.timestamp Int64.maxValue]]
      = (ex.cache.lookup x).toList.map fun p =>
        [x, setting.formats.value p.value, setting.formats.timestamp p.ts] := by
  have hregistered : (ex.use d₁).tiers.tagExists (ex.use d₁).currentDb t₁ x = true := hthere
  obtain ⟨engine, hinsert⟩ := executeInsert_last hregistered hv
  obtain ⟨order, horder⟩ := exists_lists ex.cache
  obtain ⟨order', horder'⟩ := exists_lists (ex.cache.update x (lastPoint bits))
  have hperm := h.latest _ rfl _ _ hinsert _ rfl (selectKind_selectLatestOf x ht₂) _ _ horder horder'
  have hafter : ∀ e : Executor Loc, e.cache = ex.cache.update x (lastPoint bits) →
      (e.executeSelectLatest setting.formats (selectLatestOf t₂ x) order').rows
        = [[x, setting.formats.value (.double bits),
          setting.formats.timestamp Int64.maxValue]] := by
    intro e he
    rw [rows_selectLatestOf _ _ hx, he, lookup_update_last]
    rfl
  rw [hafter _ rfl, rows_selectLatestOf _ _ hx] at hperm
  exact List.singleton_perm.mp hperm

/-- Two numerals, and times that all look the same. -/
def plainSetting : Setting Bytes where
  env := plainEnv
  conv :=
    { stod := fun text =>
        if text = ascii "0" then some 0
        else if text = ascii "1" then some 0x3ff0000000000000 else none
      parseTimeString := fun _ => 0 }
  formats :=
    { timestamp := fun _ => []
      value := fun value => if value = .double 0 then ascii "0.000000" else ascii "1.000000" }
  sorts := { asc := .stable _, desc := .stable _ }
  context := fun _ => { now := 0, pad := .replicate 3 0 }

theorem readsDigits_plainSetting : ReadsDigits plainSetting :=
  ⟨by decide, by decide, by decide, by decide⟩

/-- The tag `x` of the tables `t` and `u`. -/
def twoTables : Executor Bytes :=
  executorOn [[ascii "d", ascii "tables", ascii "t", ascii "tags", ascii "x"],
    [ascii "d", ascii "tables", ascii "u", ascii "tags", ascii "x"]]

end Sql
end MiniTSDB
