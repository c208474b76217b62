import MiniTSDB.Server.OrderLimit
import MiniTSDB.Sql.Between

/-!
# A `SELECT` without a time predicate

The interval of a statement is from 0 to 0 unless a `BETWEEN` sets it, and an interval is what the
engine takes it for: nothing but the point of 1970-01-01 is read (`unbounded_iff`).
-/

namespace MiniTSDB
namespace Server

open Lib Os Storage Sql

/-- ` GROUP BY TIME_BUCKET('5m', ts)` -/
def groupTail (n : Nat) (u : TimeUnit) : Bytes :=
  ascii " GROUP BY TIME_BUCKET(" ++ quote :: (literalText n u ++ quote :: ascii ", ts)")

variable {Loc : Type}

/-- The points that `ExecuteSelectAggregate` folds. -/
def aggregatedPoints (env : Env Loc) (sorts : Sorts) (ex : Executor Loc) (stmt : SelectStmt)
    (entries : List DirEntry) : List DataPoint :=
  ex.engine.readRaw env sorts.asc stmt.where_.tagFilter stmt.where_.timeRange entries

/-- All timestamps that the SSTables of the tag hold are there. -/
def Covers (env : Env Loc) (ex : Executor Loc) (x : Bytes) (points : List DataPoint) : Prop :=
  ∀ ts, Holds (ex.engine.disk.tagDir env x) ts → ts ∈ tsOf points

/-- There is a point for every stored timestamp among those that become the rows; and the same
statement with a `GROUP BY` folds points for all of them. -/
structure Unbounded (conv : Conversions) (env : Env Loc) (sorts : Sorts) (ex : Executor Loc)
    (entries : List DirEntry) (t x : Bytes) : Prop where
  raw : ∃ stmt : SelectStmt, Accepts conv (tagQuery t x []) (.select stmt) ∧
    stmt.tableName = t ∧ stmt.where_.tagFilter = x ∧ selectKind stmt = .raw ∧
    Covers env ex x (ex.rawPoints env sorts stmt entries)
  grouped : ∀ (n : Nat) (u : TimeUnit), ∃ stmt : SelectStmt,
    Accepts conv (tagQuery t x (groupTail n u)) (.select stmt) ∧
    stmt.tableName = t ∧ stmt.where_.tagFilter = x ∧ selectKind stmt = .aggregate ∧
    Covers env ex x (aggregatedPoints env sorts ex stmt entries)

/-- The query is one for points, of this tag in this table. -/
structure RawReadable (t x : Bytes) : Prop extends Readable t x where
  noSnapshot : toUpper t ≠ ascii "SNAPSHOT"
  noLatest : ¬ Mentions t (ascii "LATEST") ∧ ¬ Mentions x (ascii "LATEST")
  noGroup : ¬ Mentions x (ascii "GROUP BY")

/-- No timestamp is held but 0, and that one is the latest's or in a block whose index has it. -/
def OnlyEpoch (env : Env Loc) (ex : Executor Loc) (x : Bytes) : Prop :=
  ∀ ts, Holds (ex.engine.disk.tagDir env x) ts → ts = 0 ∧
    (Cached ex.engine x ⟨0, 0⟩ 0 ∨ FoundInTables (ex.engine.disk.tagDir env x) ⟨0, 0⟩ 0)

/-! ## What is found -/

theorem ts_of_foundInTables {d : Dir} {range : TimeRange} {ts : Timestamp}
    (h : FoundInTables d range ts) : range.contains ts = true := by
  obtain ⟨name, data, -, -, q, hq, rfl⟩ := h
  cases hopen : SSTableReader.open data with
  | none => simp [queryFile, hopen] at hq
  | some r =>
    simp only [queryFile, hopen, Option.map_some, Option.getD_some] at hq
    obtain ⟨idx, -, hq⟩ := List.mem_flatMap.mp hq
    exact (List.mem_filter.mp hq).2

theorem ts_of_cached {e : Engine Loc} {tag : Bytes} {range : TimeRange} {ts : Timestamp}
    (h : Cached e tag range ts) : range.contains ts = true := by
  obtain ⟨q, hq, rfl⟩ := h
  rw [Engine.readCache] at hq
  split at hq
  case isTrue => cases hq
  case isFalse => exact (List.mem_filter.mp hq).2

theorem eq_zero_of_contains {ts : Timestamp}
    (h : ({ start := 0, stop := 0 } : TimeRange).contains ts = true) : ts = 0 := by
  rw [TimeRange.contains_iff] at h
  exact Int64.le_antisymm h.2 h.1

/-- **Only the epoch is read.** -/
theorem reads_iff {env : Env Loc} {ex : Executor Loc} {sort : KeySort tsKey}
    {entries : List DirEntry} {x : Bytes}
    (hlist : (ex.engine.disk.tagDir env x).IsListing entries) :
    (∀ ts, Holds (ex.engine.disk.tagDir env x) ts →
      ts ∈ tsOf (ex.engine.readRaw env sort x ⟨0, 0⟩ entries)) ↔ OnlyEpoch env ex x := by
  constructor
  · intro h ts hts
    rcases (mem_tsOf_readRaw hlist).mp (h ts hts) with hcached | hfound
    · have hzero := eq_zero_of_contains (ts_of_cached hcached)
      rw [hzero] at hcached
      exact ⟨hzero, .inl hcached⟩
    · have hzero := eq_zero_of_contains (ts_of_foundInTables hfound)
      rw [hzero] at hfound
      exact ⟨hzero, .inr hfound⟩
  · intro h ts hts
    obtain ⟨hzero, hfound⟩ := h ts hts
    rw [hzero]
    exact (mem_tsOf_readRaw hlist).mpr hfound

/-! ## The statements -/

/-- A letter that is in no numeral with a unit. -/
theorem weight_literalText {k : UInt8} {n : Nat} {u : TimeUnit}
    (hdigit : ∀ d < 10, upperChar (digitByte d) ≠ k) (hunit : upperChar u.letter ≠ k) :
    weight k (literalText n u) = 0 := by
  rw [weight, List.count_eq_zero]
  intro hmem
  obtain ⟨c, hc, hupper⟩ := List.mem_map.mp hmem
  rcases List.mem_append.mp hc with hc | hc
  · obtain ⟨d, hd, rfl⟩ := mem_natDecimal hc
    exact hdigit d hd hupper
  · rw [List.mem_singleton.mp hc] at hupper
    exact hunit hupper

/-- There is no `L` and no `N` behind the tag. -/
theorem weight_groupTail (n : Nat) (u : TimeUnit) {k : UInt8} (hk : k ∈ [76, 78]) :
    weight k (groupTail n u) = 0 := by
  rw [List.mem_pair] at hk
  have hdigit : ∀ d < 10, upperChar (digitByte d) ≠ k := by
    rcases hk with rfl | rfl <;> decide
  have hunit : upperChar u.letter ≠ k := by
    rcases hk with rfl | rfl <;> (cases u <;> decide)
  have hfixed : weight k (ascii " GROUP BY TIME_BUCKET(") = 0 ∧ weight k (ascii ", ts)") = 0 ∧
      k ≠ quote := by
    rcases hk with rfl | rfl <;> decide
  obtain ⟨hfront, hback, hquote⟩ := hfixed
  have hcons : ∀ s, weight k (quote :: s) = weight k s := by
    intro s
    rw [weight, toUpper_cons]
    exact List.count_cons_of_ne hquote.symm
  rw [groupTail, weight_append, hcons, weight_append, hcons, hfront, hback,
    weight_literalText hdigit hunit]

theorem equals_notMem_groupTail (n : Nat) (u : TimeUnit) : equals ∉ groupTail n u := by
  have hdigit : ∀ d < 10, equals ≠ digitByte d := by decide
  have hunit : equals ≠ u.letter := by
    cases u <;> decide
  intro hmem
  simp only [groupTail, literalText, List.mem_append, List.mem_cons, List.not_mem_nil,
    or_false] at hmem
  rcases hmem with h | h | (h | h) | h | h
  · exact absurd h (by decide)
  · exact absurd h (by decide)
  · obtain ⟨d, hd, heq⟩ := mem_natDecimal h
    exact hdigit d hd heq
  · exact hunit h
  · exact absurd h (by decide)
  · exact absurd h (by decide)

theorem follows_groupTail (n : Nat) (u : TimeUnit) : Follows (groupTail n u) where
  tight := by
    simp only [groupTail, List.getLast?_cons, List.getLast?_append]
    rfl
  apart := by
    show some space ≠ some quote
    decide
  noAnd := weight_groupTail n u (by decide)
  noEquals := equals_notMem_groupTail n u

theorem trails_groupTail (n : Nat) (u : TimeUnit) : Trails (groupTail n u) :=
  .inr ⟨ascii "GROUP BY", by decide, ascii " TIME_BUCKET(" ++ quote :: (literalText n u
    ++ quote :: ascii ", ts)"), rfl⟩

/-- Without a `BETWEEN` in the tag there is no interval. -/
theorem withBetween_tagHead {conv : Conversions} {x after : Bytes}
    (hx : ¬ Mentions x (ascii "BETWEEN")) (hafter : weight 78 after = 0) :
    withBetween conv {} (bucketHead x ++ quote :: after) = {} := by
  apply withBetween_none
  rw [mentions_append_quote_iff (by decide), bucketHead, mentions_append_quote_iff (by decide)]
  rintro ((hhead | htag) | htail)
  · exact absurd hhead (by decide)
  · exact hx ((infix_doubleQuotes_iff (by decide) (by decide) x).mp htag)
  · exact not_mentions_of_weight (by decide) hafter htail

section
variable {conv : Conversions} {t x : Bytes}

/-- What a query for points is, and for which names the statement is one. -/
theorem rawReadable_of_reads {stmt : SelectStmt} (ht : IsTableName t)
    (h : Accepts conv (tagQuery t x []) (.select stmt)) (htable : stmt.tableName = t)
    (htag : stmt.where_.tagFilter = x) (hkind : selectKind stmt = .raw) : RawReadable t x := by
  have hreads := readable_of_reads ht h htable htag
  obtain ⟨-, hlatest, hgroup, -⟩ := accepts_tagQuery ht hreads.noWhere follows_nothing h
  unfold selectKind at hkind
  rw [htable] at hkind
  split at hkind
  case isTrue => cases hkind
  case isFalse hsnapshot =>
    split at hkind
    case isTrue => cases hkind
    case isFalse hnotLatest =>
      split at hkind
      case isTrue => cases hkind
      case isFalse hnotGroup =>
        rw [hlatest, Bool.or_eq_true, not_or, Bool.not_eq_true, Bool.not_eq_true,
          Option.isSome_eq_false_iff, Option.isNone_iff_eq_none,
          findKeyword_tagQuery_eq_none_iff ht (by decide)] at hnotLatest
        rw [hgroup, Option.isSome_map, Bool.not_eq_true, Option.isSome_eq_false_iff,
          Option.isNone_iff_eq_none, findKeyword_tagQuery_eq_none_iff ht (by decide)] at hnotGroup
        exact ⟨hreads, hsnapshot, ⟨hnotLatest.2.1, hnotLatest.2.2.1⟩, hnotGroup.2.1⟩

/-- What such a query asks for, with a `GROUP BY` and without. -/
theorem RawReadable.accepts (conv : Conversions) {tail : Bytes} (ht : IsTableName t)
    (h : RawReadable t x) (hx : ¬ Mentions x (ascii "BETWEEN")) (hfollows : Follows tail)
    (htail : Trails tail) (hlatest : ¬ Mentions tail (ascii "LATEST")) :
    ∃ stmt : SelectStmt, Accepts conv (tagQuery t x tail) (.select stmt) ∧ stmt.tableName = t ∧
      stmt.where_ = { tagFilter := x } ∧
      selectKind stmt = if Mentions tail (ascii "GROUP BY") then .aggregate else .raw := by
  obtain ⟨stmt, after, hafter, haccepts, htable, hwhere⟩ :=
    h.toReadable.accepts conv ht hfollows htail
  have hnoAnd : weight 78 after = 0 := by
    rcases hafter with rfl | rfl
    · rfl
    · exact hfollows.noAnd
  rw [withBetween_tagHead hx hnoAnd] at hwhere
  refine ⟨stmt, haccepts, htable, hwhere, ?_⟩
  obtain ⟨-, hlatest', hgroup, -⟩ := accepts_tagQuery ht h.noWhere hfollows haccepts
  have hnone : findKeyword (tagQuery t x tail) (ascii "LATEST") 14 = none :=
    (findKeyword_tagQuery_eq_none_iff ht (by decide)).mpr ⟨h.noLatest.1, h.noLatest.2, hlatest⟩
  have hname : ¬ Mentions t (ascii "GROUP BY") := by
    have hby : ¬ Mentions (t ++ []) (ascii "GROUP BY") :=
      not_mentions_by ht (ascii "GROUP") (by decide)
    rw [List.append_nil] at hby
    exact hby
  have hno : stmt.latest = false := by
    rw [hlatest', hnone, Option.isSome_none, Bool.or_false]
    exact decide_eq_false h.noSnapshot
  have hfound : findKeyword (tagQuery t x tail) (ascii "GROUP BY") 14 = none ↔
      ¬ Mentions tail (ascii "GROUP BY") := by
    rw [findKeyword_tagQuery_eq_none_iff ht (by decide)]
    exact ⟨fun h => h.2.2, fun htail => ⟨hname, h.noGroup, htail⟩⟩
  rw [selectKind, htable, if_neg h.noSnapshot, hno, if_neg (by decide), hgroup, Option.isSome_map]
  by_cases hgroups : Mentions tail (ascii "GROUP BY")
  · obtain ⟨i, hi⟩ : ∃ i, findKeyword (tagQuery t x tail) (ascii "GROUP BY") 14 = some i :=
      Option.ne_none_iff_exists'.mp fun hnone => hfound.mp hnone hgroups
    rw [if_pos hgroups, hi, Option.isSome_some, if_pos rfl]
  · rw [if_neg hgroups, hfound.mpr hgroups, if_neg (by decide)]

end

/-- What the points are folded to is what the rows say. -/
theorem executeSelectAggregate_eq {V : Type} [DecidableEq Loc] [LinearOrder V] [Zero V] [Add V]
    [Mul V] [Div V] [NatCast V] [Sub V] (env : Env Loc) (sorts : Sorts)
    (sort : KeySort (bucketKey (V := V))) (ofBits : UInt64 → V) (formats : Formats)
    (doubles : DoubleFunctions V) (ex : Executor Loc) {stmt : SelectStmt} {bucket : Bytes}
    (hbucket : stmt.groupBy = some bucket) (entries : List DirEntry) :
    executeSelectAggregate env sorts sort ofBits formats doubles ex stmt entries
      = (aggregateCall stmt bucket).map fun call =>
        { ok := true, columnNames := [ascii "bucket", ascii "value"]
          rows := (aggregate sort ofBits call.bucketMs
            (aggregatedPoints env sorts ex stmt entries)).map fun b =>
              [formats.timestamp b.bucketTs, aggText doubles call.aggType b] } := by
  have hcall : aggregateCall stmt bucket = (bucketMsOf bucket).map fun bucketMs =>
      { tag := stmt.where_.tagFilter, range := stmt.where_.timeRange, bucketMs := bucketMs,
        aggType := aggTypeOf stmt.columns } := by
    rw [aggregateCall]
    cases bucketMsOf bucket <;> rfl
  rw [executeSelectAggregate, hbucket]
  dsimp only
  rw [hcall]
  cases bucketMsOf bucket <;> rfl

section
variable {conv : Conversions} {env : Env Loc} {sorts : Sorts} {ex : Executor Loc}
  {entries : List DirEntry} {t x : Bytes}

/-- All is read only if there is nothing but the epoch. -/
theorem Unbounded.onlyEpoch (h : Unbounded conv env sorts ex entries t x) (ht : IsTableName t)
    (hx : ¬ Mentions x (ascii "BETWEEN"))
    (hlist : (ex.engine.disk.tagDir env x).IsListing entries) :
    RawReadable t x ∧ OnlyEpoch env ex x := by
  obtain ⟨stmt, haccepts, htable, htag, hkind, hcovers⟩ := h.raw
  have hreads := rawReadable_of_reads ht haccepts htable htag hkind
  obtain ⟨stmt', haccepts', -, hwhere, -⟩ :=
    hreads.accepts conv ht hx follows_nothing (.inl rfl) (by decide)
  have hsame : stmt = stmt' := SQLStmt.select.inj (haccepts.unique haccepts')
  rw [rawPoints_of_accepts haccepts, hsame, hwhere] at hcovers
  exact ⟨hreads, (reads_iff hlist).mp hcovers⟩

theorem unbounded_of_onlyEpoch (conv : Conversions) (sorts : Sorts) (ht : IsTableName t)
    (hx : ¬ Mentions x (ascii "BETWEEN"))
    (hlist : (ex.engine.disk.tagDir env x).IsListing entries) (hreads : RawReadable t x)
    (hepoch : OnlyEpoch env ex x) : Unbounded conv env sorts ex entries t x := by
  have hcovers : ∀ ts, Holds (ex.engine.disk.tagDir env x) ts →
      ts ∈ tsOf (ex.engine.readRaw env sorts.asc x ⟨0, 0⟩ entries) := (reads_iff hlist).mpr hepoch
  constructor
  · obtain ⟨stmt, haccepts, htable, hwhere, hkind⟩ :=
      hreads.accepts conv ht hx follows_nothing (.inl rfl) (by decide)
    refine ⟨stmt, haccepts, htable, by rw [hwhere], by rw [hkind, if_neg (by decide)], ?_⟩
    rw [rawPoints_of_accepts haccepts, hwhere]
    exact hcovers
  · intro n u
    have hlatest : ¬ Mentions (groupTail n u) (ascii "LATEST") :=
      not_mentions_of_weight (k := 76) (by decide) (weight_groupTail n u (by decide))
    obtain ⟨stmt, haccepts, htable, hwhere, hkind⟩ :=
      hreads.accepts conv ht hx (follows_groupTail n u) (trails_groupTail n u) hlatest
    have hgroup : Mentions (groupTail n u) (ascii "GROUP BY") := by
      rw [Mentions, groupTail, toUpper_append]
      exact List.IsInfix.trans (by decide) (List.prefix_append _ _).isInfix
    refine ⟨stmt, haccepts, htable, by rw [hwhere], by rw [hkind, if_pos hgroup], ?_⟩
    rw [aggregatedPoints, hwhere]
    exact hcovers

end

/-- **Without a time predicate all is read exactly if there is nothing but the epoch**, of a tag
and a table that are read as they are written. -/
theorem unbounded_iff (conv : Conversions) {env : Env Loc} (sorts : Sorts) {ex : Executor Loc}
    {entries : List DirEntry} {t x : Bytes} (ht : IsTableName t)
    (hx : ¬ Mentions x (ascii "BETWEEN"))
    (hlist : (ex.engine.disk.tagDir env x).IsListing entries) :
    Unbounded conv env sorts ex entries t x ↔ RawReadable t x ∧ OnlyEpoch env ex x :=
  ⟨fun h => h.onlyEpoch ht hx hlist,
    fun h => unbounded_of_onlyEpoch conv sorts ht hx hlist h.1 h.2⟩

/-! ## One point -/

/-- An SSTable with one point is in the directory of every tag. -/
def pointDir (ts : Timestamp) : Dir :=
  Dir.empty.set (ascii "1.sst") (.file (tableBytes [[⟨ts, .double 0⟩]]))

def withPoint (ts : Timestamp) : Executor Bytes :=
  { executorOn [] with
    engine := { (executorOn []).engine with disk := { dirs := fun _ => pointDir ts } } }

def pointEntries (ts : Timestamp) : List DirEntry :=
  (pointDir ts).nodes.entries.map fun e => e.2.entry e.1

theorem tablePoints_pointDir (ts : Timestamp) :
    tablePoints (pointDir ts) (ascii "1.sst") = dataPoints (tableBytes [[⟨ts, .double 0⟩]]) :=
  tablePoints_of_lookup Dir.lookup_set

/-- The statement on an engine with one point, of the epoch. -/
theorem unbounded_epoch : Unbounded plainSetting.conv plainSetting.env plainSetting.sorts
    (withPoint 0) (pointEntries 0) (ascii "boiler_temp") (ascii "BOILER-001") := by
  have hfile : dataPoints (tableBytes [[⟨0, .double 0⟩]]) = [⟨0, .double 0⟩] := by
    rw [dataPoints,
      queryFile_tableBytes (by decide) (streamsFit_of_lengths (by decide)) (by decide)]
    decide
  have hquery : queryFile (tableBytes [[⟨0, .double 0⟩]]) ⟨0, 0⟩ = some [⟨0, .double 0⟩] := by
    rw [queryFile_tableBytes (by decide) (streamsFit_of_lengths (by decide)) (by decide)]
    decide
  have hreads : RawReadable (ascii "boiler_temp") (ascii "BOILER-001") :=
    ⟨⟨by decide, by decide, .inr (by decide)⟩, by decide, by decide, by decide⟩
  refine (unbounded_iff _ _ ⟨by decide, List.all_eq_true.mp rfl⟩ (by decide)
    (List.Perm.refl _)).mpr ⟨hreads, ?_⟩
  rintro ts ⟨p, ⟨name, -, hp⟩, rfl⟩
  have hin : p ∈ tablePoints (pointDir 0) name := hp
  have hname : name = ascii "1.sst" := by
    by_contra hne
    rw [pointDir, tablePoints_congr (Dir.lookup_set_ne hne)] at hin
    cases hin
  rw [hname, tablePoints_pointDir, hfile, List.mem_singleton] at hin
  rw [hin]
  have hread : (pointDir 0).readFile (ascii "1.sst") = some (tableBytes [[⟨0, .double 0⟩]]) := rfl
  refine ⟨rfl, .inr ⟨ascii "1.sst", _, by decide, hread, ⟨0, .double 0⟩, ?_, rfl⟩⟩
  rw [hquery]
  exact List.mem_singleton_self _

/-- **A point of the second second is not read.** -/
theorem unbounded_select_reads_epoch : ¬ Unbounded plainSetting.conv plainSetting.env
    plainSetting.sorts (withPoint 1000000) (pointEntries 1000000) (ascii "boiler_temp")
    (ascii "BOILER-001") := by
  intro h
  have hfile : dataPoints (tableBytes [[⟨1000000, .double 0⟩]]) = [⟨1000000, .double 0⟩] := by
    rw [dataPoints,
      queryFile_tableBytes (by decide) (streamsFit_of_lengths (by decide)) (by decide)]
    decide
  obtain ⟨-, hepoch⟩ := h.onlyEpoch ⟨by decide, List.all_eq_true.mp rfl⟩ (by decide) (List.Perm.refl _)
  have hholds : Holds (pointDir 1000000) 1000000 := by
    refine ⟨⟨1000000, .double 0⟩, ⟨ascii "1.sst", by decide, ?_⟩, rfl⟩
    rw [tablePoints_pointDir, hfile]
    exact List.mem_singleton_self _
  exact absurd (hepoch 1000000 hholds).1 (by decide)

end Server
end MiniTSDB
