import MiniTSDB.Server.Treatment
import MiniTSDB.Snapshot.MatchPattern
import MiniTSDB.Sql.Insert
import MiniTSDB.Sql.Keywords
import MiniTSDB.Lib.Decimal

/-!
# Counting the rows of `SNAPSHOT` (`executor.cpp`)

`SELECT COUNT(*)` and `SELECT *` of a snapshot are parsed to the same conditions, whatever these
are. Only where there are none does `ExecuteSnapshot` look at the `COUNT`: with a tag or a pattern
both statements list the rows, so they agree exactly where the parser takes neither from the filter
(`count_agrees_iff`).
-/

namespace MiniTSDB
namespace Server

open Lib Sql Snapshot

/-! ## `ExecuteSnapshot` -/

/-- One row; `std::to_string` of a double is a parameter. -/
def snapshotRow (toText : UInt64 → Bytes) (sel : SnapshotColumns) (entry : CachedSnapshot) :
    List Bytes :=
  (if sel.all || sel.tag then [entry.tag] else [])
    ++ (if sel.all || sel.value then
      [if entry.valid then toText entry.value else ascii "null"] else [])
    ++ (if sel.all || sel.ts then [decimal entry.timestamp.toInt] else [])

def snapshotColumnNames (sel : SnapshotColumns) : List Bytes :=
  (if sel.all || sel.tag then [ascii "tag"] else [])
    ++ (if sel.all || sel.value then [ascii "value"] else [])
    ++ (if sel.all || sel.ts then [ascii "ts"] else [])

/-- The entries, listed. -/
def snapshotRows (toText : UInt64 → Bytes) (sel : SnapshotColumns)
    (entries : List CachedSnapshot) : QueryResult where
  ok := true
  columnNames := snapshotColumnNames sel
  rows := entries.map (snapshotRow toText sel)

/-- `ExecuteSnapshot`. The executor may have no engine, and an engine no store; `order` is what
going over the store gives. -/
def executeSnapshot (toText : UInt64 → Bytes) (engine : Option (Option SnapshotMap))
    (order : List CachedSnapshot) (stmt : SelectStmt) : QueryResult :=
  match engine with
  | none => { errorMsg := ascii "Storage engine not available" }
  | some none => { errorMsg := ascii "Snapshot store not available" }
  | some (some store) =>
    let sel := snapshotColumns stmt.columns
    if stmt.where_.tagPattern ≠ [] then
      snapshotRows toText sel (SnapshotMap.getByPattern order stmt.where_.tagPattern)
    else if stmt.where_.tagFilter ≠ [] then
      snapshotRows toText sel (store.get stmt.where_.tagFilter).toList
    else if sel.count then
      { ok := true, columnNames := [ascii "count"], rows := [[natDecimal store.count]] }
    else snapshotRows toText sel order

/-! ## The statements -/

/-- No filter, or `tag = 'x'` or `tag LIKE 'x'`. -/
inductive SnapshotFilter
  | none
  | literal (op : Operator) (x : Bytes)
  deriving DecidableEq, Repr

def snapshotTable : Bytes := ascii "SNAPSHOT"

/-- `SELECT cols FROM SNAPSHOT`, and the filter. -/
def SnapshotFilter.text (cols : Bytes) : SnapshotFilter → Bytes
  | .none => ascii "SELECT " ++ (cols ++ ascii " FROM SNAPSHOT")
  | .literal op x => selectOf cols snapshotTable (literalClause op x [])

/-- What a statement on the snapshot answers. -/
def SnapshotAnswers (conv : Conversions) (toText : UInt64 → Bytes) (store : SnapshotMap)
    (order : List CachedSnapshot) (sql : Bytes) (result : QueryResult) : Prop :=
  ∃ stmt, Accepts conv sql (.select stmt) ∧ selectKind stmt = .snapshot ∧
    result = executeSnapshot toText (some (some store)) order stmt

/-- `SELECT COUNT(*)` gives one row with the number of rows that `SELECT *` gives. -/
def CountAgrees (conv : Conversions) (toText : UInt64 → Bytes) (store : SnapshotMap)
    (order order' : List CachedSnapshot) (filter : SnapshotFilter) : Prop :=
  ∃ counted listed,
    SnapshotAnswers conv toText store order (filter.text (ascii "COUNT(*)")) counted ∧
    SnapshotAnswers conv toText store order' (filter.text (ascii "*")) listed ∧
    counted.ok = true ∧ listed.ok = true ∧ counted.rows = [[natDecimal listed.rows.length]]

/-- The parser takes no tag and no pattern from the filter. -/
def NoTagRead (conv : Conversions) (filter : SnapshotFilter) : Prop :=
  ∃ stmt, Accepts conv (filter.text (ascii "*")) (.select stmt) ∧
    stmt.where_.tagFilter = [] ∧ stmt.where_.tagPattern = []

/-! ## The same conditions -/

theorem earliest_shift {sql sql' : Bytes} {found : List (Option Nat)} {k : Nat}
    (hlen : sql'.length = sql.length + k) :
    earliest sql' (found.map fun pos => pos.map (· + k)) = earliest sql found + k := by
  have hfold : ∀ (found : List (Option Nat)) (stop : Nat),
      (found.map fun pos => pos.map (· + k)).foldl (fun stop pos => min stop (pos.getD stop))
        (stop + k) = found.foldl (fun stop pos => min stop (pos.getD stop)) stop + k := by
    intro found
    induction found with
    | nil => exact fun stop => rfl
    | cons pos found ih =>
      intro stop
      rw [List.map_cons, List.foldl_cons, List.foldl_cons, ← ih]
      cases pos with
      | none => simp
      | some pos => simp
  rw [earliest, hlen]
  exact hfold found sql.length

/-- The columns shift where the clause ends, and nothing else. -/
theorem clauseEnd_shift (cols t rest : Bytes) :
    clauseEnd (selectOf cols t rest) (cols.length + 13)
      = clauseEnd (behindFrom t rest) 0 + (cols.length + 13) := by
  have hlen : (selectOf cols t rest).length = (behindFrom t rest).length + (cols.length + 13) := by
    rw [selectOf_eq, List.length_append, length_beforeName, Nat.add_comm]
  have hfound : ∀ kw, findKeyword (selectOf cols t rest) kw (cols.length + 13)
      = (findKeyword (behindFrom t rest) kw 0).map (· + (cols.length + 13)) := by
    intro kw
    rw [findKeyword_selectOf, findKeyword, findFrom, List.drop_zero, Option.map_map]
    rfl
  rw [clauseEnd, clauseEnd, ← earliest_shift hlen, List.map_map]
  simp only [hfound, Function.comp_def]

/-- The conditions of a statement, as the parser cuts them out. -/
def clauseText (t rest : Bytes) : Bytes :=
  trim (if t.length + 7 ≤ clauseEnd (behindFrom t rest) 0
    then rest.take (clauseEnd (behindFrom t rest) 0 - (t.length + 7)) else rest)

theorem whereClause_eq (conv : Conversions) (fuel : Nat) (cols : Bytes) {t rest : Bytes}
    (hrest : rest.head?.any (fun c => !(isBlank c || c = comma)) = true) :
    whereClause conv fuel (selectOf cols t rest) (some (t.length + 1 + (cols.length + 13)))
        (clauseEnd (selectOf cols t rest) (cols.length + 13))
      = whereConditions conv (clauseText t rest) fuel 0 {} := by
  rw [whereClause_selectOf hrest, clauseEnd_shift, clauseText]
  have hle : cols.length + t.length + 20 ≤ clauseEnd (behindFrom t rest) 0 + (cols.length + 13)
      ↔ t.length + 7 ≤ clauseEnd (behindFrom t rest) 0 := by omega
  have htake : clauseEnd (behindFrom t rest) 0 + (cols.length + 13) - (cols.length + t.length + 20)
      = clauseEnd (behindFrom t rest) 0 - (t.length + 7) := by omega
  simp only [hle, htake]

/-- More turns change nothing once the conditions are read. -/
theorem whereConditions_more {conv : Conversions} {clause : Bytes} {fuel more pos : Nat}
    {w r : WhereClause} (h : whereConditions conv clause fuel pos w = .ok r) (hle : fuel ≤ more) :
    whereConditions conv clause more pos w = .ok r := by
  induction fuel generalizing more pos w with
  | zero => cases h
  | succ fuel ih =>
    obtain ⟨more, rfl⟩ : ∃ n, more = n + 1 := ⟨more - 1, by omega⟩
    have hle' : fuel ≤ more := by omega
    rw [whereConditions_succ] at h ⊢
    split
    case isFalse hend =>
      rw [if_neg hend] at h
      exact h
    case isTrue hgo =>
      rw [if_pos hgo] at h
      cases hand : findKeyword clause (ascii "AND") pos with
      | none =>
        rw [hand] at h
        obtain ⟨cond, hcond, h⟩ := bind_eq_ok h
        obtain ⟨next, hnext, h⟩ := bind_eq_ok h
        show (substr clause pos >>= fun cond => parseWhereCondition conv w (trim cond) >>= _) = _
        rw [hcond, ok_bind, hnext, ok_bind]
        exact ih h hle'
      | some nextAnd =>
        rw [hand] at h
        obtain ⟨cond, hcond, h⟩ := bind_eq_ok h
        obtain ⟨next, hnext, h⟩ := bind_eq_ok h
        show (substrTo clause pos nextAnd >>= fun cond =>
          parseWhereCondition conv w (trim cond) >>= _) = _
        rw [hcond, ok_bind, hnext, ok_bind]
        exact ih h hle'

/-! ## What the two statements are parsed to -/

section
variable {conv : Conversions} {op : Operator} {x : Bytes}

theorem front_literalClause (op : Operator) (x : Bytes) :
    (literalClause op x []).head?.any (fun c => !(isBlank c || c = comma)) = true := by
  cases op with
  | eq => rfl
  | like => rfl

theorem trim_text (cols : Bytes) (op : Operator) (x : Bytes) :
    trim (selectOf cols snapshotTable (literalClause op x []))
      = selectOf cols snapshotTable (literalClause op x []) := by
  apply trim_eq
  apply tight_append rfl
  simp only [behindFrom, literalClause, List.getLast?_append, List.getLast?_cons]
  rfl

/-- With a filter, for these columns. -/
theorem parse_literal (conv : Conversions) (fuel : Nat) {cols : Bytes} (hcols : IsColumns cols)
    (op : Operator) (x : Bytes) :
    parse conv fuel (selectOf cols snapshotTable (literalClause op x [])) = (do
      let columns ← selectColumns (cols ++ [space]) fuel 0 []
      let where_ ← whereConditions conv (clauseText snapshotTable (literalClause op x [])) fuel 0 {}
      return .success (.select
        { columns := columns, tableName := snapshotTable, where_ := where_, latest := true,
          groupBy := (findKeyword (selectOf cols snapshotTable (literalClause op x []))
            (ascii "GROUP BY") (cols.length + 13)).map
              (groupBucket (selectOf cols snapshotTable (literalClause op x []))) })) := by
  have htable : IsTableName snapshotTable := ⟨by decide, List.all_eq_true.mp rfl⟩
  have hwhere : find (ascii "WHERE") (toUpper (behindFrom snapshotTable (literalClause op x [])))
      = some (snapshotTable.length + 1) := by
    apply find_behind_name (by decide) (by decide) (by decide)
    rw [toUpper_append]
    exact List.IsPrefix.trans (by decide) (List.prefix_append _ _)
  rw [parse_selectOf conv fuel (trim_text cols op x) hcols htable hwhere,
    whereClause_eq conv fuel cols (front_literalClause op x)]
  rfl

/-- Without one. -/
theorem parse_none (conv : Conversions) (fuel : Nat) {cols : Bytes} (hcols : IsColumns cols) :
    parse conv fuel (SnapshotFilter.none.text cols) = (do
      let columns ← selectColumns (cols ++ [space]) fuel 0 []
      return .success (.select { columns := columns, tableName := snapshotTable })) := by
  have htext : SnapshotFilter.none.text cols = selectFrom cols snapshotTable := rfl
  have htight : Tight (selectFrom cols snapshotTable) := by
    rw [selectFrom_eq]
    apply tight_append rfl
    rfl
  rw [htext, parse_selectFrom conv fuel (trim_eq htight) hcols rfl]
  rfl

theorem length_clauseText_le (cols : Bytes) (op : Operator) (x : Bytes) :
    (clauseText snapshotTable (literalClause op x [])).length
      ≤ (selectOf cols snapshotTable (literalClause op x [])).length := by
  have hrest : (literalClause op x []).length
      ≤ (selectOf cols snapshotTable (literalClause op x [])).length := by
    simp only [selectOf, behindFrom, List.length_append, List.length_cons]
    omega
  refine Nat.le_trans (length_trim_le _) (Nat.le_trans ?_ hrest)
  split
  · exact List.length_take_le' _ _
  · exact Nat.le_refl _

/-- The statement is parsed to these columns and these conditions. -/
def Parsed (conv : Conversions) (sql : Bytes) (columns : List SelectExpr) (w : WhereClause) :
    Prop :=
  ∃ stmt, Accepts conv sql (.select stmt) ∧ selectKind stmt = .snapshot ∧ stmt.columns = columns ∧
    stmt.where_ = w

theorem parsed_literal {cols : Bytes} {columns : List SelectExpr} {w : WhereClause}
    (hcols : IsColumns cols)
    (hcolumns : ∀ fuel, selectColumns (cols ++ [space]) (fuel + 2) 0 [] = .ok columns)
    (hw : whereConditions conv (clauseText snapshotTable (literalClause op x []))
      ((clauseText snapshotTable (literalClause op x [])).length + 1) 0 {} = .ok w) :
    Parsed conv (selectOf cols snapshotTable (literalClause op x [])) columns w := by
  have hlong := length_clauseText_le cols op x
  obtain ⟨more, hmore⟩ : ∃ more,
      (selectOf cols snapshotTable (literalClause op x [])).length + 1 = more + 2 :=
    ⟨_, rfl⟩
  have hparse := parse_literal conv
    ((selectOf cols snapshotTable (literalClause op x [])).length + 1) hcols op x
  rw [whereConditions_more hw (Nat.succ_le_succ hlong), hmore, hcolumns, ok_bind, ok_bind,
    ← hmore] at hparse
  exact ⟨_, ⟨_, hparse, rfl⟩, rfl, rfl, rfl⟩

theorem parsed_none {cols : Bytes} {columns : List SelectExpr} (hcols : IsColumns cols)
    (hcolumns : ∀ fuel, selectColumns (cols ++ [space]) (fuel + 2) 0 [] = .ok columns) :
    Parsed conv (SnapshotFilter.none.text cols) columns {} := by
  obtain ⟨more, hmore⟩ : ∃ more, (SnapshotFilter.none.text cols).length + 1 = more + 2 := ⟨_, rfl⟩
  have hparse := parse_none conv ((SnapshotFilter.none.text cols).length + 1) hcols
  rw [hmore, hcolumns, ok_bind, ← hmore] at hparse
  exact ⟨_, ⟨_, hparse, rfl⟩, rfl, rfl, rfl⟩

end

/-- The columns of `SELECT *`, and of `SELECT COUNT(*)`. -/
def starColumns : List SelectExpr := [{ expr := ascii "*" }]

def countColumns : List SelectExpr :=
  [{ expr := ascii "COUNT(*)", isAggregate := true, aggType := .count }]

/-- **Both statements have the same conditions**, whatever is in the filter. -/
theorem exists_where (conv : Conversions) (filter : SnapshotFilter) :
    ∃ w, Parsed conv (filter.text (ascii "*")) starColumns w ∧
      Parsed conv (filter.text (ascii "COUNT(*)")) countColumns w := by
  have hcount : IsColumns (ascii "COUNT(*)") := ⟨by decide, by decide⟩
  have hstar' : ∀ fuel, selectColumns (ascii "*" ++ [space]) (fuel + 2) 0 [] = .ok starColumns :=
    fun _ => rfl
  have hcount' : ∀ fuel, selectColumns (ascii "COUNT(*)" ++ [space]) (fuel + 2) 0 []
      = .ok countColumns := fun _ => rfl
  cases filter with
  | none => exact ⟨{}, parsed_none isColumns_star hstar', parsed_none hcount hcount'⟩
  | literal op x =>
    obtain ⟨w, hw, -⟩ : Returns (whereConditions conv
        (clauseText snapshotTable (literalClause op x []))
        ((clauseText snapshotTable (literalClause op x [])).length + 1) 0 {}) fun _ => True :=
      whereConditions_returns (Nat.lt_succ_of_le (Nat.sub_le _ _))
    exact ⟨w, parsed_literal isColumns_star hstar' hw, parsed_literal hcount hcount' hw⟩

/-! ## What they answer -/

section
variable {store : SnapshotMap} {order order' : List CachedSnapshot}

theorem ok_executeSnapshot (toText : UInt64 → Bytes) (stmt : SelectStmt) :
    (executeSnapshot toText (some (some store)) order stmt).ok = true := by
  unfold executeSnapshot
  dsimp only
  split
  · rfl
  · split
    · rfl
    · split
      · rfl
      · rfl

/-- **`COUNT` counts where there are no conditions on the tag**; with one it lists the rows, of
three columns each. -/
theorem count_rows_iff (toText : UInt64 → Bytes) (h' : store.Lists order')
    {counted listed : SelectStmt} (hcounted : counted.columns = countColumns)
    (hlisted : listed.columns = starColumns) (hwhere : counted.where_ = listed.where_) :
    (executeSnapshot toText (some (some store)) order counted).rows
        = [[natDecimal (executeSnapshot toText (some (some store)) order' listed).rows.length]] ↔
      listed.where_.tagFilter = [] ∧ listed.where_.tagPattern = [] := by
  have hcount : snapshotColumns countColumns = { all := true, count := true } := by decide
  have hstar : snapshotColumns starColumns = { all := true } := by decide
  have hrows : ∀ entries n,
      (snapshotRows toText { all := true, count := true } entries).rows ≠ [[natDecimal n]] := by
    intro entries n heq
    cases entries with
    | nil => cases heq
    | cons entry entries =>
      have hlen := congrArg (fun rows : List (List Bytes) => (rows.headD []).length) heq
      simp [snapshotRows, snapshotRow] at hlen
  unfold executeSnapshot
  rw [hcounted, hlisted, hwhere, hcount, hstar]
  by_cases hpattern : listed.where_.tagPattern = []
  · by_cases hfilter : listed.where_.tagFilter = []
    · have hlen : (snapshotRows toText { all := true } order').rows.length = store.count := by
        rw [snapshotRows, List.length_map, h'.length]
      simp [hpattern, hfilter, hlen]
    · simp [hpattern, hfilter, hrows]
  · simp [hpattern, hrows]

/-- **The count is right exactly where the parser takes no tag from the filter.** -/
theorem count_agrees_iff (conv : Conversions) (toText : UInt64 → Bytes) (h' : store.Lists order')
    (filter : SnapshotFilter) :
    CountAgrees conv toText store order order' filter ↔ NoTagRead conv filter := by
  obtain ⟨w, ⟨listed, hlisted, hkind, hcolumns, hw⟩, ⟨counted, hcounted, hkind', hcolumns', hw'⟩⟩ :=
    exists_where conv filter
  have hiff : (executeSnapshot toText (some (some store)) order counted).rows
        = [[natDecimal (executeSnapshot toText (some (some store)) order' listed).rows.length]] ↔
      listed.where_.tagFilter = [] ∧ listed.where_.tagPattern = [] :=
    count_rows_iff toText h' hcolumns' hcolumns (hw'.trans hw.symm)
  constructor
  · rintro ⟨_, _, ⟨stmt, hstmt, -, rfl⟩, ⟨stmt', hstmt', -, rfl⟩, -, -, hrows⟩
    cases hstmt.unique hcounted
    cases hstmt'.unique hlisted
    exact ⟨listed, hlisted, hiff.mp hrows⟩
  · rintro ⟨stmt, hstmt, hnone⟩
    cases hstmt.unique hlisted
    exact ⟨_, _, ⟨counted, hcounted, hkind', rfl⟩, ⟨listed, hlisted, hkind, rfl⟩,
      ok_executeSnapshot toText counted, ok_executeSnapshot toText listed, hiff.mpr hnone⟩

end

/-! ## Plain filters -/

/-- The keywords that take a literal apart are not in it. -/
structure PlainLiteral (x : Bytes) : Prop where
  noAnd : ¬ Mentions x (ascii "AND")
  noEnd : ∀ kw ∈ clauseEnds, ¬ Mentions x kw

/-- The clause is then the condition. -/
theorem whereConditions_clauseText (conv : Conversions) {fuel : Nat} (op : Operator) {x : Bytes}
    (hx : PlainLiteral x) :
    whereConditions conv (clauseText snapshotTable (literalClause op x [])) fuel 0 {}
      = whereConditions conv (literalClause op x []) fuel 0 {} := by
  have htable : IsTableName snapshotTable := ⟨by decide, List.all_eq_true.mp rfl⟩
  have hsplit : literalClause op x [] = (condHead op ++ quote :: doubleQuotes x) ++ [quote] := by
    simp only [literalClause, List.append_assoc, List.cons_append]
  have hnone : ∀ kw ∈ clauseEnds,
      ¬ Mentions (behindFrom snapshotTable (condHead op ++ quote :: doubleQuotes x)) kw := by
    intro kw hkw h
    obtain ⟨hhead, hby⟩ := headText_noKeyword op
    rcases (mentions_literal_iff htable hkw hhead hby x).mp h with hname | hliteral
    · exact absurd hname ((by decide : ∀ kw ∈ clauseEnds, ¬ Mentions snapshotTable kw) kw hkw)
    · exact hx.noEnd kw hkw hliteral
  have hclosed : whereClause conv fuel (selectOf [] snapshotTable
      ((condHead op ++ quote :: doubleQuotes x) ++ [quote]))
        (some (snapshotTable.length + 1 + (([] : Bytes).length + 13)))
        (clauseEnd (selectOf [] snapshotTable ((condHead op ++ quote :: doubleQuotes x) ++ [quote]))
          (([] : Bytes).length + 13))
      = whereConditions conv ((condHead op ++ quote :: doubleQuotes x) ++ [quote]) fuel 0 {} := by
    refine whereClause_closed ?_ hnone (.inl rfl)
    cases op with
    | eq => rfl
    | like => rfl
  rw [← whereClause_eq conv fuel [] (front_literalClause op x), hsplit, hclosed]

/-- **From a literal without keywords nothing is taken if there is nothing in it**, or if it is a
pattern with a `=`, which is taken for the operator. -/
theorem noTagRead_literal_iff (conv : Conversions) (op : Operator) {x : Bytes}
    (hx : PlainLiteral x) :
    NoTagRead conv (.literal op x) ↔ x = [] ∨ (op = .like ∧ equals ∈ x) := by
  obtain ⟨w, hw, -⟩ : Returns (whereConditions conv
      (clauseText snapshotTable (literalClause op x []))
      ((clauseText snapshotTable (literalClause op x [])).length + 1) 0 {}) fun _ => True :=
    whereConditions_returns (Nat.lt_succ_of_le (Nat.sub_le _ _))
  obtain ⟨listed, hlisted, -, -, rfl⟩ :=
    parsed_literal ⟨by decide, by decide⟩ (fun _ => rfl : ∀ fuel,
      selectColumns (ascii "*" ++ [space]) (fuel + 2) 0 [] = .ok starColumns) hw
  rw [whereConditions_clauseText conv op hx] at hw
  have hcond := parseWhereCondition_of_whereConditions (isHead_condHead op) follows_nothing hx.noAnd
    hw
  have hread : NoTagRead conv (.literal op x) ↔
      listed.where_.tagFilter = [] ∧ listed.where_.tagPattern = [] := by
    constructor
    · rintro ⟨stmt, hstmt, hnone⟩
      cases hstmt.unique hlisted
      exact hnone
    · intro hnone
      exact ⟨listed, hlisted, hnone⟩
  rw [hread]
  cases op with
  | eq =>
    obtain ⟨w, hw', hfilter, hpattern⟩ := parseWhereCondition_eq follows_nothing
    cases hcond.symm.trans hw'
    simp [hfilter, hpattern]
  | like =>
    by_cases hequals : equals ∈ x
    · exact iff_of_true (nothing_of_equals hequals hcond) (.inr ⟨rfl, hequals⟩)
    · obtain ⟨w, hw', hfilter, hpattern⟩ := parseWhereCondition_like follows_nothing hequals
      cases hcond.symm.trans hw'
      simp [hfilter, hpattern, hequals]

/-- One tag, `a`. -/
def snapshotOfA : SnapshotMap := SnapshotMap.empty.put { tag := ascii "a", valid := true }

theorem lists_snapshotOfA : snapshotOfA.Lists [{ tag := ascii "a", valid := true }] :=
  List.Perm.refl _

/-- Without a filter the tag is counted. -/
theorem count_without_filter : CountAgrees noConversions (fun _ => []) snapshotOfA
    [{ tag := ascii "a", valid := true }] [{ tag := ascii "a", valid := true }] .none :=
  have haccepts : Accepts noConversions (SnapshotFilter.none.text (ascii "*"))
      (.select { columns := starColumns, tableName := snapshotTable }) :=
    ⟨.success _, by decide, rfl⟩
  (count_agrees_iff noConversions _ lists_snapshotOfA .none).mpr ⟨_, haccepts, rfl, rfl⟩

/-- `SELECT COUNT(*) FROM SNAPSHOT WHERE tag = 'a'` gives a row with the tag. -/
theorem count_lists_the_tag :
    ¬ CountAgrees noConversions (fun _ => []) snapshotOfA [{ tag := ascii "a", valid := true }]
      [{ tag := ascii "a", valid := true }] (.literal .eq (ascii "a")) := by
  rintro ⟨_, _, ⟨stmt, hstmt, -, rfl⟩, -, -, -, hrows⟩
  have hparsed : Accepts noConversions ((SnapshotFilter.literal .eq (ascii "a")).text
      (ascii "COUNT(*)")) (.select
        { columns := countColumns, tableName := snapshotTable, latest := true,
          where_ := { tagFilter := ascii "a" } }) := ⟨.success _, by decide, rfl⟩
  cases hstmt.unique hparsed
  have hlen : ∀ n, ([[natDecimal n]] : List (List Bytes)).map List.length = [1] := fun _ => rfl
  have hthree := congrArg (List.map List.length) hrows
  rw [hlen] at hthree
  exact absurd hthree (by decide)

end Server
end MiniTSDB
