import MiniTSDB.Server.BucketWidth
import MiniTSDB.Sql.Keywords

/-!
# A `SELECT` of one tag

`SELECT * FROM t WHERE tag='x'`, and what may follow. For which tables and tags the statement is
read as one of this tag in this table (`readable_of_reads`, `Readable.accepts`).
-/

namespace MiniTSDB
namespace Server

open Lib Os Storage Sql

/-- `SELECT * FROM t WHERE tag='x'`, with the quotes of the tag doubled, and what follows it. -/
def tagQuery (t x tail : Bytes) : Bytes := selectOf (ascii "*") t (bucketHead x ++ quote :: tail)

/-- The table and the tag are read as they are written: no keyword in the name ends it, no `AND`
splits the tag, and none cuts it off, unless one in the name ends the clause before it begins. -/
structure Readable (t x : Bytes) : Prop where
  noWhere : ¬ Mentions t (ascii "WHERE")
  noAnd : ¬ Mentions x (ascii "AND")
  noEnd : (∃ kw ∈ clauseEnds, Mentions t kw) ∨ ∀ kw ∈ clauseEnds, ¬ Mentions x kw

/-! ## The condition -/

theorem isHead_tag : IsHead (ascii "tag=") := ⟨rfl, rfl⟩

theorem bucketHead_append (x after : Bytes) :
    bucketHead x ++ quote :: after = ascii "tag=" ++ quote :: (doubleQuotes x ++ quote :: after) := by
  simp only [bucketHead, List.append_assoc, List.cons_append]

theorem fieldAndValue_tag (x : Bytes) {after : Bytes} (hafter : Follows after) :
    fieldAndValue (bucketHead x ++ quote :: after) 3 1 = .ok (ascii "TAG", x) := by
  have hfield : substrTo (bucketHead x ++ quote :: after) 0 3 = .ok (ascii "tag") := by
    have hsplit : bucketHead x ++ quote :: after
        = [] ++ (ascii "tag" ++ (equals :: quote :: (doubleQuotes x ++ quote :: after))) := by
      rw [bucketHead_append]
      rfl
    rw [hsplit]
    exact substrTo_append rfl rfl
  have hval : substr (bucketHead x ++ quote :: after) (3 + 1)
      = .ok (quote :: (doubleQuotes x ++ quote :: after)) := by
    rw [bucketHead_append]
    exact substr_append rfl
  rw [fieldAndValue, hfield, hval]
  show Except.ok (toUpper (trim (ascii "tag")), unquote (trim
    (quote :: (doubleQuotes x ++ quote :: after)))) = _
  rw [trim_eq (hafter.tight_literal x), hafter.unquote_literal]
  rfl

/-- The tag is the literal, and the rest is what a `BETWEEN` makes of it. -/
theorem parseWhereCondition_tagHead {conv : Conversions} {x after : Bytes} (hafter : Follows after) :
    parseWhereCondition conv {} (bucketHead x ++ quote :: after)
      = .ok { withBetween conv {} (bucketHead x ++ quote :: after) with tagFilter := x } := by
  have heq : findChar (bucketHead x ++ quote :: after) equals 0 = some 3 := by
    have hfind : find [equals] (ascii "tag" ++ equals :: _) = _ :=
      find_char (quote :: (doubleQuotes x ++ quote :: after)) (by decide)
    rw [bucketHead_append]
    exact congrArg (Option.map (· + 0)) hfind
  have hval := fieldAndValue_tag x hafter
  rw [parseWhereCondition, heq]
  show fieldAndValue (bucketHead x ++ quote :: after) 3 1 >>= _ = _
  rw [hval]
  show Except.ok (if ascii "TAG" = ascii "TAG" then _ else _) = _
  rw [if_pos rfl]

/-! ## The clause -/

/-- A keyword that ends the clause is in the name or in the tag. -/
theorem mentions_tagHead_iff {t x kw : Bytes} (ht : IsTableName t) (hkw : kw ∈ clauseEnds) :
    Mentions (behindFrom t (bucketHead x)) kw ↔ Mentions t kw ∨ Mentions x kw :=
  mentions_literal_iff ht hkw (by decide) (by decide) x

section
variable {conv : Conversions} {fuel : Nat} {t x tail kw : Bytes}

theorem front_tagHead (after : Bytes) :
    (bucketHead x ++ quote :: after).head?.any (fun c => !(isBlank c || c = comma)) = true := rfl

theorem tight_tagHead (htail : Follows tail) : Tight (bucketHead x ++ quote :: tail) := by
  rw [bucketHead_append]
  apply tight_append rfl
  have hlast := htail.tight
  rw [List.getLast?_cons, List.getLast?_append]
  cases h : (quote :: tail).getLast? with
  | none => simp at h
  | some c =>
    rw [h] at hlast
    exact hlast

/-- The clause begins at the condition. -/
theorem whereClause_tagQuery (stop : Nat) :
    whereClause conv fuel (tagQuery t x tail) (some (t.length + 15)) stop
      = whereConditions conv (trim (if t.length + 21 ≤ stop
          then (bucketHead x ++ quote :: tail).take (stop - (t.length + 21))
          else bucketHead x ++ quote :: tail)) fuel 0 {} :=
  whereClause_selectAll stop (front_tagHead tail)

/-- **A keyword in the name**: the clause is all that is behind the `WHERE`. -/
theorem whereClause_tagQuery_of_name (hkw : kw ∈ clauseEnds) (hname : Mentions t kw)
    (htail : Follows tail) :
    whereClause conv fuel (tagQuery t x tail) (some (t.length + 15))
        (clauseEnd (tagQuery t x tail) 14)
      = whereConditions conv (bucketHead x ++ quote :: tail) fuel 0 {} := by
  have hle : clauseEnd (tagQuery t x tail) 14 ≤ t.length + 14 :=
    clauseEnd_of_mentions (ascii "*") (bucketHead x ++ quote :: tail) hkw hname
  rw [whereClause_tagQuery, if_neg (by omega), trim_eq (tight_tagHead htail)]

/-- **None in the name and none in the tag**: the clause is the condition. -/
theorem whereClause_tagQuery_of_neither (ht : IsTableName t)
    (hnames : ∀ kw ∈ clauseEnds, ¬ Mentions t kw) (hlit : ∀ kw ∈ clauseEnds, ¬ Mentions x kw)
    (htail : Trails tail) :
    whereClause conv fuel (tagQuery t x tail) (some (t.length + 15))
        (clauseEnd (tagQuery t x tail) 14)
      = whereConditions conv (bucketHead x ++ [quote]) fuel 0 {} := by
  apply whereClause_closed rfl _ htail
  intro kw hkw h
  cases (mentions_tagHead_iff ht hkw).mp h with
  | inl hname => exact hnames kw hkw hname
  | inr hliteral => exact hlit kw hkw hliteral

/-- A letter of the keyword that the rest of the condition lacks. -/
theorem clauseEnds_letter_tag (hkw : kw ∈ clauseEnds) :
    ∃ k, k ∈ kw ∧ k ≠ quote ∧ weight k (ascii "tag=") = 0 := by
  simp only [clauseEnds, List.mem_cons, List.not_mem_nil, or_false] at hkw
  rcases hkw with rfl | rfl | rfl | rfl
  · exact ⟨83, by decide, by decide, rfl⟩
  · exact ⟨79, by decide, by decide, rfl⟩
  · exact ⟨79, by decide, by decide, rfl⟩
  · exact ⟨77, by decide, by decide, rfl⟩

/-- A keyword that is not in front of the tag is found in it. -/
theorem find_quoted {head : Bytes} (hkw : kw ∈ clauseEnds) (hhead : ¬ Mentions head kw) :
    find kw (toUpper (head ++ quote :: (doubleQuotes x ++ [quote])))
      = (find kw (toUpper (doubleQuotes x))).map (· + (head.length + 1)) := by
  obtain ⟨hne, hquote, -⟩ := clauseEnds_spec hkw
  have hnone : find kw (toUpper head) = none := find_eq_none_iff.mpr hhead
  have hnil : find kw [] = none := find_eq_none_iff.mpr fun h => hne (List.infix_nil.mp h)
  have hupper : upperChar quote = quote := rfl
  have hlast : toUpper [quote] = [quote] := rfl
  have htag : find kw (toUpper (doubleQuotes x ++ [quote])) = find kw (toUpper (doubleQuotes x)) := by
    rw [toUpper_append, hlast, find_append_cons hquote hne]
    cases find kw (toUpper (doubleQuotes x)) with
    | none =>
      show (find kw []).map _ = none
      rw [hnil, Option.map_none]
    | some j => rfl
  rw [toUpper_append, toUpper_cons, hupper, find_append_cons hquote hne, hnone, htag, length_toUpper]

/-- Where a keyword that ends the clause is found: in the tag. -/
theorem findKeyword_tagQuery (ht : IsTableName t) (hkw : kw ∈ clauseEnds)
    (hname : ¬ Mentions t kw) :
    findKeyword (tagQuery t x []) kw 14
      = (find kw (toUpper (doubleQuotes x))).map (· + (t.length + 26)) := by
  obtain ⟨-, -, hmap⟩ := clauseEnds_spec hkw
  have hsplit : behindFrom t (bucketHead x ++ [quote])
      = (t ++ space :: ascii "WHERE tag=") ++ quote :: (doubleQuotes x ++ [quote]) := by
    simp only [behindFrom, bucketHead, List.append_assoc, List.cons_append]
    rfl
  have hhead : ¬ Mentions (t ++ space :: ascii "WHERE tag=") kw := fun h =>
    hname ((mentions_behind_iff ht hkw (by decide) (by decide)).mp h)
  have hlen : (t ++ space :: ascii "WHERE tag=").length = t.length + 11 := List.length_append ..
  have hstart := findKeyword_selectOf (ascii "*") t (bucketHead x ++ [quote]) kw
  rw [hmap, hsplit, find_quoted hkw hhead, hlen, Option.map_map] at hstart
  exact hstart

theorem length_tagQuery : (tagQuery t x []).length = t.length + 27 + (doubleQuotes x).length := by
  have hlen := length_selectOf_closed (ascii "*") t (bucketHead x) []
  rw [tagQuery, hlen, bucketHead, List.length_append, List.length_cons]
  show 1 + t.length + (4 + ((doubleQuotes x).length + 1)) + 21 + 0 = _
  omega

/-- **One in the tag and none in the name**: the clause ends within the tag, which has lost a
letter. -/
theorem filter_ne_of_mentions (ht : IsTableName t)
    (hnames : ∀ kw ∈ clauseEnds, ¬ Mentions t kw) (hkw : kw ∈ clauseEnds) (hlit : Mentions x kw)
    {w : WhereClause} (hw : whereClause conv fuel (tagQuery t x []) (some (t.length + 15))
      (clauseEnd (tagQuery t x []) 14) = .ok w) : w.tagFilter ≠ x := by
  obtain ⟨hne, hquote, -⟩ := clauseEnds_spec hkw
  obtain ⟨j, hj⟩ := exists_find ((infix_doubleQuotes_iff hne hquote x).mpr hlit)
  have hin := (find_eq_some hj).2
  rw [length_toUpper] at hin
  have hlong : t.length + 26 ≤ (tagQuery t x []).length := by
    rw [length_tagQuery]
    omega
  have hfound := findKeyword_tagQuery (x := x) ht hkw (hnames kw hkw)
  rw [hj, Option.map_some] at hfound
  obtain ⟨hge, hle⟩ : t.length + 26 ≤ clauseEnd (tagQuery t x []) 14 ∧
      clauseEnd (tagQuery t x []) 14 ≤ j + (t.length + 26) := by
    refine clauseEnd_between hlong (fun kw' hkw' found hfound' => ?_) hkw hfound
    rw [findKeyword_tagQuery ht hkw' (hnames kw' hkw')] at hfound'
    obtain ⟨k, -, rfl⟩ := Option.map_eq_some_iff.mp hfound'
    exact Nat.le_add_left _ _
  obtain ⟨n, hn⟩ : ∃ n, clauseEnd (tagQuery t x []) 14 = n + (t.length + 26) :=
    ⟨_, (Nat.sub_add_cancel hge).symm⟩
  have hcut : n + (t.length + 26) - (t.length + 21) = (ascii "tag=").length + (n + 1) := by
    show _ = 4 + (n + 1)
    omega
  rw [whereClause_tagQuery, hn, if_pos (by omega), hcut, bucketHead_append,
    List.take_length_add_append, List.take_succ_cons, List.take_append_of_le_length (by omega)] at hw
  obtain ⟨k, hmem, hk, hhead⟩ := clauseEnds_letter_tag hkw
  exact filter_ne_of_cut hmem hk hhead hj (by omega) hw

/-! ## The statement -/

theorem find_where_tagQuery (hname : ¬ Mentions t (ascii "WHERE")) :
    find (ascii "WHERE") (toUpper (behindFrom t (bucketHead x ++ quote :: tail)))
      = some (t.length + 1) := by
  apply find_behind_name (by decide) (by decide) hname
  rw [toUpper_append]
  exact List.IsPrefix.trans (by decide) (List.prefix_append _ _)

/-- The clause of a statement that is read as it is written. -/
theorem Readable.whereClause_tagQuery (conv : Conversions) (ht : IsTableName t) (h : Readable t x)
    (hfollows : Follows tail) (htail : Trails tail) :
    ∃ after, (after = [] ∨ after = tail) ∧ ∀ fuel, 2 ≤ fuel →
      whereClause conv fuel (tagQuery t x tail) (some (t.length + 15))
        (clauseEnd (tagQuery t x tail) 14)
        = .ok { withBetween conv {} (bucketHead x ++ quote :: after) with tagFilter := x } := by
  have hclause : ∃ after, (after = [] ∨ after = tail) ∧ Follows after ∧ ∀ fuel,
      whereClause conv fuel (tagQuery t x tail) (some (t.length + 15))
        (clauseEnd (tagQuery t x tail) 14)
        = whereConditions conv (bucketHead x ++ quote :: after) fuel 0 {} := by
    by_cases hnames : ∃ kw ∈ clauseEnds, Mentions t kw
    · obtain ⟨kw, hkw, hname⟩ := hnames
      exact ⟨tail, .inr rfl, hfollows, fun fuel => whereClause_tagQuery_of_name hkw hname hfollows⟩
    · have hnames' : ∀ kw ∈ clauseEnds, ¬ Mentions t kw :=
        fun kw hkw hname => hnames ⟨kw, hkw, hname⟩
      exact ⟨[], .inl rfl, follows_nothing, fun fuel =>
        whereClause_tagQuery_of_neither ht hnames' (h.noEnd.resolve_left hnames) htail⟩
  obtain ⟨after, hafter, hfollows', hclause⟩ := hclause
  refine ⟨after, hafter, fun fuel hfuel => ?_⟩
  obtain ⟨fuel, rfl⟩ : ∃ k, fuel = k + 2 := ⟨fuel - 2, by omega⟩
  have hread : Returns (whereConditions conv
      (ascii "tag=" ++ quote :: (doubleQuotes x ++ quote :: after)) (fuel + 2) 0 {}) fun w =>
        w = { withBetween conv {} (bucketHead x ++ quote :: after) with tagFilter := x } :=
    whereConditions_of_parseWhereCondition isHead_tag hfollows' h.noAnd
      ⟨_, (bucketHead_append x after ▸ parseWhereCondition_tagHead hfollows'), rfl⟩
  obtain ⟨w, hw, rfl⟩ := hread
  rw [hclause, bucketHead_append]
  rw [bucketHead_append] at hw
  exact hw

/-- Where a keyword that ends the clause may be: in the name, in the tag, or behind it. -/
theorem findKeyword_tagQuery_eq_none_iff (ht : IsTableName t) (hkw : kw ∈ clauseEnds) :
    findKeyword (tagQuery t x tail) kw 14 = none ↔
      ¬ Mentions t kw ∧ ¬ Mentions x kw ∧ ¬ Mentions tail kw := by
  obtain ⟨-, hquote, hmap⟩ := clauseEnds_spec hkw
  have hsplit : behindFrom t (bucketHead x ++ quote :: tail)
      = behindFrom t (bucketHead x) ++ quote :: tail := by
    simp only [behindFrom, List.append_assoc, List.cons_append]
  have hstart : findKeyword (tagQuery t x tail) kw 14 = none ↔
      ¬ Mentions (behindFrom t (bucketHead x) ++ quote :: tail) kw := by
    have hfind := findKeyword_selectOf (ascii "*") t (bucketHead x ++ quote :: tail) kw
    rw [hmap, hsplit] at hfind
    show findKeyword (tagQuery t x tail) kw ((ascii "*").length + 13) = none ↔ _
    rw [tagQuery, hfind, Option.map_eq_none_iff, find_eq_none_iff, Mentions]
  rw [hstart, mentions_append_quote_iff hquote, mentions_tagHead_iff ht hkw, not_or, not_or,
    and_assoc]

theorem trim_tagQuery (hfollows : Follows tail) : trim (tagQuery t x tail) = tagQuery t x tail := by
  apply trim_eq
  have hsplit : tagQuery t x tail = ascii "SELECT " ++ (ascii "*" ++ space :: (ascii "FROM " ++
      (t ++ space :: (ascii "WHERE " ++ bucketHead x)))) ++ quote :: tail := by
    simp only [tagQuery, selectOf, behindFrom, List.append_assoc, List.cons_append]
  rw [hsplit]
  apply tight_append rfl
  exact hfollows.tight

/-- **The statement, keyword by keyword**, if the table is the name. -/
theorem parse_tagQuery (conv : Conversions) (fuel : Nat) (ht : IsTableName t)
    (hname : ¬ Mentions t (ascii "WHERE")) (hfollows : Follows tail) :
    parse conv fuel (tagQuery t x tail) = (do
      let columns ← selectColumns (ascii "* ") fuel 0 []
      let where_ ← whereClause conv fuel (tagQuery t x tail) (some (t.length + 15))
        (clauseEnd (tagQuery t x tail) 14)
      return .success (.select
        { columns := columns, tableName := t, where_ := where_,
          latest := toUpper t = ascii "SNAPSHOT" ||
            (findKeyword (tagQuery t x tail) (ascii "LATEST") 14).isSome,
          groupBy := (findKeyword (tagQuery t x tail) (ascii "GROUP BY") 14).map
            (groupBucket (tagQuery t x tail)) })) := by
  have hparse := parse_selectOf conv fuel (trim_tagQuery (x := x) hfollows) isColumns_star ht
    (find_where_tagQuery hname)
  have htake : (behindFrom t (bucketHead x ++ quote :: tail)).take (t.length + 1)
      = [] ++ t ++ [space] := by
    have hsplit : behindFrom t (bucketHead x ++ quote :: tail)
        = (t ++ [space]) ++ (ascii "WHERE " ++ (bucketHead x ++ quote :: tail)) := by
      simp only [behindFrom, List.append_assoc, List.cons_append, List.nil_append]
    have hlen : (t ++ [space]).length = t.length + 1 := List.length_append ..
    rw [hsplit, ← hlen, List.take_left, List.nil_append]
  rw [htake, trim_append [] [space] (by simp) (fun c hc => isBlank_of_mem_space hc) ht.tight]
    at hparse
  exact hparse

/-- What is accepted of a name without a `WHERE`. -/
theorem accepts_tagQuery {stmt : SelectStmt} (ht : IsTableName t)
    (hname : ¬ Mentions t (ascii "WHERE")) (hfollows : Follows tail)
    (h : Accepts conv (tagQuery t x tail) (.select stmt)) :
    stmt.tableName = t ∧
      stmt.latest = (toUpper t = ascii "SNAPSHOT" ||
        (findKeyword (tagQuery t x tail) (ascii "LATEST") 14).isSome) ∧
      stmt.groupBy = (findKeyword (tagQuery t x tail) (ascii "GROUP BY") 14).map
        (groupBucket (tagQuery t x tail)) ∧
      ∃ fuel, whereClause conv fuel (tagQuery t x tail) (some (t.length + 15))
        (clauseEnd (tagQuery t x tail) 14) = .ok stmt.where_ := by
  obtain ⟨r, hr, hstmt⟩ := h
  rw [parseSql, parse_tagQuery conv _ ht hname hfollows] at hr
  obtain ⟨columns, -, hr⟩ := bind_eq_ok hr
  obtain ⟨where_, hwhere, hr⟩ := bind_eq_ok hr
  cases hr
  cases hstmt
  exact ⟨rfl, rfl, rfl, _, hwhere⟩

/-- A `WHERE` in the name is taken for the one behind it. -/
theorem noWhere_of_reads {stmt : SelectStmt} (ht : IsTableName t) (hfollows : Follows tail)
    (h : Accepts conv (tagQuery t x tail) (.select stmt)) (htable : stmt.tableName = t) :
    ¬ Mentions t (ascii "WHERE") := by
  intro hname
  obtain ⟨i, hi, hlen⟩ := find_in_name
    (space :: (ascii "WHERE " ++ (bucketHead x ++ quote :: tail))) hname
  obtain ⟨r, hr, hstmt⟩ := h
  rw [parseSql, parse_selectOf _ _ (trim_tagQuery hfollows) isColumns_star ht hi] at hr
  obtain ⟨columns, -, hr⟩ := bind_eq_ok hr
  obtain ⟨where_, -, hr⟩ := bind_eq_ok hr
  cases hr
  cases hstmt
  -- the table has lost the `WHERE` and what is behind it
  have hshort := length_trim_le ((behindFrom t (bucketHead x ++ quote :: tail)).take i)
  have hlen' : i + 5 ≤ t.length := hlen
  dsimp only at htable
  rw [htable, List.length_take] at hshort
  omega

/-- **Only these tables and tags are read as they are written.** -/
theorem readable_of_reads {stmt : SelectStmt} (ht : IsTableName t)
    (h : Accepts conv (tagQuery t x []) (.select stmt)) (htable : stmt.tableName = t)
    (htag : stmt.where_.tagFilter = x) : Readable t x := by
  have hname := noWhere_of_reads ht follows_nothing h htable
  obtain ⟨-, -, -, fuel, hclause⟩ := accepts_tagQuery ht hname follows_nothing h
  have hend : (∃ kw ∈ clauseEnds, Mentions t kw) ∨ ∀ kw ∈ clauseEnds, ¬ Mentions x kw := by
    by_cases hnames : ∃ kw ∈ clauseEnds, Mentions t kw
    · exact .inl hnames
    · refine .inr fun kw hkw hlit => ?_
      have hnames' : ∀ kw ∈ clauseEnds, ¬ Mentions t kw :=
        fun kw hkw hname => hnames ⟨kw, hkw, hname⟩
      exact filter_ne_of_mentions ht hnames' hkw hlit hclause htag
  refine ⟨hname, fun hand => ?_, hend⟩
  -- with or without a keyword in the name, the clause is the condition
  have hcond : whereConditions conv (bucketHead x ++ [quote]) fuel 0 {} = .ok stmt.where_ := by
    by_cases hnames : ∃ kw ∈ clauseEnds, Mentions t kw
    · obtain ⟨kw, hkw, hname⟩ := hnames
      rw [← hclause, whereClause_tagQuery_of_name hkw hname follows_nothing]
    · have hnames' : ∀ kw ∈ clauseEnds, ¬ Mentions t kw :=
        fun kw hkw hname => hnames ⟨kw, hkw, hname⟩
      rw [← hclause, whereClause_tagQuery_of_neither ht hnames' (hend.resolve_left hnames) (.inl rfl)]
  rw [bucketHead_append] at hcond
  exact (filter_ne_of_and isHead_tag rfl hand hcond).1 htag

/-- **And these are.** -/
theorem Readable.accepts (conv : Conversions) (ht : IsTableName t) (h : Readable t x)
    (hfollows : Follows tail) (htail : Trails tail) :
    ∃ stmt after, (after = [] ∨ after = tail) ∧ Accepts conv (tagQuery t x tail) (.select stmt) ∧
      stmt.tableName = t ∧ stmt.where_
        = { withBetween conv {} (bucketHead x ++ quote :: after) with tagFilter := x } := by
  obtain ⟨after, hafter, hclause⟩ := h.whereClause_tagQuery conv ht hfollows htail
  have hlong : 14 ≤ (tagQuery t x tail).length := by
    rw [tagQuery, selectOf_eq, List.length_append]
    exact Nat.le_add_right 14 _
  have hfuel : 14 < (tagQuery t x tail).length + 1 := Nat.lt_succ_of_le hlong
  have hcolumns : Returns (selectColumns (ascii "* ") ((tagQuery t x tail).length + 1) 0 [])
      fun _ => True := selectColumns_returns (lt_trans (by decide) hfuel)
  obtain ⟨columns, hcolumns, -⟩ := hcolumns
  have hparse := parse_tagQuery (x := x) conv ((tagQuery t x tail).length + 1) ht h.noWhere hfollows
  rw [hcolumns, ok_bind, hclause _ (by omega), ok_bind] at hparse
  exact ⟨_, after, hafter, ⟨_, hparse, rfl⟩, rfl, rfl⟩

end

end Server
end MiniTSDB
