import MiniTSDB.Sql.ClauseEnds

/-!
# Keywords in names and literals

For which names and literals the statements that look for one tag are parsed to what they say
(`literalKept_iff`).
-/

namespace MiniTSDB
namespace Sql

open Lib

/-! ## What the condition gives -/

/-- What may follow the literal. -/
structure Follows (after : Bytes) : Prop where
  tight : (quote :: after).getLast?.any (! isBlank ·) = true
  apart : after.head? ≠ some quote
  noAnd : weight 78 after = 0
  noEquals : equals ∉ after

theorem follows_latest : Follows (ascii " LATEST") :=
  ⟨by decide, by decide, by decide, by decide⟩

theorem follows_nothing : Follows [] := ⟨by decide, by decide, by decide, by decide⟩

/-- A literal with what follows it has no blanks at its ends. -/
theorem Follows.tight_literal {after : Bytes} (hafter : Follows after) (x : Bytes) :
    Tight (quote :: (doubleQuotes x ++ quote :: after)) := by
  rw [← List.singleton_append]
  apply tight_append rfl
  have hlast := hafter.tight
  rw [List.getLast?_append]
  cases h : (quote :: after).getLast? with
  | none => simp at h
  | some c =>
    rw [h] at hlast
    exact hlast

theorem Follows.unquote_literal {after : Bytes} (hafter : Follows after) (x : Bytes) :
    unquote (quote :: (doubleQuotes x ++ quote :: after)) = x := by
  rw [unquote, List.head?_cons, Option.any_some, if_pos (by decide),
    extractQuoted_doubleQuotes x hafter.apart]

/-- The field, and the literal read back. -/
theorem fieldAndValue_literal (op : Operator) (x : Bytes) {after : Bytes} (hafter : Follows after) :
    fieldAndValue (literalClause op x after) 4 op.text.length = .ok (ascii "TAG", x) := by
  have htrim : trim (space :: quote :: (doubleQuotes x ++ quote :: after))
      = quote :: (doubleQuotes x ++ quote :: after) := by
    have hblank := trim_append [space] [] (fun c hc => isBlank_of_mem_space hc) (by simp)
      (hafter.tight_literal x)
    rw [List.append_nil] at hblank
    exact hblank
  have hfield : substrTo (literalClause op x after) 0 4 = .ok (ascii "tag ") := by
    have hsplit : literalClause op x after = [] ++ (ascii "tag " ++ (op.text ++
        space :: quote :: (doubleQuotes x ++ quote :: after))) := by
      simp only [literalClause, condHead, List.append_assoc, List.cons_append, List.nil_append]
    rw [hsplit]
    exact substrTo_append rfl rfl
  have hval : substr (literalClause op x after) (4 + op.text.length)
      = .ok (space :: quote :: (doubleQuotes x ++ quote :: after)) := by
    have hsplit : literalClause op x after = (ascii "tag " ++ op.text) ++
        space :: quote :: (doubleQuotes x ++ quote :: after) := by
      simp only [literalClause, condHead, List.append_assoc, List.cons_append, List.nil_append]
    rw [hsplit]
    exact substr_append (List.length_append ..)
  rw [fieldAndValue, hfield, hval]
  change Except.ok (toUpper (trim (ascii "tag ")), unquote (trim
    (space :: quote :: (doubleQuotes x ++ quote :: after)))) = _
  rw [htrim, hafter.unquote_literal]
  rfl

/-- The tag is the literal, and the rest is what a `BETWEEN` makes of it. -/
theorem parseWhereCondition_literal {conv : Conversions} {w : WhereClause} {x after : Bytes}
    (hafter : Follows after) :
    parseWhereCondition conv w (literalClause .eq x after)
      = .ok { withBetween conv w (literalClause .eq x after) with tagFilter := x } := by
  have heq : findChar (literalClause .eq x after) equals 0 = some 4 := by
    have hfind : find [equals] (ascii "tag " ++ equals :: _) = _ :=
      find_char (space :: quote :: (doubleQuotes x ++ quote :: after)) (by decide)
    exact congrArg (Option.map (· + 0)) hfind
  have hval := fieldAndValue_literal .eq x hafter
  rw [parseWhereCondition, heq]
  change fieldAndValue (literalClause .eq x after) 4 Operator.eq.text.length >>= _ = _
  rw [hval]
  show Except.ok (if ascii "TAG" = ascii "TAG" then _ else _) = _
  rw [if_pos rfl]

/-- `=` gives the literal. -/
theorem parseWhereCondition_eq {conv : Conversions} {x after : Bytes} (hafter : Follows after) :
    Returns (parseWhereCondition conv {} (literalClause .eq x after))
      fun w => w.tagFilter = x ∧ w.tagPattern = [] := by
  rw [parseWhereCondition_literal hafter]
  exact Returns.ok ⟨rfl, (withBetween_eq _ _ _).2⟩

/-- `LIKE` gives the literal if it has no `=`. -/
theorem parseWhereCondition_like {conv : Conversions} {x after : Bytes} (hafter : Follows after)
    (hx : equals ∉ x) :
    Returns (parseWhereCondition conv {} (literalClause .like x after))
      fun w => w.tagFilter = [] ∧ w.tagPattern = x := by
  have heq : findChar (literalClause .like x after) equals 0 = none := by
    rw [findChar, findFrom, List.drop_zero, Option.map_eq_none_iff, find_eq_none_iff,
      List.singleton_infix_iff, literalClause, List.mem_append, List.mem_cons, List.mem_append,
      List.mem_cons, mem_doubleQuotes_iff]
    have hne : equals ≠ quote := by decide
    have hhead : equals ∉ condHead .like := by decide
    simp only [hhead, hne, hx, hafter.noEquals, or_self, not_false_eq_true]
  have hlike : findKeyword (literalClause .like x after) (ascii "LIKE") 0 = some 4 := by
    have hfind : find (ascii "LIKE") (toUpper (literalClause .like x after)) = some 4 := by
      rw [literalClause, toUpper_append]
      exact find_append_of_find _ (by decide)
    exact congrArg (Option.map (· + 0)) hfind
  have hval := fieldAndValue_literal .like x hafter
  rw [parseWhereCondition, heq, hlike]
  change Returns (fieldAndValue (literalClause .like x after) 4 Operator.like.text.length >>= _) _
  rw [hval]
  apply Returns.pure
  rw [if_pos rfl]
  exact ⟨(withBetween_eq _ _ _).1, rfl⟩

/-- **A `=` in the literal is taken for the operator**, and what is before it for the field. -/
theorem nothing_of_equals {conv : Conversions} {x after : Bytes} {w : WhereClause}
    (hx : equals ∈ x) (h : parseWhereCondition conv {} (literalClause .like x after) = .ok w) :
    w.tagFilter = [] ∧ w.tagPattern = [] := by
  have hmem : [equals] <:+: literalClause .like x after := by
    rw [List.singleton_infix_iff, literalClause, List.mem_append, List.mem_cons, List.mem_append,
      mem_doubleQuotes_iff]
    exact .inr (.inr (.inl hx))
  obtain ⟨i, hi⟩ := exists_find hmem
  have heq : findChar (literalClause .like x after) equals 0 = some i :=
    congrArg (Option.map (· + 0)) hi
  -- the quote is in front of the `=`, so the field is not `tag`
  have hquote : quote ∈ (literalClause .like x after).take i := by
    have hlen : 10 ≤ i := by
      by_contra hlt
      have hat := (find_eq_some hi).1
      have hsplit : literalClause .like x after
          = (condHead .like ++ [quote]) ++ (doubleQuotes x ++ quote :: after) := by
        simp only [literalClause, List.append_assoc, List.cons_append, List.nil_append]
      have hdrop : (literalClause .like x after).drop i
          = (condHead .like ++ [quote]).drop i ++ (doubleQuotes x ++ quote :: after) := by
        rw [hsplit, List.drop_append_of_le_length]
        change i ≤ 10
        omega
      have hin : equals ∈ (condHead .like ++ [quote]).drop i := by
        have hi' : i < (condHead .like ++ [quote]).length := by
          change i < 10
          omega
        rw [hdrop, List.drop_eq_getElem_cons hi', List.cons_append, List.cons_prefix_cons] at hat
        rw [List.drop_eq_getElem_cons hi', hat.1]
        exact List.mem_cons_self
      exact absurd (List.mem_of_mem_drop hin) (by decide)
    have hsub : (literalClause .like x after).take 10 <+: (literalClause .like x after).take i :=
      List.take_prefix_take_left hlen
    exact hsub.subset (List.mem_cons_of_mem _ (List.mem_of_elem_eq_true rfl))
  have hfield : toUpper (trim ((literalClause .like x after).take i)) ≠ ascii "TAG" := by
    intro htag
    have hin : upperChar quote ∈ toUpper (trim ((literalClause .like x after).take i)) :=
      List.mem_map_of_mem (mem_trim (by decide) hquote)
    rw [htag] at hin
    exact absurd hin (by decide)
  rw [parseWhereCondition, heq] at h
  obtain ⟨r, hr, h⟩ := bind_eq_ok h
  rw [fieldAndValue, substrTo_ok (Nat.zero_le _), if_pos (Nat.zero_le _), List.drop_zero,
    Nat.sub_zero] at hr
  obtain ⟨field, hfield', hr⟩ := bind_eq_ok hr
  cases hfield'
  obtain ⟨val, -, hr⟩ := bind_eq_ok hr
  cases hr
  dsimp only at h
  rw [if_neg hfield] at h
  cases h
  exact withBetween_eq _ _ _

/-! ## What the statements are parsed to -/

/-- `UPDATE t SET value=1 WHERE tag='x'`. -/
def updateText (t x : Bytes) : Bytes :=
  ascii "UPDATE " ++ (t ++ space ::
    (ascii "SET value=1 WHERE tag=" ++ quote :: (doubleQuotes x ++ [quote])))

/-- The statement is parsed to a `SELECT` of the newest values in the table, with this filter and
this pattern. -/
def SelectGives (conv : Conversions) (sql t filter pattern : Bytes) : Prop :=
  ∃ fuel, Returns (parse conv fuel sql) fun r => ∃ stmt : SelectStmt, r = .success (.select stmt) ∧
    stmt.tableName = t ∧ stmt.where_.tagFilter = filter ∧ stmt.where_.tagPattern = pattern ∧
    stmt.latest = true

/-- The statement is parsed to an `UPDATE` of the table. -/
def UpdateGives (conv : Conversions) (sql t : Bytes) : Prop :=
  ∃ fuel, Returns (parse conv fuel sql) fun r => ∃ stmt : UpdateStmt, r = .success (.update stmt) ∧
    stmt.tableName = t

/-- Keywords in the name and in the literal are not taken for keywords of the statement. -/
structure LiteralKept (conv : Conversions) (t x : Bytes) : Prop where
  selectEq : SelectGives conv (selectText t .eq x) t x []
  selectLike : SelectGives conv (selectText t .like x) t [] x
  update : UpdateGives conv (updateText t x) t

/-- The names and literals that no keyword is found in where it matters. A name with a keyword
that ends the clause protects the literal from all of these. -/
structure LiteralSafe (t x : Bytes) : Prop where
  noWhere : ¬ Mentions t (ascii "WHERE")
  noSet : ¬ Mentions t (ascii "SET")
  noAnd : ¬ Mentions x (ascii "AND")
  noEquals : equals ∉ x
  noEnd : (∃ kw ∈ clauseEnds, Mentions t kw) ∨ ∀ kw ∈ clauseEnds, ¬ Mentions x kw

theorem find_where {t : Bytes} (op : Operator) (x : Bytes) (hname : ¬ Mentions t (ascii "WHERE")) :
    find (ascii "WHERE") (toUpper (fromName t op x)) = some (t.length + 1) := by
  apply find_behind_name (by decide) (by decide) hname
  rw [toUpper_append]
  exact List.IsPrefix.trans (by decide) (List.prefix_append _ _)

/-- What the parser took for the table: the name, if no `WHERE` is in it. -/
theorem SelectGives.clause {conv : Conversions} {t : Bytes} {op : Operator}
    {x filter pattern : Bytes} (ht : IsTableName t)
    (h : SelectGives conv (selectText t op x) t filter pattern) :
    ¬ Mentions t (ascii "WHERE") ∧
      ∃ fuel, Returns (whereClause conv fuel (selectText t op x) (some (t.length + 15))
        (clauseEnd (selectText t op x) 14))
        fun w => w.tagFilter = filter ∧ w.tagPattern = pattern := by
  obtain ⟨fuel, r, hparse, stmt, rfl, htable, hfilter, hpattern, -⟩ := h
  by_cases hname : Mentions t (ascii "WHERE")
  · obtain ⟨i, hi, hlen⟩ := find_in_name (space :: (ascii "WHERE " ++ condText op x)) hname
    rw [parse_selectText ht hi] at hparse
    obtain ⟨columns, -, hparse⟩ := bind_eq_ok hparse
    obtain ⟨w, -, hparse⟩ := bind_eq_ok hparse
    cases hparse
    -- the table has lost the `WHERE` and what is behind it
    have hshort := length_trim_le ((fromName t op x).take i)
    have hlen' : i + 5 ≤ t.length := hlen
    dsimp only at htable
    rw [htable, List.length_take] at hshort
    omega
  · rw [parse_selectText ht (find_where op x hname)] at hparse
    obtain ⟨columns, -, hparse⟩ := bind_eq_ok hparse
    obtain ⟨w, hw, hparse⟩ := bind_eq_ok hparse
    cases hparse
    exact ⟨hname, fuel, w, hw, hfilter, hpattern⟩

theorem selectGives_of_clause {conv : Conversions} {t : Bytes} {op : Operator}
    {x filter pattern : Bytes} (fuel : Nat) (ht : IsTableName t)
    (hname : ¬ Mentions t (ascii "WHERE")) (hfuel : 2 < fuel)
    (hclause : Returns (whereClause conv fuel (selectText t op x) (some (t.length + 15))
      (clauseEnd (selectText t op x) 14)) fun w => w.tagFilter = filter ∧ w.tagPattern = pattern) :
    SelectGives conv (selectText t op x) t filter pattern := by
  refine ⟨fuel, ?_⟩
  rw [parse_selectText ht (find_where op x hname)]
  refine Returns.bind (selectColumns_returns hfuel) fun columns _ => ?_
  refine Returns.bind hclause fun w hw => Returns.pure ?_
  have htable : (fromName t op x).take (t.length + 1) = [] ++ t ++ [space] := by
    have hsplit : fromName t op x = (t ++ [space]) ++ (ascii "WHERE " ++ condText op x) := by
      simp only [fromName, List.append_assoc, List.cons_append, List.nil_append]
    have hlen : (t ++ [space]).length = t.length + 1 := List.length_append ..
    rw [hsplit, ← hlen, List.take_left, List.nil_append]
  refine ⟨_, rfl, ?_, hw.1, hw.2, rfl⟩
  dsimp only
  rw [htable, trim_append [] [space] (by simp) (fun c hc => isBlank_of_mem_space hc) ht.tight]

/-- **The conditions that are read**, if none of the keywords cuts the literal off. -/
theorem whereClause_literal (conv : Conversions) {t x : Bytes} (op : Operator) (ht : IsTableName t)
    (hend : (∃ kw ∈ clauseEnds, Mentions t kw) ∨ ∀ kw ∈ clauseEnds, ¬ Mentions x kw) :
    ∃ after, Follows after ∧ ∀ fuel, whereClause conv fuel (selectText t op x)
      (some (t.length + 15)) (clauseEnd (selectText t op x) 14)
        = whereConditions conv (literalClause op x after) fuel 0 {} := by
  by_cases hnames : ∃ kw ∈ clauseEnds, Mentions t kw
  · obtain ⟨kw, hkw, hname⟩ := hnames
    exact ⟨_, follows_latest, fun fuel => whereClause_of_name hkw hname⟩
  · have hlit := hend.resolve_left hnames
    have hnames' : ∀ kw ∈ clauseEnds, ¬ Mentions t kw := fun kw hkw hname => hnames ⟨kw, hkw, hname⟩
    exact ⟨_, follows_nothing, fun fuel => whereClause_of_neither ht hnames' hlit⟩

/-- One of them does, if the filter is not the literal. -/
theorem noEnd_of_filter {conv : Conversions} {t x : Bytes} {op : Operator} {fuel : Nat}
    (ht : IsTableName t)
    (h : Returns (whereClause conv fuel (selectText t op x) (some (t.length + 15))
      (clauseEnd (selectText t op x) 14)) fun w => w.tagFilter = x) :
    (∃ kw ∈ clauseEnds, Mentions t kw) ∨ ∀ kw ∈ clauseEnds, ¬ Mentions x kw := by
  by_cases hnames : ∃ kw ∈ clauseEnds, Mentions t kw
  · exact .inl hnames
  · refine .inr fun kw hkw hlit => ?_
    have hnames' : ∀ kw ∈ clauseEnds, ¬ Mentions t kw := fun kw hkw hname => hnames ⟨kw, hkw, hname⟩
    obtain ⟨hne, hquote, -⟩ := clauseEnds_spec hkw
    obtain ⟨j, hj⟩ := exists_find ((infix_doubleQuotes_iff hne hquote x).mpr hlit)
    obtain ⟨n, hn, hclause⟩ := whereClause_of_literal conv fuel ht hkw hnames' hj
    obtain ⟨w, hw, hfilter⟩ := h
    rw [hclause] at hw
    obtain ⟨k, hmem, hk, hhead⟩ := clauseEnds_letter op hkw
    exact filter_ne_of_cut hmem hk hhead hj hn hw hfilter

theorem noAnd_of_filter {conv : Conversions} {x after : Bytes} {op : Operator} {fuel : Nat}
    (hafter : Follows after)
    (h : Returns (whereConditions conv (literalClause op x after) fuel 0 {})
      fun w => w.tagFilter = x) : ¬ Mentions x (ascii "AND") := by
  intro hand
  obtain ⟨w, hw, hfilter⟩ := h
  exact (filter_ne_of_and (isHead_condHead op) hafter.noAnd hand hw).1 hfilter

/-- Without an `AND`, the literal is all of one condition. -/
theorem whereConditions_literal {conv : Conversions} {head x after : Bytes} {fuel : Nat}
    (hhead : IsHead head) (hafter : Follows after) (hand : ¬ Mentions x (ascii "AND")) :
    whereConditions conv (head ++ quote :: (doubleQuotes x ++ quote :: after)) (fuel + 1) 0 {} = (do
      let w ← parseWhereCondition conv {} (head ++ quote :: (doubleQuotes x ++ quote :: after))
      whereConditions conv (head ++ quote :: (doubleQuotes x ++ quote :: after)) fuel
        (head ++ quote :: (doubleQuotes x ++ quote :: after)).length w) := by
  apply whereConditions_single
  · exact fun h => hand
      ((infix_and_iff (not_infix_and hhead.noAnd) (not_infix_and hafter.noAnd)).mp h)
  · apply tight_append hhead.front
    have hlast := hafter.tight
    rw [List.getLast?_cons, List.getLast?_append]
    cases h : (quote :: after).getLast? with
    | none => simp at h
    | some c =>
      rw [h] at hlast
      exact hlast
  · simp

/-- What the conditions give is what this one gives. -/
theorem parseWhereCondition_of_whereConditions {conv : Conversions} {head x after : Bytes}
    {fuel : Nat} {w : WhereClause} (hhead : IsHead head) (hafter : Follows after)
    (hand : ¬ Mentions x (ascii "AND"))
    (h : whereConditions conv (head ++ quote :: (doubleQuotes x ++ quote :: after)) fuel 0 {}
      = .ok w) :
    parseWhereCondition conv {} (head ++ quote :: (doubleQuotes x ++ quote :: after)) = .ok w := by
  cases fuel with
  | zero => cases h
  | succ fuel =>
    rw [whereConditions_literal hhead hafter hand] at h
    obtain ⟨w', hw', h⟩ := bind_eq_ok h
    cases fuel with
    | zero => cases h
    | succ fuel =>
      rw [whereConditions_length] at h
      cases h
      exact hw'

theorem whereConditions_of_parseWhereCondition {conv : Conversions} {head x after : Bytes}
    {fuel : Nat} {Q : WhereClause → Prop} (hhead : IsHead head) (hafter : Follows after)
    (hand : ¬ Mentions x (ascii "AND"))
    (h : Returns (parseWhereCondition conv {}
      (head ++ quote :: (doubleQuotes x ++ quote :: after))) Q) :
    Returns (whereConditions conv (head ++ quote :: (doubleQuotes x ++ quote :: after))
      (fuel + 2) 0 {}) Q := by
  rw [whereConditions_literal hhead hafter hand]
  refine Returns.bind h fun w hw => ?_
  rw [whereConditions_length]
  exact Returns.ok hw

/-! ## `UPDATE` -/

/-- The text from the name of the table on. -/
def setText (t x : Bytes) : Bytes :=
  t ++ space :: (ascii "SET value=1 WHERE tag=" ++ quote :: (doubleQuotes x ++ [quote]))

theorem tight_updateText (t x : Bytes) : Tight (updateText t x) := by
  apply tight_append rfl
  simp only [List.getLast?_append, List.getLast?_cons]
  rfl

/-- **Where its `SET` is found decides the table.** -/
theorem parse_updateText (conv : Conversions) (fuel : Nat) {t x : Bytes} {i : Nat}
    (ht : IsTableName t) (hset : find (ascii "SET") (toUpper (setText t x)) = some i)
    (hle : i ≤ t.length + 1) :
    Returns (parse conv fuel (updateText t x)) fun r => ∃ stmt : UpdateStmt,
      r = .success (.update stmt) ∧ stmt.tableName = trim ((setText t x).take i) := by
  have hfront : ascii "UPDATE" <+: toUpper (updateText t x) := front_updateOf t _
  have hname : skipWhitespace (updateText t x) (afterKeyword (updateText t x)
      (ascii "UPDATE")) = 7 := skip_updateOf ht
  have hset' : findFrom (toUpper (updateText t x)) (ascii "SET") 7 = some (i + 7) :=
    findSet_updateOf hset
  have htable : substrTo (updateText t x) 7 (i + 7) = .ok ((setText t x).take i) :=
    substrTo_updateOf hle
  -- the `WHERE` of the statement is behind the `SET`, wherever that was found
  have hwhere : ∃ j, findFrom (toUpper (updateText t x)) (ascii "WHERE")
      (skipWhitespace (updateText t x) (i + 7 + 3)) = some j := by
    have hsplit : updateText t x = (ascii "UPDATE " ++ (t ++ space :: ascii "SET value=1 ")) ++
        (ascii "WHERE tag=" ++ quote :: (doubleQuotes x ++ [quote])) := by
      simp only [updateText, List.append_assoc, List.cons_append]
      rfl
    have hlen' : (ascii "UPDATE " ++ (t ++ space :: ascii "SET value=1 ")).length
        = t.length + 20 := by
      rw [List.length_append, List.length_append]
      change 7 + (t.length + 13) = _
      omega
    have hat : (updateText t x)[t.length + 20]? = some 87 := by
      rw [hsplit, ← hlen', List.getElem?_append_right (Nat.le_refl _), Nat.sub_self]
      rfl
    apply exists_findFrom (i := t.length + 20)
    · exact skipUntil_le_of_stop (by omega) hat (by decide)
    · rw [hsplit, toUpper_append, ← hlen', ← length_toUpper, List.drop_left, toUpper_append]
      exact List.IsPrefix.trans (by decide) (List.prefix_append _ _)
  obtain ⟨wherePos, hwhere⟩ := hwhere
  have hne : (updateText t x).isEmpty = false := rfl
  rw [parse]
  rw [trim_eq (tight_updateText t x), hne, if_neg (by decide),
    dispatch_update (startsWith_iff.mpr hfront), parseUpdate]
  simp only [hname, hset', hwhere, htable]
  refine Returns.bind (Returns.ok (Q := (· = (setText t x).take i)) rfl) fun name hname => ?_
  refine Returns.bind (updateValue_returns _ _ _ _) fun newValue _ => ?_
  refine Returns.bind (tagFilterFrom_returns _ _) fun tagFilter _ => ?_
  refine Returns.bind (updateTime_returns _ _ _) fun exactTime _ => Returns.pure ⟨_, rfl, ?_⟩
  rw [hname]

theorem updateGives_iff {conv : Conversions} {t x : Bytes} (ht : IsTableName t) :
    UpdateGives conv (updateText t x) t ↔ ¬ Mentions t (ascii "SET") := by
  constructor
  · intro ⟨fuel, r, hparse, stmt, hr, htable⟩ hname
    obtain ⟨i, hi, hlen⟩ := find_in_name (space ::
      (ascii "SET value=1 WHERE tag=" ++ quote :: (doubleQuotes x ++ [quote]))) hname
    have hlen' : i + 3 ≤ t.length := hlen
    obtain ⟨r', hparse', stmt', hr', htable'⟩ :=
      parse_updateText conv fuel ht hi (by omega)
    rw [hparse] at hparse'
    cases hparse'
    rw [hr] at hr'
    cases hr'
    -- the table has lost the `SET` and what is behind it
    have hshort := length_trim_le ((setText t x).take i)
    rw [← htable', htable, List.length_take] at hshort
    omega
  · intro hname
    have hset : find (ascii "SET") (toUpper (setText t x)) = some (t.length + 1) := by
      apply find_behind_name (by decide) (by decide) hname
      rw [toUpper_append]
      exact List.IsPrefix.trans (by decide) (List.prefix_append _ _)
    refine ⟨0, (parse_updateText conv 0 ht hset (Nat.le_refl _)).mono ?_⟩
    intro r ⟨stmt, hr, htable⟩
    refine ⟨stmt, hr, ?_⟩
    have htake : (setText t x).take (t.length + 1) = [] ++ t ++ [space] := by
      have hsplit : setText t x = (t ++ [space]) ++
          (ascii "SET value=1 WHERE tag=" ++ quote :: (doubleQuotes x ++ [quote])) := by
        simp only [setText, List.append_assoc, List.cons_append, List.nil_append]
      have hlen : (t ++ [space]).length = t.length + 1 := List.length_append ..
      rw [hsplit, ← hlen, List.take_left, List.nil_append]
    rw [htable, htake, trim_append [] [space] (by simp) (fun c hc => isBlank_of_mem_space hc) ht.tight]

/-! ## The condition -/

theorem LiteralKept.safe {conv : Conversions} {t x : Bytes} (ht : IsTableName t)
    (h : LiteralKept conv t x) : LiteralSafe t x := by
  obtain ⟨hwhere, fuel, hfilter⟩ := h.selectEq.clause ht
  have hend := noEnd_of_filter ht (hfilter.mono fun w hw => hw.1)
  obtain ⟨after, hafter, hclause⟩ := whereClause_literal conv .eq ht hend
  rw [hclause] at hfilter
  have hand := noAnd_of_filter hafter (hfilter.mono fun w hw => hw.1)
  refine ⟨hwhere, (updateGives_iff ht).mp h.update, hand, ?_, hend⟩
  intro hequals
  obtain ⟨-, fuel', hpattern⟩ := h.selectLike.clause ht
  obtain ⟨after', hafter', hclause'⟩ := whereClause_literal conv .like ht hend
  rw [hclause'] at hpattern
  obtain ⟨w, hw, -, hx⟩ := hpattern
  obtain ⟨-, hnil⟩ := nothing_of_equals hequals
    (parseWhereCondition_of_whereConditions (isHead_condHead .like) hafter' hand hw)
  rw [hx] at hnil
  rw [hnil] at hequals
  cases hequals

theorem LiteralSafe.kept {conv : Conversions} {t x : Bytes} (ht : IsTableName t)
    (h : LiteralSafe t x) : LiteralKept conv t x := by
  refine ⟨?_, ?_, (updateGives_iff ht).mpr h.noSet⟩
  · obtain ⟨after, hafter, hclause⟩ := whereClause_literal conv .eq ht h.noEnd
    apply selectGives_of_clause 3 ht h.noWhere (by decide)
    rw [hclause]
    exact whereConditions_of_parseWhereCondition (isHead_condHead .eq) hafter h.noAnd
      (parseWhereCondition_eq hafter)
  · obtain ⟨after, hafter, hclause⟩ :=
      whereClause_literal conv .like ht h.noEnd
    apply selectGives_of_clause 3 ht h.noWhere (by decide)
    rw [hclause]
    exact whereConditions_of_parseWhereCondition (isHead_condHead .like) hafter h.noAnd
      (parseWhereCondition_like hafter h.noEquals)

/-- **Keywords in a name and in a literal stay what they are exactly if the statements look for
none of them there.** -/
theorem literalKept_iff (conv : Conversions) {t : Bytes} (x : Bytes) (ht : IsTableName t) :
    LiteralKept conv t x ↔ LiteralSafe t x := ⟨fun h => h.safe ht, fun h => h.kept ht⟩

/-- `it's` in the table `sensors`. -/
theorem literalKept_apostrophe :
    LiteralKept { stod := fun _ => none, parseTimeString := fun _ => 0 } (ascii "sensors")
      (ascii "it's") :=
  (literalKept_iff _ _ ⟨by decide, List.all_eq_true.mp rfl⟩).mpr
    ⟨by decide, by decide, by decide, by decide, .inr (by decide)⟩

/-- The `AND` in `BRAND-1`. -/
theorem literal_not_kept :
    ¬ LiteralKept { stod := fun _ => none, parseTimeString := fun _ => 0 } (ascii "sensors")
      (ascii "BRAND-1") := fun h =>
      (h.safe ⟨by decide, List.all_eq_true.mp rfl⟩).noAnd (by decide)

end Sql
end MiniTSDB
