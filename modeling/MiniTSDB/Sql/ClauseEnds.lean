import MiniTSDB.Sql.Literals
import MiniTSDB.Sql.ParserTotal

/-!
# Where a clause ends

A clause ends where a keyword is found next, wherever in the text that is: in the name of the
table, in a literal, or where the statement has one.
-/

namespace MiniTSDB
namespace Sql

open Lib

/-- The name of a table. -/
structure IsTableName (t : Bytes) : Prop where
  nonempty : t ≠ []
  chars : ∀ c ∈ t, isNameChar c = true

/-- The keyword is in the text, in any case of its letters. -/
def Mentions (s kw : Bytes) : Prop := kw <:+: toUpper s

instance decidableMentions (s kw : Bytes) : Decidable (Mentions s kw) :=
  inferInstanceAs (Decidable (kw <:+: toUpper s))

/-- What ends a `WHERE` clause. -/
def clauseEnds : List Bytes :=
  [ascii "LATEST", ascii "GROUP BY", ascii "ORDER BY", ascii "LIMIT"]

/-! ## Names -/

theorem IsTableName.not_mem_toUpper {t : Bytes} (ht : IsTableName t) {d : UInt8}
    (hd : isNameChar d = false) : d ∉ toUpper t := by
  intro hmem
  obtain ⟨c, hc, rfl⟩ := List.mem_map.mp hmem
  exact ne_of_isNameChar (isNameChar_upperChar (ht.chars c hc)) hd rfl

theorem IsTableName.tight {t : Bytes} (ht : IsTableName t) : Tight t := by
  constructor
  · cases h : t.head? with
    | none => rfl
    | some c =>
      rw [Option.all_some, not_isBlank_of_isNameChar (ht.chars c (List.mem_of_head? h))]
      rfl
  · cases h : t.getLast? with
    | none => rfl
    | some c =>
      rw [Option.all_some, not_isBlank_of_isNameChar (ht.chars c (List.mem_of_getLast? h))]
      rfl

/-- One space is skipped. -/
theorem skipWhitespace_next {before after : Bytes} {pos : Nat} (hpos : before.length = pos)
    (h : after.head?.any (fun c => !(isBlank c || c = comma)) = true) :
    skipWhitespace (before ++ space :: after) pos = pos + 1 := by
  cases after with
  | nil => cases h
  | cons c after =>
    rw [List.head?_cons, Option.any_some] at h
    rw [skipWhitespace, skipUntil_append hpos, List.takeWhile_cons, if_pos (by decide),
      List.takeWhile_cons, if_neg (by rw [h]; decide)]
    rfl

theorem IsTableName.head {t : Bytes} (ht : IsTableName t) (after : Bytes) :
    (t ++ after).head?.any (fun c => !(isBlank c || c = comma)) = true := by
  cases hcons : t with
  | nil => exact absurd hcons ht.nonempty
  | cons c rest =>
    have hname : isNameChar c = true := ht.chars c (by rw [hcons]; exact List.mem_cons_self)
    have hcomma : c ≠ comma := ne_of_isNameChar hname (by decide)
    rw [List.cons_append, List.head?_cons, Option.any_some, not_isBlank_of_isNameChar hname]
    simp [hcomma]

/-- One space is skipped in front of a name. -/
theorem IsTableName.skipWhitespace_space {t : Bytes} (ht : IsTableName t) {before after : Bytes}
    {pos : Nat} (hpos : before.length = pos) :
    skipWhitespace (before ++ space :: (t ++ after)) pos = pos + 1 :=
  skipWhitespace_next hpos (ht.head after)

/-- Where a keyword is found behind a name: in the name, or at its place. -/
theorem find_behind_name {t kw after : Bytes} (hsep : space ∉ kw) (hne : kw ≠ [])
    (ht : ¬ Mentions t kw) (hafter : kw <+: toUpper after) :
    find kw (toUpper (t ++ space :: after)) = some (t.length + 1) := by
  have hnone : find kw (toUpper t) = none := find_eq_none_iff.mpr ht
  have hupper : upperChar space = space := rfl
  rw [toUpper_append, toUpper_cons, hupper, find_append_cons hsep hne, hnone]
  dsimp only
  rw [find_at_front hafter, length_toUpper]
  simp

theorem find_in_name {t kw : Bytes} (after : Bytes) (ht : Mentions t kw) :
    ∃ i, find kw (toUpper (t ++ after)) = some i ∧ i + kw.length ≤ t.length := by
  obtain ⟨i, hi⟩ := exists_find ht
  have hlen := (find_eq_some hi).2
  rw [length_toUpper] at hlen
  refine ⟨i, ?_, hlen⟩
  rw [toUpper_append]
  exact find_append_of_find _ hi

/-- A keyword has no quote, so it is on one side of it. -/
theorem mentions_append_quote_iff {kw a b : Bytes} (hquote : quote ∉ kw) :
    Mentions (a ++ quote :: b) kw ↔ Mentions a kw ∨ Mentions b kw := by
  have hupper : upperChar quote = quote := rfl
  rw [Mentions, toUpper_append, toUpper_cons, hupper, infix_append_cons_iff hquote]
  rfl

/-! ## A `SELECT` with conditions -/

/-- Where a clause ends. -/
def clauseEnd (sql : Bytes) (pos : Nat) : Nat :=
  earliest sql (clauseEnds.map fun kw => findKeyword sql kw pos)

/-- The text from the name of the table on. -/
def behindFrom (t rest : Bytes) : Bytes := t ++ space :: (ascii "WHERE " ++ rest)

/-- `SELECT cols FROM t WHERE rest`. -/
def selectOf (cols t rest : Bytes) : Bytes :=
  ascii "SELECT " ++ (cols ++ space :: (ascii "FROM " ++ behindFrom t rest))

/-- `SELECT cols FROM`, and what stands behind the space. -/
def selectFrom (cols after : Bytes) : Bytes :=
  ascii "SELECT " ++ (cols ++ space :: (ascii "FROM " ++ after))

/-- The columns of a statement. -/
structure IsColumns (cols : Bytes) : Prop where
  front : cols.head?.any (fun c => !(isBlank c || c = comma)) = true
  noFrom : ¬ Mentions cols (ascii "FROM")

theorem isColumns_star : IsColumns (ascii "*") := ⟨by decide, by decide⟩

/-- The text in front of the name. -/
theorem selectFrom_eq (cols after : Bytes) :
    selectFrom cols after = (ascii "SELECT " ++ (cols ++ ascii " FROM ")) ++ after := by
  simp only [selectFrom, List.append_assoc]
  rfl

theorem selectOf_eq (cols t rest : Bytes) :
    selectOf cols t rest = (ascii "SELECT " ++ (cols ++ ascii " FROM ")) ++ behindFrom t rest :=
  selectFrom_eq cols (behindFrom t rest)

theorem length_beforeName (cols : Bytes) :
    (ascii "SELECT " ++ (cols ++ ascii " FROM ")).length = cols.length + 13 := by
  rw [List.length_append, List.length_append]
  change 7 + (cols.length + 6) = _
  omega

theorem findKeyword_selectFrom (cols after kw : Bytes) :
    findKeyword (selectFrom cols after) kw (cols.length + 13)
      = (find (toUpper kw) (toUpper after)).map (· + (cols.length + 13)) := by
  rw [selectFrom_eq]
  exact findKeyword_append (length_beforeName cols)

theorem findKeyword_selectOf (cols t rest kw : Bytes) :
    findKeyword (selectOf cols t rest) kw (cols.length + 13)
      = (find (toUpper kw) (toUpper (behindFrom t rest))).map (· + (cols.length + 13)) :=
  findKeyword_selectFrom cols (behindFrom t rest) kw

theorem select_prefix_selectFrom (cols after : Bytes) :
    ascii "SELECT" <+: toUpper (selectFrom cols after) := by
  rw [selectFrom, toUpper_append]
  exact List.IsPrefix.trans (by decide) (List.prefix_append _ _)

/-- The columns begin behind `SELECT` and its space. -/
theorem columnsStart_selectFrom {cols : Bytes} (hcols : IsColumns cols) (after : Bytes) :
    skipWhitespace (selectFrom cols after) (afterKeyword (selectFrom cols after) (ascii "SELECT"))
      = 7 := by
  have hsplit : selectFrom cols after
      = ascii "SELECT" ++ space :: (cols ++ space :: (ascii "FROM " ++ after)) := rfl
  rw [afterKeyword_eq (select_prefix_selectFrom cols after) rfl (by decide), hsplit]
  apply skipWhitespace_next rfl
  obtain ⟨c, rest', rfl⟩ : ∃ c rest', cols = c :: rest' := by
    cases cols with
    | nil => cases hcols.front
    | cons c rest' => exact ⟨c, rest', rfl⟩
  exact hcols.front

/-- The first `FROM` is the one behind the columns, since these have none. -/
theorem findFrom_selectFrom {cols : Bytes} (hcols : IsColumns cols) (after : Bytes) :
    findKeyword (selectFrom cols after) (ascii "FROM") 7 = some (cols.length + 8) := by
  have hbehind : ascii "FROM" <+: toUpper (ascii "FROM " ++ after) := by
    rw [toUpper_append]
    exact List.IsPrefix.trans (by decide) (List.prefix_append _ _)
  have hmap : toUpper (ascii "FROM") = ascii "FROM" := rfl
  rw [selectFrom, findKeyword_append (by decide), hmap,
    find_behind_name (by decide) (by decide) hcols.noFrom hbehind]
  rfl

/-- The name of the table begins behind `FROM` and its space. -/
theorem nameStart_selectFrom (cols : Bytes) {after : Bytes}
    (hafter : after.head?.any (fun c => !(isBlank c || c = comma)) = true) :
    skipWhitespace (selectFrom cols after) (cols.length + 12) = cols.length + 13 := by
  have hsplit : selectFrom cols after
      = (ascii "SELECT " ++ (cols ++ ascii " FROM")) ++ space :: after := by
    simp only [selectFrom, List.append_assoc]
    rfl
  have hlen : (ascii "SELECT " ++ (cols ++ ascii " FROM")).length = cols.length + 12 := by
    rw [List.length_append, List.length_append]
    change 7 + (cols.length + 5) = _
    omega
  rw [hsplit]
  exact skipWhitespace_next hlen hafter

theorem columns_selectFrom (cols after : Bytes) :
    substrTo (selectFrom cols after) 7 (cols.length + 8) = .ok (cols ++ [space]) := by
  have hsplit : selectFrom cols after
      = ascii "SELECT " ++ ((cols ++ [space]) ++ (ascii "FROM " ++ after)) := by
    simp only [selectFrom, List.append_assoc, List.cons_append, List.nil_append]
  have hlen : (ascii "SELECT ").length + (cols ++ [space]).length = cols.length + 8 := by
    rw [List.length_append]
    change 7 + (cols.length + 1) = _
    omega
  rw [hsplit]
  exact substrTo_append rfl hlen

/-- **The statement, keyword by keyword**, whatever follows the `FROM`. -/
theorem parse_selectFrom (conv : Conversions) (fuel : Nat) {sql cols after : Bytes}
    (hsql : trim sql = selectFrom cols after) (hcols : IsColumns cols)
    (hafter : after.head?.any (fun c => !(isBlank c || c = comma)) = true) :
    parse conv fuel sql = (do
      let columns ← selectColumns (cols ++ [space]) fuel 0 []
      let wherePos := (find (ascii "WHERE") (toUpper after)).map (· + (cols.length + 13))
      let latestPos := (find (ascii "LATEST") (toUpper after)).map (· + (cols.length + 13))
      let some nameEnd := wherePos <|> latestPos
        | return .success (.select { columns := columns, tableName := trim after })
      let tableName := trim (← substrTo (selectFrom cols after) (cols.length + 13) nameEnd)
      let where_ ← whereClause conv fuel (selectFrom cols after) wherePos
        (clauseEnd (selectFrom cols after) (cols.length + 13))
      return .success (.select
        { columns := columns
          tableName := tableName
          where_ := where_
          latest := toUpper tableName = ascii "SNAPSHOT" || latestPos.isSome
          groupBy := (findKeyword (selectFrom cols after) (ascii "GROUP BY")
            (cols.length + 13)).map (groupBucket (selectFrom cols after)) })) := by
  have hwhere := findKeyword_selectFrom cols after (ascii "WHERE")
  have hlatest := findKeyword_selectFrom cols after (ascii "LATEST")
  rw [show toUpper (ascii "WHERE") = ascii "WHERE" from rfl] at hwhere
  rw [show toUpper (ascii "LATEST") = ascii "LATEST" from rfl] at hlatest
  have hname : substr (selectFrom cols after) (cols.length + 13) = .ok after := by
    rw [selectFrom_eq]
    exact substr_append (length_beforeName cols)
  have hne : (selectFrom cols after).isEmpty = false := rfl
  rw [parse]
  rw [hsql, hne, if_neg (by decide), dispatch,
    if_pos (startsWith_iff.mpr (select_prefix_selectFrom cols after)), parseSelect]
  -- the searches of `parseSelect`, in its order
  simp only [columnsStart_selectFrom hcols, findFrom_selectFrom hcols, columns_selectFrom,
    nameStart_selectFrom cols hafter, hwhere, hname, ok_bind]
  rw [← hlatest]
  rfl

/-- Where its `WHERE` is found decides the table, and where its clause ends decides the
conditions. -/
theorem parse_selectOf (conv : Conversions) (fuel : Nat) {sql cols t rest : Bytes} {i : Nat}
    (hsql : trim sql = selectOf cols t rest) (hcols : IsColumns cols) (ht : IsTableName t)
    (hwhere : find (ascii "WHERE") (toUpper (behindFrom t rest)) = some i) :
    parse conv fuel sql = (do
      let columns ← selectColumns (cols ++ [space]) fuel 0 []
      let where_ ← whereClause conv fuel (selectOf cols t rest) (some (i + (cols.length + 13)))
        (clauseEnd (selectOf cols t rest) (cols.length + 13))
      return .success (.select
        { columns := columns, tableName := trim ((behindFrom t rest).take i), where_ := where_,
          latest := toUpper (trim ((behindFrom t rest).take i)) = ascii "SNAPSHOT" ||
            (findKeyword (selectOf cols t rest) (ascii "LATEST") (cols.length + 13)).isSome,
          groupBy := (findKeyword (selectOf cols t rest) (ascii "GROUP BY")
            (cols.length + 13)).map (groupBucket (selectOf cols t rest)) })) := by
  have htable : substrTo (selectOf cols t rest) (cols.length + 13) (i + (cols.length + 13))
      = .ok ((behindFrom t rest).take i) := by
    have hlen := (find_eq_some hwhere).2
    rw [length_toUpper] at hlen
    rw [selectOf_eq]
    exact substrTo_take (length_beforeName cols) (by omega)
  have hparse := parse_selectFrom conv fuel hsql hcols (ht.head _)
  rw [findKeyword_selectOf]
  rw [hwhere] at hparse
  refine hparse.trans ?_
  refine congrArg (selectColumns (cols ++ [space]) fuel 0 [] >>= ·) (funext fun columns => ?_)
  change substrTo (selectOf cols t rest) (cols.length + 13) (i + (cols.length + 13)) >>= _ = _
  rw [htable]
  rfl

/-- The conditions begin behind the `WHERE`. -/
theorem whereClause_selectOf {conv : Conversions} {fuel stop : Nat} {cols t rest : Bytes}
    (hrest : rest.head?.any (fun c => !(isBlank c || c = comma)) = true) :
    whereClause conv fuel (selectOf cols t rest) (some (t.length + 1 + (cols.length + 13))) stop
      = whereConditions conv (trim (if cols.length + t.length + 20 ≤ stop
          then rest.take (stop - (cols.length + t.length + 20)) else rest)) fuel 0 {} := by
  have hbefore : (ascii "SELECT " ++ (cols ++ (ascii " FROM " ++ (t ++ ascii " WHERE")))).length
      = cols.length + t.length + 19 := by
    rw [List.length_append, List.length_append, List.length_append, List.length_append]
    change 7 + (cols.length + (6 + (t.length + 6))) = _
    omega
  have hsplit : selectOf cols t rest
      = (ascii "SELECT " ++ (cols ++ (ascii " FROM " ++ (t ++ ascii " WHERE")))) ++ space :: rest := by
    simp only [selectOf, behindFrom, List.append_assoc]
    rfl
  have hskip : skipWhitespace (selectOf cols t rest) (cols.length + t.length + 19)
      = cols.length + t.length + 20 := by
    rw [hsplit]
    exact skipWhitespace_next hbefore hrest
  have hdrop : (selectOf cols t rest).drop (cols.length + t.length + 20) = rest := by
    have hnext : cols.length + t.length + 20 = cols.length + t.length + 19 + 1 := rfl
    rw [hsplit, hnext, ← hbefore, ← List.drop_drop, List.drop_left]
    rfl
  have hle : cols.length + t.length + 20 ≤ (selectOf cols t rest).length := by
    rw [hsplit, List.length_append, hbefore, List.length_cons]
    omega
  have hpos : t.length + 1 + (cols.length + 13) + 5 = cols.length + t.length + 19 := by omega
  rw [whereClause]
  simp only [hpos, hskip]
  rw [substrTo_ok hle, hdrop]
  rfl

/-- The same where all columns are asked for. -/
theorem whereClause_selectAll {conv : Conversions} {fuel : Nat} {t rest : Bytes} (stop : Nat)
    (hrest : rest.head?.any (fun c => !(isBlank c || c = comma)) = true) :
    whereClause conv fuel (selectOf (ascii "*") t rest) (some (t.length + 15)) stop
      = whereConditions conv (trim (if t.length + 21 ≤ stop
          then rest.take (stop - (t.length + 21)) else rest)) fuel 0 {} := by
  have hpos : (ascii "*").length + t.length + 20 = t.length + 21 := by
    change 1 + t.length + 20 = _
    omega
  have hclause : whereClause conv fuel (selectOf (ascii "*") t rest)
      (some (t.length + 1 + ((ascii "*").length + 13))) stop = _ := whereClause_selectOf hrest
  rw [hpos] at hclause
  exact hclause

/-! ## Behind the conditions -/

theorem not_mentions_by {t after : Bytes} (ht : IsTableName t) (word : Bytes)
    (hafter : ¬ ascii " BY" <:+: toUpper after) :
    ¬ Mentions (t ++ after) (word ++ ascii " BY") := by
  intro h
  have hby : ascii " BY" <:+: toUpper t ++ toUpper after := by
    rw [← toUpper_append]
    exact (List.suffix_append word _).isInfix.trans h
  exact hafter ((infix_append_of_head (ht.not_mem_toUpper (by decide))).mp hby)

/-- No keyword that ends a clause begins between a name and what is behind it. -/
theorem mentions_behind_iff {t after kw : Bytes} (ht : IsTableName t) (hkw : kw ∈ clauseEnds)
    (hafter : ∀ kw ∈ clauseEnds, ¬ Mentions after kw)
    (hby : ¬ ascii " BY" <:+: toUpper (space :: after)) :
    Mentions (t ++ space :: after) kw ↔ Mentions t kw := by
  have hword : ∀ kw ∈ clauseEnds, space ∉ kw →
      (Mentions (t ++ space :: after) kw ↔ Mentions t kw) := by
    intro kw hkw hsep
    have hupper : upperChar space = space := rfl
    have hnot : ¬ kw <:+: toUpper after := hafter kw hkw
    rw [Mentions, toUpper_append, toUpper_cons, hupper, infix_append_cons_iff hsep]
    simp only [hnot, or_false]
    rfl
  have hwordBy : ∀ word : Bytes, Mentions (t ++ space :: after) (word ++ ascii " BY")
      ↔ Mentions t (word ++ ascii " BY") := by
    intro word
    have hname : ¬ Mentions (t ++ []) (word ++ ascii " BY") := not_mentions_by ht word (by decide)
    rw [List.append_nil] at hname
    exact iff_of_false (not_mentions_by ht word hby) hname
  have hkw' := hkw
  simp only [clauseEnds, List.mem_cons, List.not_mem_nil, or_false] at hkw'
  rcases hkw' with rfl | rfl | rfl | rfl
  · exact hword _ hkw (by decide)
  · exact hwordBy (ascii "GROUP")
  · exact hwordBy (ascii "ORDER")
  · exact hword _ hkw (by decide)

theorem clauseEnds_spec {kw : Bytes} (hkw : kw ∈ clauseEnds) :
    kw ≠ [] ∧ quote ∉ kw ∧ toUpper kw = kw := by
  simp only [clauseEnds, List.mem_cons, List.not_mem_nil, or_false] at hkw
  rcases hkw with rfl | rfl | rfl | rfl
  all_goals decide

theorem earliest_le {sql : Bytes} {found : List (Option Nat)} {pos : Nat} (h : some pos ∈ found) :
    earliest sql found ≤ pos := by
  have hfold : ∀ (found : List (Option Nat)) (stop : Nat),
      found.foldl (fun stop pos => min stop (pos.getD stop)) stop ≤ stop ∧
      (some pos ∈ found → found.foldl (fun stop pos => min stop (pos.getD stop)) stop ≤ pos) := by
    intro found
    induction found with
    | nil => exact fun stop => ⟨Nat.le_refl _, by simp⟩
    | cons r found ih =>
      intro stop
      obtain ⟨hle, hmem⟩ := ih (min stop (r.getD stop))
      refine ⟨Nat.le_trans hle (Nat.min_le_left _ _), fun h => ?_⟩
      cases List.mem_cons.mp h with
      | inl heq =>
        rw [← heq] at hle ⊢
        exact Nat.le_trans hle (Nat.min_le_right _ _)
      | inr hin => exact hmem hin
  exact (hfold found sql.length).2 h

theorem le_earliest {sql : Bytes} {found : List (Option Nat)} {m : Nat} (hsql : m ≤ sql.length)
    (h : ∀ pos, some pos ∈ found → m ≤ pos) : m ≤ earliest sql found := by
  have hfold : ∀ (found : List (Option Nat)) (stop : Nat), m ≤ stop →
      (∀ pos, some pos ∈ found → m ≤ pos) →
      m ≤ found.foldl (fun stop pos => min stop (pos.getD stop)) stop := by
    intro found
    induction found with
    | nil => exact fun stop hstop _ => hstop
    | cons r found ih =>
      intro stop hstop hfound
      apply ih
      · apply Nat.le_min.mpr ⟨hstop, ?_⟩
        cases r with
        | none => exact hstop
        | some pos => exact hfound pos List.mem_cons_self
      · exact fun pos hpos => hfound pos (List.mem_cons_of_mem _ hpos)
  exact hfold found sql.length hsql h

/-- The first keyword is not in front of the one place, nor behind the other. -/
theorem clauseEnd_between {sql kw : Bytes} {pos low high : Nat} (hlong : low ≤ sql.length)
    (hlow : ∀ kw ∈ clauseEnds, ∀ found, findKeyword sql kw pos = some found → low ≤ found)
    (hkw : kw ∈ clauseEnds) (hhigh : findKeyword sql kw pos = some high) :
    low ≤ clauseEnd sql pos ∧ clauseEnd sql pos ≤ high := by
  constructor
  · refine le_earliest hlong fun found hmem => ?_
    obtain ⟨kw', hkw', hfound⟩ := List.mem_map.mp hmem
    exact hlow kw' hkw' found hfound
  · exact earliest_le (List.mem_map.mpr ⟨kw, hkw, hhigh⟩)

/-- A keyword in the name ends the clause before it begins. -/
theorem clauseEnd_of_mentions {t kw : Bytes} (cols rest : Bytes) (hkw : kw ∈ clauseEnds)
    (hname : Mentions t kw) :
    clauseEnd (selectOf cols t rest) (cols.length + 13) ≤ t.length + (cols.length + 13) := by
  obtain ⟨-, -, hmap⟩ := clauseEnds_spec hkw
  obtain ⟨i, hi, hlen⟩ := find_in_name (space :: (ascii "WHERE " ++ rest)) hname
  have hfound : findKeyword (selectOf cols t rest) kw (cols.length + 13)
      = some (i + (cols.length + 13)) := by
    rw [findKeyword_selectOf, hmap, behindFrom, hi, Option.map_some]
  have hle : clauseEnd (selectOf cols t rest) (cols.length + 13) ≤ i + (cols.length + 13) :=
    earliest_le (List.mem_map.mpr ⟨kw, hkw, hfound⟩)
  omega

/-- In a condition on a literal, a keyword is in the name or in the literal. -/
theorem mentions_literal_iff {t kw head : Bytes} (ht : IsTableName t) (hkw : kw ∈ clauseEnds)
    (hhead : ∀ kw ∈ clauseEnds, ¬ Mentions (ascii "WHERE " ++ head) kw)
    (hby : ¬ ascii " BY" <:+: toUpper (space :: (ascii "WHERE " ++ head))) (x : Bytes) :
    Mentions (behindFrom t (head ++ quote :: doubleQuotes x)) kw ↔
      Mentions t kw ∨ Mentions x kw := by
  obtain ⟨hne, hquote, -⟩ := clauseEnds_spec hkw
  have hsplit : behindFrom t (head ++ quote :: doubleQuotes x)
      = (t ++ space :: (ascii "WHERE " ++ head)) ++ quote :: doubleQuotes x := by
    simp only [behindFrom, List.append_assoc, List.cons_append]
  rw [hsplit, mentions_append_quote_iff hquote, mentions_behind_iff ht hkw hhead hby]
  exact or_congr_right (infix_doubleQuotes_iff hne hquote x)

/-- What may be behind the conditions: nothing, or one of the keywords and whatever follows it. -/
def Trails (tail : Bytes) : Prop :=
  tail = [] ∨ ∃ kw ∈ clauseEnds, ∃ args, tail = space :: (kw ++ args)

theorem not_starts_space {kw after : Bytes} (hkw : kw ∈ clauseEnds) : ¬ kw <+: space :: after := by
  have hhead : ∀ kw ∈ clauseEnds, kw.head?.all (· ≠ space) = true := by decide
  intro h
  cases kw with
  | nil => exact absurd rfl (clauseEnds_spec hkw).1
  | cons c kw =>
    have hspace : c = space := (List.cons_prefix_cons.mp h).1
    have hne := hhead _ hkw
    rw [hspace] at hne
    cases hne

/-- A keyword behind the last literal of the conditions. -/
theorem findKeyword_behind {cols t body tail kw : Bytes} (hkw : kw ∈ clauseEnds)
    (hbody : ¬ Mentions (behindFrom t body) kw) :
    findKeyword (selectOf cols t (body ++ quote :: tail)) kw (cols.length + 13)
      = (find kw (toUpper tail)).map (· + (cols.length + t.length + body.length + 21)) := by
  obtain ⟨hne, hquote, hmap⟩ := clauseEnds_spec hkw
  have hsplit : behindFrom t (body ++ quote :: tail) = behindFrom t body ++ quote :: tail := by
    simp only [behindFrom, List.append_assoc, List.cons_append]
  have hlen : (behindFrom t body).length = t.length + body.length + 7 := by
    rw [behindFrom, List.length_append, List.length_cons, List.length_append]
    change t.length + (6 + body.length + 1) = _
    omega
  have hnone : find kw (toUpper (behindFrom t body)) = none := find_eq_none_iff.mpr hbody
  have hupper : upperChar quote = quote := rfl
  rw [findKeyword_selectOf, hmap, hsplit, toUpper_append, toUpper_cons, hupper,
    find_append_cons hquote hne, hnone, length_toUpper, hlen]
  dsimp only
  rw [Option.map_map]
  congr 1
  funext i
  simp only [Function.comp_apply]
  omega

/-- A keyword that ends the clause is one found behind the last literal. -/
theorem found_behind {cols t body tail : Bytes} {found : Option Nat} {pos : Nat}
    (hbody : ∀ kw ∈ clauseEnds, ¬ Mentions (behindFrom t body) kw)
    (hfound : found ∈ clauseEnds.map fun kw =>
      findKeyword (selectOf cols t (body ++ quote :: tail)) kw (cols.length + 13))
    (hpos : found = some pos) :
    ∃ kw ∈ clauseEnds, ∃ i, find kw (toUpper tail) = some i ∧
      pos = i + (cols.length + t.length + body.length + 21) := by
  obtain ⟨kw, hkw, rfl⟩ := List.mem_map.mp hfound
  rw [findKeyword_behind hkw (hbody kw hkw)] at hpos
  obtain ⟨i, hi, rfl⟩ := Option.map_eq_some_iff.mp hpos
  exact ⟨kw, hkw, i, hi, rfl⟩

theorem length_selectOf_closed (cols t body tail : Bytes) :
    (selectOf cols t (body ++ quote :: tail)).length
      = cols.length + t.length + body.length + 21 + tail.length := by
  rw [selectOf_eq, List.length_append, length_beforeName, behindFrom, List.length_append,
    List.length_cons, List.length_append, List.length_append, List.length_cons]
  change cols.length + 13 + (t.length + (6 + (body.length + (tail.length + 1)) + 1)) = _
  omega

/-- Nothing is behind the last literal: the clause ends with the text. -/
theorem clauseEnd_closed_nil {cols t body : Bytes}
    (hbody : ∀ kw ∈ clauseEnds, ¬ Mentions (behindFrom t body) kw) :
    (selectOf cols t (body ++ [quote])).length
      ≤ clauseEnd (selectOf cols t (body ++ [quote])) (cols.length + 13) := by
  apply le_earliest (Nat.le_refl _)
  intro pos hpos
  obtain ⟨kw, hkw, i, hi, -⟩ := found_behind hbody hpos rfl
  obtain ⟨hne, -, -⟩ := clauseEnds_spec hkw
  have hlong := (find_eq_some hi).2
  have hnonempty := List.length_pos_iff.mpr hne
  simp only [toUpper, List.map_nil, List.length_nil] at hlong
  omega

/-- A keyword is behind the last literal and a space: the clause ends in front of it. -/
theorem clauseEnd_closed_keyword {cols t body kw args : Bytes}
    (hbody : ∀ kw ∈ clauseEnds, ¬ Mentions (behindFrom t body) kw) (hkw : kw ∈ clauseEnds) :
    clauseEnd (selectOf cols t (body ++ quote :: space :: (kw ++ args))) (cols.length + 13)
      = cols.length + t.length + body.length + 22 := by
  have hupper : upperChar space = space := rfl
  obtain ⟨hne, -, hmap⟩ := clauseEnds_spec hkw
  apply Nat.le_antisymm
  · -- the keyword itself is found there
    have hat : find kw (toUpper (space :: (kw ++ args))) = some 1 := by
      have hnot : ¬ kw <+: space :: toUpper (kw ++ args) := not_starts_space hkw
      rw [toUpper_cons, hupper, find_cons_later hnot, toUpper_append, hmap,
        find_at_front (List.prefix_append _ _)]
      rfl
    have hkwAt : findKeyword (selectOf cols t (body ++ quote :: space :: (kw ++ args))) kw
        (cols.length + 13) = some (1 + (cols.length + t.length + body.length + 21)) := by
      rw [findKeyword_behind hkw (hbody kw hkw), hat, Option.map_some]
    have hle : clauseEnd (selectOf cols t (body ++ quote :: space :: (kw ++ args)))
        (cols.length + 13) ≤ 1 + (cols.length + t.length + body.length + 21) :=
      earliest_le (List.mem_map.mpr ⟨kw, hkw, hkwAt⟩)
    omega
  · -- no other is found earlier: the space starts none of them
    apply le_earliest
    · rw [length_selectOf_closed, List.length_cons]
      omega
    · intro pos hpos
      obtain ⟨kw', hkw', i, hi, rfl⟩ := found_behind hbody hpos rfl
      cases i with
      | zero =>
        have hstart := (find_eq_some hi).1
        rw [List.drop_zero, toUpper_cons, hupper] at hstart
        exact absurd hstart (not_starts_space hkw')
      | succ i => omega

/-- **The clause ends behind its last literal**, if no keyword is in front of that. -/
theorem whereClause_closed {conv : Conversions} {fuel : Nat} {cols t body tail : Bytes}
    (hfront : body.head?.any (fun c => !(isBlank c || c = comma)) = true)
    (hbody : ∀ kw ∈ clauseEnds, ¬ Mentions (behindFrom t body) kw) (htail : Trails tail) :
    whereClause conv fuel (selectOf cols t (body ++ quote :: tail))
        (some (t.length + 1 + (cols.length + 13)))
        (clauseEnd (selectOf cols t (body ++ quote :: tail)) (cols.length + 13))
      = whereConditions conv (body ++ [quote]) fuel 0 {} := by
  have hhead : body.head?.any (! isBlank ·) = true := by
    rw [Option.any_eq_true] at hfront ⊢
    obtain ⟨c, hc, hgap⟩ := hfront
    rw [Bool.not_or, Bool.and_eq_true] at hgap
    exact ⟨c, hc, hgap.1⟩
  have htight : Tight (body ++ [quote]) := tight_append hhead rfl
  have hfront' : (body ++ quote :: tail).head?.any (fun c => !(isBlank c || c = comma)) = true := by
    cases body with
    | nil => cases hfront
    | cons c rest => exact hfront
  rw [whereClause_selectOf hfront']
  rcases htail with rfl | ⟨kw, hkw, args, rfl⟩
  · have hend : (selectOf cols t (body ++ [quote])).length
        ≤ clauseEnd (selectOf cols t (body ++ [quote])) (cols.length + 13) :=
      clauseEnd_closed_nil hbody
    rw [length_selectOf_closed, List.length_nil] at hend
    rw [if_pos (by omega), List.take_of_length_le, trim_eq htight]
    rw [List.length_append, List.length_singleton]
    omega
  · -- the space in front of the keyword is cut with the rest
    have htake : clauseEnd (selectOf cols t (body ++ quote :: space :: (kw ++ args)))
        (cols.length + 13) - (cols.length + t.length + 20)
        = ([] ++ (body ++ [quote]) ++ [space]).length := by
      rw [clauseEnd_closed_keyword hbody hkw, List.nil_append, List.length_append,
        List.length_append]
      change _ = body.length + 1 + 1
      omega
    have hsplit : body ++ quote :: space :: (kw ++ args)
        = ([] ++ (body ++ [quote]) ++ [space]) ++ (kw ++ args) := by
      simp only [List.append_assoc, List.cons_append, List.nil_append]
    have hlong : cols.length + t.length + 20
        ≤ clauseEnd (selectOf cols t (body ++ quote :: space :: (kw ++ args)))
          (cols.length + 13) := by
      rw [clauseEnd_closed_keyword hbody hkw]
      omega
    rw [if_pos hlong, htake]
    nth_rewrite 1 [hsplit]
    rw [List.take_left, trim_append [] [space] (by simp) (fun c hc => isBlank_of_mem_space hc) htight]

/-! ## The statements -/

inductive Operator
  | eq
  | like
  deriving DecidableEq, Repr

def Operator.text : Operator → Bytes
  | .eq => ascii "="
  | .like => ascii "LIKE"

/-- `tag = '` or `tag LIKE '`, without the quote. -/
def condHead (op : Operator) : Bytes := ascii "tag " ++ op.text ++ [space]

/-- `tag = 'x'`, with the quotes of the literal doubled, and what follows it. -/
def literalClause (op : Operator) (x after : Bytes) : Bytes :=
  condHead op ++ quote :: (doubleQuotes x ++ quote :: after)

/-- `tag = 'x' LATEST`. -/
abbrev condText (op : Operator) (x : Bytes) : Bytes := literalClause op x (ascii " LATEST")

/-- The text from the name of the table on. -/
def fromName (t : Bytes) (op : Operator) (x : Bytes) : Bytes :=
  t ++ space :: (ascii "WHERE " ++ condText op x)

/-- `SELECT * FROM t WHERE tag = 'x' LATEST`; the operator may be `LIKE`. -/
def selectText (t : Bytes) (op : Operator) (x : Bytes) : Bytes :=
  ascii "SELECT * FROM " ++ fromName t op x

theorem tight_selectText (t : Bytes) (op : Operator) (x : Bytes) : Tight (selectText t op x) := by
  apply tight_append rfl
  rw [fromName, condText, literalClause]
  simp only [List.getLast?_append, List.getLast?_cons]
  rfl

/-- `LATEST` is at the end at the latest. -/
theorem infix_latest (t : Bytes) (op : Operator) (x : Bytes) :
    ascii "LATEST" <:+: toUpper (fromName t op x) := by
  have hend : ∃ s, toUpper (fromName t op x) = s ++ ascii "LATEST" := by
    refine ⟨toUpper (t ++ [space] ++ ascii "WHERE " ++ condHead op ++ [quote] ++
      doubleQuotes x ++ [quote] ++ [space]), ?_⟩
    have hlast : ascii "LATEST" = toUpper (ascii "LATEST") := rfl
    rw [hlast, ← toUpper_append]
    congr 1
    simp only [fromName, literalClause, List.append_assoc, List.cons_append, List.nil_append]
    rfl
  obtain ⟨s, hs⟩ := hend
  rw [hs]
  exact (List.suffix_append s _).isInfix

/-- The same of this statement, which has a `LATEST`. -/
theorem parse_selectText {conv : Conversions} {fuel : Nat} {t : Bytes} {op : Operator} {x : Bytes}
    {i : Nat} (ht : IsTableName t)
    (hwhere : find (ascii "WHERE") (toUpper (fromName t op x)) = some i) :
    parse conv fuel (selectText t op x) = (do
      let columns ← selectColumns (ascii "* ") fuel 0 []
      let where_ ← whereClause conv fuel (selectText t op x) (some (i + 14))
        (clauseEnd (selectText t op x) 14)
      return .success (.select
        { columns := columns, tableName := trim ((fromName t op x).take i), where_ := where_,
          latest := true,
          groupBy := (findKeyword (selectText t op x) (ascii "GROUP BY") 14).map
            (groupBucket (selectText t op x)) })) := by
  have hsql : trim (selectText t op x) = selectOf (ascii "*") t (condText op x) :=
    trim_eq (tight_selectText t op x)
  have hlatest : (findKeyword (selectText t op x) (ascii "LATEST") 14).isSome = true := by
    obtain ⟨j, hj⟩ := exists_find (infix_latest t op x)
    have hmap : toUpper (ascii "LATEST") = ascii "LATEST" := rfl
    rw [selectText, findKeyword_append (by decide), hmap, hj]
    rfl
  have hparse : parse conv fuel (selectText t op x) = (do
    let columns ← selectColumns (ascii "* ") fuel 0 []
    let where_ ← whereClause conv fuel (selectText t op x) (some (i + 14))
      (clauseEnd (selectText t op x) 14)
    return .success (.select
      { columns := columns, tableName := trim ((fromName t op x).take i), where_ := where_,
        latest := toUpper (trim ((fromName t op x).take i)) = ascii "SNAPSHOT" ||
          (findKeyword (selectText t op x) (ascii "LATEST") 14).isSome,
        groupBy := (findKeyword (selectText t op x) (ascii "GROUP BY") 14).map
          (groupBucket (selectText t op x)) })) :=
      parse_selectOf _ _ hsql isColumns_star ht hwhere
  rw [hparse, hlatest, Bool.or_true]

/-! ## Where the clause ends -/

/-- The text from the name of the table up to the literal. -/
def headText (t : Bytes) (op : Operator) : Bytes :=
  t ++ space :: (ascii "WHERE " ++ condHead op)

theorem fromName_eq (t : Bytes) (op : Operator) (x : Bytes) :
    fromName t op x = headText t op ++ quote :: (doubleQuotes x ++ quote :: ascii " LATEST") := by
  simp only [fromName, headText, literalClause, List.append_assoc, List.cons_append]

theorem length_headText (t : Bytes) (op : Operator) :
    (headText t op).length = t.length + 7 + (condHead op).length := by
  rw [headText, List.length_append, List.length_cons, List.length_append]
  change t.length + (6 + (condHead op).length + 1) = _
  omega

/-- No keyword that ends a clause begins between the name and the literal. -/
theorem headText_noKeyword (op : Operator) :
    (∀ kw ∈ clauseEnds, ¬ Mentions (ascii "WHERE " ++ condHead op) kw) ∧
      ¬ ascii " BY" <:+: toUpper (space :: (ascii "WHERE " ++ condHead op)) := by
  cases op with
  | eq => exact ⟨by decide, by decide⟩
  | like => exact ⟨by decide, by decide⟩

theorem mentions_headText_iff {t kw : Bytes} {op : Operator} (ht : IsTableName t)
    (hkw : kw ∈ clauseEnds) : Mentions (headText t op) kw ↔ Mentions t kw :=
  mentions_behind_iff ht hkw (headText_noKeyword op).1 (headText_noKeyword op).2

/-- Where a keyword that ends a clause is found: in the name, in the literal, or behind it. -/
theorem findKeyword_clauseEnd {t kw : Bytes} (op : Operator) (x : Bytes) (ht : IsTableName t)
    (hkw : kw ∈ clauseEnds) (hname : ¬ Mentions t kw) :
    findKeyword (selectText t op x) kw 14
      = (match find kw (toUpper (doubleQuotes x)) with
        | some j => some j
        | none => (find kw (ascii " LATEST")).map (· + ((doubleQuotes x).length + 1))).map
          (· + ((headText t op).length + 15)) := by
  obtain ⟨hne, hquote, hmap⟩ := clauseEnds_spec hkw
  have hhead : find kw (toUpper (headText t op)) = none :=
    find_eq_none_iff.mpr fun h => hname ((mentions_headText_iff ht hkw).mp h)
  have hupper : upperChar quote = quote := rfl
  have hlast : toUpper (ascii " LATEST") = ascii " LATEST" := rfl
  rw [selectText, findKeyword_append (by decide), hmap, fromName_eq, toUpper_append, toUpper_cons,
    hupper, find_append_cons hquote hne, hhead, toUpper_append, toUpper_cons, hupper, hlast,
    find_append_cons hquote hne, length_toUpper, length_toUpper, Option.map_map]
  rfl

/-- A keyword in the name ends the clause before it begins. -/
theorem clauseEnd_of_name {t kw : Bytes} (op : Operator) (x : Bytes) (hkw : kw ∈ clauseEnds)
    (hname : Mentions t kw) : clauseEnd (selectText t op x) 14 ≤ t.length + 14 := by
  exact clauseEnd_of_mentions (ascii "*") (condText op x) hkw hname

theorem length_selectText (t : Bytes) (op : Operator) (x : Bytes) :
    (selectText t op x).length = (headText t op).length + (doubleQuotes x).length + 23 := by
  rw [selectText, List.length_append, fromName_eq, List.length_append, List.length_cons,
    List.length_append, List.length_cons]
  change 14 + ((headText t op).length + ((doubleQuotes x).length + (7 + 1) + 1)) = _
  omega

/-- A keyword in the literal ends the clause within the literal. -/
theorem clauseEnd_of_literal {t kw : Bytes} (op : Operator) {x : Bytes} {j : Nat}
    (ht : IsTableName t) (hkw : kw ∈ clauseEnds) (hnames : ∀ kw ∈ clauseEnds, ¬ Mentions t kw)
    (hj : find kw (toUpper (doubleQuotes x)) = some j) :
    (headText t op).length + 15 ≤ clauseEnd (selectText t op x) 14 ∧
      clauseEnd (selectText t op x) 14 ≤ (headText t op).length + 15 + j := by
  have hlong : (headText t op).length + 15 ≤ (selectText t op x).length := by
    rw [length_selectText]
    omega
  have hfound := findKeyword_clauseEnd op x ht hkw (hnames kw hkw)
  rw [hj, Option.map_some, Nat.add_comm j] at hfound
  refine clauseEnd_between hlong (fun kw' hkw' found hfound' => ?_) hkw hfound
  rw [findKeyword_clauseEnd op x ht hkw' (hnames kw' hkw')] at hfound'
  obtain ⟨k, -, rfl⟩ := Option.map_eq_some_iff.mp hfound'
  exact Nat.le_add_left _ _

/-- The clause begins at the condition. -/
theorem whereClause_selectText {conv : Conversions} {fuel : Nat} {t : Bytes} {op : Operator}
    {x : Bytes} {stop : Nat} :
    whereClause conv fuel (selectText t op x) (some (t.length + 15)) stop
      = whereConditions conv (trim (if t.length + 21 ≤ stop
          then (condText op x).take (stop - (t.length + 21)) else condText op x)) fuel 0 {} :=
  whereClause_selectAll stop rfl

/-! ## What the clause gives -/

/-- **A keyword in the name**: the clause ends before it begins, so it is all that is behind. -/
theorem whereClause_of_name {conv : Conversions} {fuel : Nat} {t kw : Bytes} {op : Operator}
    {x : Bytes} (hkw : kw ∈ clauseEnds) (hname : Mentions t kw) :
    whereClause conv fuel (selectText t op x) (some (t.length + 15))
        (clauseEnd (selectText t op x) 14)
      = whereConditions conv (condText op x) fuel 0 {} := by
  have hle := clauseEnd_of_name op x hkw hname
  rw [whereClause_selectText, if_neg (by omega), trim_eq]
  apply tight_append rfl
  simp only [List.getLast?_append, List.getLast?_cons]
  rfl

/-- **None in the name and none in the literal**: the clause is the condition. -/
theorem whereClause_of_neither {conv : Conversions} {fuel : Nat} {t : Bytes} {op : Operator}
    {x : Bytes} (ht : IsTableName t) (hnames : ∀ kw ∈ clauseEnds, ¬ Mentions t kw)
    (hlit : ∀ kw ∈ clauseEnds, ¬ Mentions x kw) :
    whereClause conv fuel (selectText t op x) (some (t.length + 15))
        (clauseEnd (selectText t op x) 14)
      = whereConditions conv (literalClause op x []) fuel 0 {} := by
  have hsplit : selectText t op x = selectOf (ascii "*") t
      ((condHead op ++ quote :: doubleQuotes x) ++ quote :: ascii " LATEST") := by
    simp only [List.append_assoc, List.cons_append]
    rfl
  have hnone : ∀ kw ∈ clauseEnds,
      ¬ Mentions (behindFrom t (condHead op ++ quote :: doubleQuotes x)) kw := by
    intro kw hkw h
    obtain ⟨hhead, hby⟩ := headText_noKeyword op
    cases (mentions_literal_iff ht hkw hhead hby x).mp h with
    | inl hname => exact hnames kw hkw hname
    | inr hliteral => exact hlit kw hkw hliteral
  have hclause : literalClause op x [] = (condHead op ++ quote :: doubleQuotes x) ++ [quote] := by
    simp only [literalClause, List.append_assoc, List.cons_append]
  rw [hsplit, hclause]
  exact whereClause_closed rfl hnone (.inr ⟨ascii "LATEST", by decide, [], rfl⟩)

/-- **One in the literal and none in the name**: the clause ends within the literal. -/
theorem whereClause_of_literal (conv : Conversions) (fuel : Nat) {t kw : Bytes} {op : Operator}
    {x : Bytes} {j : Nat} (ht : IsTableName t) (hkw : kw ∈ clauseEnds)
    (hnames : ∀ kw ∈ clauseEnds, ¬ Mentions t kw)
    (hj : find kw (toUpper (doubleQuotes x)) = some j) :
    ∃ n ≤ j, whereClause conv fuel (selectText t op x) (some (t.length + 15))
        (clauseEnd (selectText t op x) 14)
      = whereConditions conv (trim (condHead op ++ quote :: (doubleQuotes x).take n)) fuel 0 {} :=
    by
  have hhead := length_headText t op
  obtain ⟨hge, hle⟩ := clauseEnd_of_literal op ht hkw hnames hj
  have hlen := (find_eq_some hj).2
  rw [length_toUpper] at hlen
  refine ⟨clauseEnd (selectText t op x) 14 - ((headText t op).length + 15), by omega, ?_⟩
  have htake : clauseEnd (selectText t op x) 14 - (t.length + 21) = (condHead op).length
      + (clauseEnd (selectText t op x) 14 - ((headText t op).length + 15) + 1) := by
    omega
  rw [whereClause_selectText, if_pos (by omega), htake, condText, literalClause,
    List.take_length_add_append, List.take_succ_cons, List.take_append_of_le_length (by omega)]

/-! ## A literal behind a head -/

/-- What may be in front of a literal: it begins with no blank, and has no `N`. -/
structure IsHead (head : Bytes) : Prop where
  front : head.head?.any (! isBlank ·) = true
  noAnd : weight 78 head = 0

theorem isHead_condHead (op : Operator) : IsHead (condHead op) := by
  cases op with
  | eq => exact ⟨rfl, rfl⟩
  | like => exact ⟨rfl, rfl⟩

/-- A text without a letter of a keyword does not have the keyword. -/
theorem not_mentions_of_weight {k : UInt8} {kw s : Bytes} (hk : k ∈ kw) (h : weight k s = 0) :
    ¬ Mentions s kw := by
  intro hin
  obtain ⟨i, hi⟩ := exists_find hin
  have hloss := weight_lt_of_cut hk (find_eq_some hi).1
  omega

theorem not_infix_and {s : Bytes} (h : weight 78 s = 0) : ¬ ascii "AND" <:+: toUpper s :=
  not_mentions_of_weight (by decide) h

theorem infix_and_iff {head x after : Bytes} (hhead : ¬ ascii "AND" <:+: toUpper head)
    (hafter : ¬ ascii "AND" <:+: toUpper after) :
    ascii "AND" <:+: toUpper (head ++ quote :: (doubleQuotes x ++ quote :: after)) ↔
      Mentions x (ascii "AND") := by
  have hupper : upperChar quote = quote := rfl
  rw [toUpper_append, toUpper_cons, hupper, infix_append_cons_iff (by decide),
    toUpper_append, toUpper_cons, hupper, infix_append_cons_iff (by decide),
    infix_doubleQuotes_iff (by decide) (by decide)]
  simp only [hhead, hafter, false_or, or_false]
  rfl

/-- The letter is in no part of the statement but the name and the literal. -/
theorem weight_quoted {k : UInt8} {head x after : Bytes} (hquote : k ≠ quote)
    (hhead : weight k head = 0) (hafter : weight k after = 0) :
    weight k (head ++ quote :: (doubleQuotes x ++ quote :: after)) = weight k x := by
  have hcons : ∀ s, weight k (quote :: s) = weight k s := by
    intro s
    rw [weight, toUpper_cons]
    exact List.count_cons_of_ne hquote.symm
  rw [weight_append, hcons, weight_append, hcons, hhead, hafter, weight_doubleQuotes hquote]
  omega

/-- **An `AND` in the literal takes an `N` from it.** -/
theorem filter_ne_of_and {conv : Conversions} {fuel : Nat} {head x after : Bytes}
    {w : WhereClause} (hhead : IsHead head) (hafter : weight 78 after = 0)
    (hand : Mentions x (ascii "AND"))
    (h : whereConditions conv (head ++ quote :: (doubleQuotes x ++ quote :: after)) fuel 0 {}
      = .ok w) : w.tagFilter ≠ x ∧ w.tagPattern ≠ x := by
  have hsum := weight_quoted (x := x) (by decide) hhead.noAnd hafter
  obtain ⟨i, hi⟩ := exists_find hand
  have hloss := weight_lt_of_cut (k := 78) (by decide) (find_eq_some hi).1
  have hoccurs :=
    (infix_and_iff (not_infix_and hhead.noAnd) (not_infix_and hafter)).mpr hand
  have hle : weight 78 (head ++ quote :: (doubleQuotes x ++ quote :: after)) ≤ weight 78 x - 1 + 1 := by
    omega
  have hweighs := whereConditions_and h hoccurs (weighs_default _ _) hle
  constructor
  · intro heq
    have hfilter := hweighs.filter
    rw [heq] at hfilter
    omega
  · intro heq
    have hpattern := hweighs.pattern
    rw [heq] at hpattern
    omega

/-- A letter of the keyword that the rest of the statement lacks. -/
theorem clauseEnds_letter {kw : Bytes} (op : Operator) (hkw : kw ∈ clauseEnds) :
    ∃ k, k ∈ kw ∧ k ≠ quote ∧ weight k (condHead op) = 0 := by
  simp only [clauseEnds, List.mem_cons, List.not_mem_nil, or_false] at hkw
  rcases hkw with rfl | rfl | rfl | rfl
  · refine ⟨83, by decide, by decide, ?_⟩
    cases op with
    | eq => rfl
    | like => rfl
  · refine ⟨79, by decide, by decide, ?_⟩
    cases op with
    | eq => rfl
    | like => rfl
  · refine ⟨79, by decide, by decide, ?_⟩
    cases op with
    | eq => rfl
    | like => rfl
  · refine ⟨77, by decide, by decide, ?_⟩
    cases op with
    | eq => rfl
    | like => rfl

/-- **A literal that is cut off before a keyword has lost a letter of it.** -/
theorem filter_ne_of_cut {conv : Conversions} {fuel : Nat} {head x kw : Bytes} {k : UInt8}
    {w : WhereClause} {j n : Nat} (hmem : k ∈ kw) (hquote : k ≠ quote) (hhead : weight k head = 0)
    (hj : find kw (toUpper (doubleQuotes x)) = some j) (hn : n ≤ j)
    (h : whereConditions conv (trim (head ++ quote :: (doubleQuotes x).take n)) fuel 0 {}
      = .ok w) : w.tagFilter ≠ x := by
  have hloss := weight_lt_of_cut hmem (find_eq_some hj).1
  rw [weight_doubleQuotes hquote] at hloss
  have hcut : weight k ((doubleQuotes x).take n) ≤ weight k ((doubleQuotes x).take j) :=
    weight_le_of_sublist (List.take_prefix_take_left hn).sublist
  have hclause : weight k (head ++ quote :: (doubleQuotes x).take n)
      = weight k ((doubleQuotes x).take n) := by
    rw [weight_append, hhead, Nat.zero_add, weight, toUpper_cons]
    exact List.count_cons_of_ne hquote.symm
  have hweighs := whereConditions_weighs (k := k) (m := weight k ((doubleQuotes x).take n)) h
    (weighs_default _ _) (by
      rw [List.drop_zero, ← hclause]
      exact weight_le_of_sublist (trim_sublist _))
  intro heq
  have hfilter := hweighs.filter
  rw [heq] at hfilter
  omega

/-! ## The front of an `UPDATE` -/

/-- An `UPDATE` of this table, and what follows the name. -/
def updateOf (t after : Bytes) : Bytes := ascii "UPDATE " ++ (t ++ space :: after)

section Update

variable {t after : Bytes} {i : Nat}

theorem front_updateOf (t after : Bytes) : ascii "UPDATE" <+: toUpper (updateOf t after) := by
  rw [updateOf, toUpper_append]
  exact List.IsPrefix.trans (by decide) (List.prefix_append _ _)

theorem skip_updateOf (ht : IsTableName t) : skipWhitespace (updateOf t after)
    (afterKeyword (updateOf t after) (ascii "UPDATE")) = 7 := by
  have hcut : updateOf t after = ascii "UPDATE" ++ space :: (t ++ space :: after) := rfl
  rw [afterKeyword_eq (front_updateOf t after) rfl (by decide), hcut]
  exact ht.skipWhitespace_space rfl

theorem findSet_updateOf (hset : find (ascii "SET") (toUpper (t ++ space :: after)) = some i) :
    findFrom (toUpper (updateOf t after)) (ascii "SET") 7 = some (i + 7) := by
  rw [updateOf, toUpper_append, findFrom_append (by rw [length_toUpper]; rfl), hset]
  rfl

/-- What is taken for the name of the table. -/
theorem substrTo_updateOf (hle : i ≤ t.length + 1) : substrTo (updateOf t after) 7 (i + 7)
    = .ok ((t ++ space :: after).take i) := by
  apply substrTo_take rfl
  rw [List.length_append, List.length_cons]
  omega

end Update

end Sql
end MiniTSDB
