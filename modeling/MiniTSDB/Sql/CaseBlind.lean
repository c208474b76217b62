import MiniTSDB.Sql.LetterCase
import MiniTSDB.Sql.ParserTotal

/-!
# What the parser makes of texts that differ in the case of their letters

The same statement, letter for letter, as long as it does not search for a word in one spelling:
that is so for every statement but the `ALTER`s of a user, an alarm and a tag, `DELETE` and
`UPDATE`.
-/

namespace MiniTSDB
namespace Sql

open Lib

/-! ## Statements in upper case -/

def SelectExpr.upper (expr : SelectExpr) : SelectExpr :=
  { expr with expr := toUpper expr.expr, alias_ := toUpper expr.alias_ }

/-- Without the times, which are read from the literals as they are. -/
def WhereClause.upper (w : WhereClause) : WhereClause :=
  { tagFilter := toUpper w.tagFilter, tagPattern := toUpper w.tagPattern }

def upperProps (props : List (Bytes × Bytes)) : List (Bytes × Bytes) :=
  props.map fun p => (toUpper p.1, toUpper p.2)

def TagDef.upper (tag : TagDef) : TagDef :=
  { name := toUpper tag.name, props := upperProps tag.props }

def AlterStmt.upper (stmt : AlterStmt) : AlterStmt :=
  { name := toUpper stmt.name, property := toUpper stmt.property, value := toUpper stmt.value }

/-- Every text of the statement in upper case; what is read from a literal by something other than
the parser, a time or a number, is left out. -/
def SQLStmt.upper : SQLStmt → SQLStmt
  | .insert stmt => .insert
      { tableName := toUpper stmt.tableName, columns := stmt.columns.map toUpper,
        rows := stmt.rows.map (List.map toUpper) }
  | .select stmt => .select
      { stmt with
        columns := stmt.columns.map SelectExpr.upper, tableName := toUpper stmt.tableName,
        where_ := stmt.where_.upper, orderBy := toUpper stmt.orderBy,
        groupBy := stmt.groupBy.map toUpper }
  | .createTag stmt => .createTag
      { tagName := toUpper stmt.tagName, properties := upperProps stmt.properties }
  | .createAlarm stmt => .createAlarm
      { alarmName := toUpper stmt.alarmName, tagName := toUpper stmt.tagName,
        condition := toUpper stmt.condition, actions := stmt.actions.map toUpper }
  | .createUser stmt => .createUser
      { username := toUpper stmt.username, password := toUpper stmt.password,
        role := toUpper stmt.role }
  | .alterSystem stmt => .alterSystem { key := toUpper stmt.key, value := toUpper stmt.value }
  | .dropTag stmt => .dropTag
      { tableName := toUpper stmt.tableName, tagName := toUpper stmt.tagName }
  | .dropAlarm alarmName => .dropAlarm (toUpper alarmName)
  | .dropUser username => .dropUser (toUpper username)
  | .dropTable tableName => .dropTable (toUpper tableName)
  | .dropDatabase dbName => .dropDatabase (toUpper dbName)
  | .createDatabase dbName => .createDatabase (toUpper dbName)
  | .use dbName => .use (toUpper dbName)
  | .createTable stmt => .createTable
      { tableName := toUpper stmt.tableName, properties := upperProps stmt.properties }
  | .createTags stmt => .createTags
      { tableName := toUpper stmt.tableName, tags := stmt.tags.map TagDef.upper }
  | .alterTag stmt => .alterTag
      { tableName := toUpper stmt.tableName, tagName := toUpper stmt.tagName,
        property := toUpper stmt.property, value := toUpper stmt.value }
  | .alterAlarm stmt => .alterAlarm stmt.upper
  | .alterUser stmt => .alterUser stmt.upper
  | .delete stmt => .delete
      { tableName := toUpper stmt.tableName, tagFilter := toUpper stmt.tagFilter }
  | .update stmt => .update
      { tableName := toUpper stmt.tableName, tagFilter := toUpper stmt.tagFilter }
  | .show_ stmt => .show_
      { stmt with
        filterDb := toUpper stmt.filterDb, filterTable := toUpper stmt.filterTable,
        pattern := toUpper stmt.pattern }

/-- Both have a statement, and it is the same letter for letter, or neither has one. -/
def SameStatement (r r' : ParseResult) : Prop :=
  r'.stmt.map SQLStmt.upper = r.stmt.map SQLStmt.upper

theorem sameStatement_fail (msg msg' : Bytes) : SameStatement (.fail msg) (.fail msg') := rfl

theorem sameStatement_success {stmt stmt' : SQLStmt} (h : stmt'.upper = stmt.upper) :
    SameStatement (.success stmt) (.success stmt') := congrArg some h

/-- Lists of texts. -/
def SameTexts (ts ts' : List Bytes) : Prop := ts'.map toUpper = ts.map toUpper

theorem SameTexts.snoc {ts ts' : List Bytes} {t t' : Bytes} (hts : SameTexts ts ts')
    (ht : SameLetters t t') : SameTexts (ts ++ [t]) (ts' ++ [t']) := by
  unfold SameTexts
  rw [List.map_append, List.map_append, hts, List.map_singleton, List.map_singleton, ht]

section Statements

variable {s s' : Bytes}

/-! ## INSERT -/

theorem caseless_stops {d d' : UInt8} (hd : isLetter d = false) (hd' : isLetter d' = false) :
    Caseless fun c => c = d || c = d' := (caseless_eq hd).or (caseless_eq hd')

theorem insertColumns_sameLetters (hs : SameLetters s s') (fuel pos : Nat) :
    ∀ columns columns', SameTexts columns columns' →
      Related (fun r r' => SameTexts r.1 r'.1 ∧ r'.2 = r.2) (insertColumns s fuel pos columns)
        (insertColumns s' fuel pos columns') := by
  have hstop : Caseless fun c => c = comma || c = closeParen := caseless_stops rfl rfl
  induction fuel generalizing pos with
  | zero => exact fun _ _ _ => .error _
  | succ fuel ih =>
    intro columns columns' hcolumns
    rw [insertColumns, insertColumns]
    simp (disch := decide) only [hs.goesOn, hs.skipWhitespace, hs.skipUntil hstop]
    refine Related.ite Iff.rfl (fun _ => ?_) fun _ => .ok ⟨hcolumns, rfl⟩
    exact Related.bind (hs.substrTo _ _) fun column column' hcolumn =>
      ih _ _ _ (hcolumns.snoc hcolumn.trim)

theorem insertValues_sameLetters (hs : SameLetters s s') (fuel pos : Nat) :
    ∀ values values', SameTexts values values' →
      Related (fun r r' => SameTexts r.1 r'.1 ∧ r'.2 = r.2) (insertValues s fuel pos values)
        (insertValues s' fuel pos values') := by
  have hstop : Caseless fun c => c = comma || c = closeParen := caseless_stops rfl rfl
  induction fuel generalizing pos with
  | zero => exact fun _ _ _ => .error _
  | succ fuel ih =>
    intro values values' hvalues
    rw [insertValues, insertValues]
    simp (disch := decide) only [hs.goesOn, hs.skipWhitespace, hs.skipUntil hstop]
    refine Related.ite Iff.rfl (fun _ => ?_) fun _ => .ok ⟨hvalues, rfl⟩
    refine Related.bind (hs.charAt _) fun c c' hc => ?_
    have hquote : isQuote c' = isQuote c := by
      rw [← caseless_isQuote c', hc, caseless_isQuote]
    refine Related.ite (by rw [hquote]) (fun _ => ?_) fun _ => ?_
    · simp only [hs.extractQuoted_snd]
      exact ih _ _ _ (hvalues.snoc (hs.extractQuoted_fst _))
    · exact Related.bind (hs.substrTo _ _) fun value value' hvalue =>
        ih _ _ _ (hvalues.snoc hvalue.trim)

theorem insertRows_sameLetters (hs : SameLetters s s') (fuel pos : Nat) :
    ∀ rows rows' : List (List Bytes), rows'.map (List.map toUpper) = rows.map (List.map toUpper) →
      Related (fun r r' : List (List Bytes) => r'.map (List.map toUpper) = r.map (List.map toUpper))
        (insertRows s fuel pos rows) (insertRows s' fuel pos rows') := by
  induction fuel generalizing pos with
  | zero => exact fun _ _ _ => .error _
  | succ fuel ih =>
    intro rows rows' hrows
    rw [insertRows, insertRows]
    refine Related.ite (hs.getElem?_eq_some rfl pos) (fun _ => ?_) fun _ => .ok hrows
    refine Related.bind (insertValues_sameLetters hs fuel _ [] [] rfl) fun row row' hrow => ?_
    obtain ⟨values, next⟩ := row
    obtain ⟨values', next'⟩ := row'
    obtain ⟨hvalues, hnext⟩ := hrow
    dsimp only at hvalues hnext ⊢
    rw [hnext, hs.length, hs.skipWhitespace]
    apply ih
    rw [List.map_append, List.map_append, hrows, List.map_singleton, List.map_singleton, hvalues]

theorem insertColumnList_sameLetters (hs : SameLetters s s') (fuel pos : Nat) :
    Related (fun r r' => SameTexts r.1 r'.1 ∧ r'.2 = r.2) (insertColumnList fuel s pos)
      (insertColumnList fuel s' pos) := by
  rw [insertColumnList, insertColumnList]
  refine Related.ite (hs.getElem?_eq_some rfl pos) (fun _ => ?_) fun _ => .ok ⟨rfl, rfl⟩
  refine Related.bind (insertColumns_sameLetters hs fuel _ [] [] rfl) fun r r' hr => ?_
  refine .ok ⟨hr.1, ?_⟩
  dsimp only
  rw [hr.2, hs.length]

theorem parseInsert_sameLetters (hs : SameLetters s s') (fuel : Nat) :
    Related SameStatement (parseInsert fuel s) (parseInsert fuel s') := by
  have hstop : Caseless fun c => c = openParen || c = space := caseless_stops rfl rfl
  rw [parseInsert, parseInsert]
  simp only [hs.findKeyword, hs.skipWhitespace, hs.skipUntil hstop]
  cases findKeyword s (ascii "INSERT INTO") 0 with
  | none => exact .ok (sameStatement_fail _ _)
  | some pos =>
    refine Related.bind (hs.substrTo _ _) fun table table' htable => ?_
    refine Related.bind (insertColumnList_sameLetters hs fuel _) fun cols cols' hcols => ?_
    obtain ⟨columns, next⟩ := cols
    obtain ⟨columns', next'⟩ := cols'
    obtain ⟨hcolumns, hnext⟩ := hcols
    dsimp only at hcolumns hnext ⊢
    rw [hnext]
    cases findKeyword s (ascii "VALUES") next with
    | none => exact .ok (sameStatement_fail _ _)
    | some valuesPos =>
      refine Related.bind (insertRows_sameLetters hs fuel _ [] [] rfl) fun rows rows' hrows => ?_
      have hempty : rows'.isEmpty = rows.isEmpty := by
        rw [← List.isEmpty_map (f := List.map toUpper) (l := rows'), hrows, List.isEmpty_map]
      refine Related.ite (by rw [hempty]) (fun _ => .ok (sameStatement_fail _ _)) fun _ => .ok ?_
      apply sameStatement_success
      simp only [SQLStmt.upper]
      rw [htable, hcolumns, hrows]

/-! ## SELECT -/

theorem bucketAlias_sameLetters (hs : SameLetters s s') :
    Related SameLetters (bucketAlias s) (bucketAlias s') := by
  rw [bucketAlias, bucketAlias]
  simp (disch := decide) only [hs.findChar, hs.findKeyword]
  refine Related.ite Iff.rfl (fun _ => ?_) fun _ => .ok rfl
  cases findKeyword s (ascii "AS") 0 with
  | none => exact .ok rfl
  | some asPos => exact Related.bind (hs.substr _) fun rest rest' hrest => .ok hrest.trim

theorem selectExpr_sameLetters (hs : SameLetters s s') :
    Related (fun e e' => e'.upper = e.upper) (selectExpr s) (selectExpr s') := by
  rw [selectExpr, selectExpr]
  simp only [hs.findKeyword]
  have halias : Related SameLetters
      (if (findKeyword s (ascii "TIME_BUCKET") 0).isSome then bucketAlias s else .ok [])
      (if (findKeyword s (ascii "TIME_BUCKET") 0).isSome then bucketAlias s' else .ok []) :=
    Related.ite Iff.rfl (fun _ => bucketAlias_sameLetters hs) fun _ => .ok rfl
  refine Related.bind halias fun name name' hname => ?_
  cases aggNames.find? fun agg => (findKeyword s agg.1 0).isSome with
  | some agg =>
    refine .ok ?_
    simp only [SelectExpr.upper]
    rw [hs, hname]
  | none =>
    refine .ok ?_
    simp only [SelectExpr.upper]
    rw [hname]
    congr 1
    split
    · rfl
    · exact hs

theorem selectColumns_sameLetters (hs : SameLetters s s') (fuel pos : Nat) :
    ∀ columns columns' : List SelectExpr,
      columns'.map SelectExpr.upper = columns.map SelectExpr.upper →
        Related (fun r r' : List SelectExpr => r'.map SelectExpr.upper = r.map SelectExpr.upper)
          (selectColumns s fuel pos columns) (selectColumns s' fuel pos columns') := by
  induction fuel generalizing pos with
  | zero => exact fun _ _ _ => .error _
  | succ fuel ih =>
    intro columns columns' hcolumns
    have hsnoc : ∀ e e' : SelectExpr, e'.upper = e.upper →
        (columns' ++ [e']).map SelectExpr.upper = (columns ++ [e]).map SelectExpr.upper := by
      intro e e' he
      rw [List.map_append, List.map_append, hcolumns, List.map_singleton, List.map_singleton, he]
    rw [selectColumns, selectColumns]
    simp (disch := decide) only [hs.length, hs.skipWhitespace, hs.findChar]
    refine Related.ite Iff.rfl (fun _ => ?_) fun _ => .ok hcolumns
    refine Related.ite Iff.rfl (fun _ => .ok hcolumns) fun _ => ?_
    cases findChar s comma (skipWhitespace s pos) with
    | none =>
      refine Related.bind (hs.substr _) fun col col' hcol => ?_
      exact Related.bind (selectExpr_sameLetters hcol.trim) fun e e' he => ih _ _ _ (hsnoc e e' he)
    | some stop =>
      refine Related.bind (hs.substrTo _ _) fun col col' hcol => ?_
      exact Related.bind (selectExpr_sameLetters hcol.trim) fun e e' he => ih _ _ _ (hsnoc e e' he)

theorem fieldAndValue_sameLetters (hs : SameLetters s s') (pos len : Nat) :
    Related (fun r r' => r'.1 = r.1 ∧ SameLetters r.2 r'.2) (fieldAndValue s pos len)
      (fieldAndValue s' pos len) := by
  rw [fieldAndValue, fieldAndValue]
  refine Related.bind (hs.substrTo _ _) fun field field' hfield => ?_
  exact Related.bind (hs.substr _) fun val val' hval => .ok ⟨hfield.trim, hval.trim.unquote⟩

theorem withBetween_upper (conv : Conversions) (w : WhereClause) (clause : Bytes) :
    (withBetween conv w clause).upper = w.upper := by
  rw [withBetween]
  split
  · rfl
  · rfl

theorem parseWhereCondition_sameLetters (conv : Conversions) (hs : SameLetters s s')
    {w w' : WhereClause} (hw : w'.upper = w.upper) :
    Related (fun r r' => r'.upper = r.upper) (parseWhereCondition conv w s)
      (parseWhereCondition conv w' s') := by
  have hbetween : (withBetween conv w' s').upper = (withBetween conv w s).upper := by
    rw [withBetween_upper, withBetween_upper, hw]
  rw [parseWhereCondition, parseWhereCondition]
  simp (disch := decide) only [hs.findChar, hs.findKeyword]
  generalize withBetween conv w s = v at hbetween ⊢
  generalize withBetween conv w' s' = v' at hbetween ⊢
  cases findChar s equals 0 with
  | some eq =>
    refine Related.bind (fieldAndValue_sameLetters hs eq 1) fun r r' hr => .ok ?_
    rw [hr.1]
    split
    · simp only [WhereClause.upper, WhereClause.mk.injEq] at hbetween ⊢
      exact ⟨hr.2, hbetween.2⟩
    · exact hbetween
  | none =>
    cases findKeyword s (ascii "LIKE") 0 with
    | some likeKw =>
      refine Related.bind (fieldAndValue_sameLetters hs likeKw 4) fun r r' hr => .ok ?_
      rw [hr.1]
      split
      · simp only [WhereClause.upper, WhereClause.mk.injEq] at hbetween ⊢
        exact ⟨hbetween.1, hr.2, hbetween.2.2⟩
      · exact hbetween
    | none => exact .ok hbetween

theorem whereConditions_sameLetters (conv : Conversions) (hs : SameLetters s s') (fuel pos : Nat) :
    ∀ w w' : WhereClause, w'.upper = w.upper →
      Related (fun r r' => r'.upper = r.upper) (whereConditions conv s fuel pos w)
        (whereConditions conv s' fuel pos w') := by
  induction fuel generalizing pos with
  | zero => exact fun _ _ _ => .error _
  | succ fuel ih =>
    intro w w' hw
    rw [whereConditions_succ, whereConditions_succ]
    simp only [hs.length, hs.findKeyword]
    refine Related.ite Iff.rfl (fun _ => ?_) fun _ => .ok hw
    cases findKeyword s (ascii "AND") pos with
    | none =>
      refine Related.bind (hs.substr _) fun clause clause' hclause => ?_
      exact Related.bind (parseWhereCondition_sameLetters conv hclause.trim hw)
        fun v v' hv => ih _ _ _ hv
    | some nextAnd =>
      refine Related.bind (hs.substrTo _ _) fun clause clause' hclause => ?_
      exact Related.bind (parseWhereCondition_sameLetters conv hclause.trim hw)
        fun v v' hv => ih _ _ _ hv

theorem whereClause_sameLetters (conv : Conversions) (hs : SameLetters s s') (fuel : Nat)
    (wherePos : Option Nat) (whereEnd : Nat) :
    Related (fun r r' => r'.upper = r.upper) (whereClause conv fuel s wherePos whereEnd)
      (whereClause conv fuel s' wherePos whereEnd) := by
  cases wherePos with
  | none => exact .ok rfl
  | some wherePos =>
    rw [whereClause, whereClause]
    simp only [hs.skipWhitespace]
    exact Related.bind (hs.substrTo _ _) fun clause clause' hclause =>
      whereConditions_sameLetters conv hclause.trim fuel 0 {} {} rfl

theorem groupBucket_sameLetters (hs : SameLetters s s') (groupPos : Nat) :
    SameLetters (groupBucket s groupPos) (groupBucket s' groupPos) := by
  rw [groupBucket, groupBucket]
  simp (disch := decide) only [hs.findChar, hs.skipWhitespace]
  split
  · exact hs.extractQuoted_fst _
  · rfl

theorem earliest_sameLetters (hs : SameLetters s s') (found : List (Option Nat)) :
    earliest s' found = earliest s found := by
  rw [earliest, earliest, hs.length]

theorem parseSelect_sameLetters (conv : Conversions) (hs : SameLetters s s') (fuel : Nat) :
    Related SameStatement (parseSelect conv fuel s) (parseSelect conv fuel s') := by
  rw [parseSelect, parseSelect]
  simp only [hs.afterKeyword, hs.skipWhitespace, hs.findKeyword, earliest_sameLetters hs]
  cases findKeyword s (ascii "FROM") (skipWhitespace s (afterKeyword s (ascii "SELECT"))) with
  | none => exact .ok (sameStatement_fail _ _)
  | some fromPos =>
    refine Related.bind (hs.substrTo _ _) fun cols cols' hcols => ?_
    refine Related.bind (selectColumns_sameLetters hcols fuel 0 [] [] rfl)
      fun columns columns' hcolumns => ?_
    generalize skipWhitespace s (fromPos + 4) = pos
    cases findKeyword s (ascii "WHERE") pos <|> findKeyword s (ascii "LATEST") pos with
    | none =>
      refine Related.bind (hs.substr _) fun table table' htable => .ok ?_
      apply sameStatement_success
      simp only [SQLStmt.upper]
      rw [hcolumns, htable.trim]
    | some nameEnd =>
      refine Related.bind (hs.substrTo _ _) fun table table' htable => ?_
      refine Related.bind (whereClause_sameLetters conv hs fuel _ _) fun w w' hw => .ok ?_
      apply sameStatement_success
      have hbucket : (findKeyword s (ascii "GROUP BY") pos).map (toUpper ∘ groupBucket s')
          = (findKeyword s (ascii "GROUP BY") pos).map (toUpper ∘ groupBucket s) := by
        cases findKeyword s (ascii "GROUP BY") pos with
        | none => rfl
        | some groupPos => exact congrArg some (groupBucket_sameLetters hs groupPos)
      simp only [SQLStmt.upper, Option.map_map]
      rw [hcolumns, htable.trim, hw, hbucket]

/-! ## CREATE -/

theorem upperProps_snoc {props props' : List (Bytes × Bytes)} {key key' val val' : Bytes}
    (hprops : upperProps props' = upperProps props) (hkey : SameLetters key key')
    (hval : SameLetters val val') :
    upperProps (props' ++ [(key', val')]) = upperProps (props ++ [(key, val)]) := by
  unfold upperProps at hprops ⊢
  rw [List.map_append, List.map_append, hprops, List.map_singleton, List.map_singleton, hkey, hval]

theorem parseProperties_sameLetters {quotes : UInt8 → Bool} (hquotes : Caseless quotes)
    (beforeParen : Bool) (hs : SameLetters s s') (fuel pos : Nat) :
    ∀ props props', upperProps props' = upperProps props →
      Related (fun r r' => upperProps r'.1 = upperProps r.1 ∧ r'.2 = r.2)
        (parseProperties quotes beforeParen s fuel pos props)
        (parseProperties quotes beforeParen s' fuel pos props') := by
  have hends : Caseless fun c => [comma, closeParen].contains c := by
    intro c
    simp only [List.contains_cons, List.contains_nil, Bool.or_false]
    have hstops : Caseless fun c => c = comma || c = closeParen := caseless_stops rfl rfl
    exact hstops c
  induction fuel generalizing pos with
  | zero => exact fun _ _ _ => .error _
  | succ fuel ih =>
    intro props props' hprops
    rw [parseProperties, parseProperties]
    simp (disch := decide) only [hs.goesOn, hs.skipWhitespace, hs.findChar, hs.length,
      hs.findFirstOf hends, hs.extractQuoted_snd]
    refine Related.ite Iff.rfl (fun _ => ?_) fun _ => .ok ⟨hprops, rfl⟩
    cases findChar s equals (skipWhitespace s pos) with
    | none => exact .ok ⟨hprops, rfl⟩
    | some eq =>
      refine Related.ite Iff.rfl (fun _ => .ok ⟨hprops, rfl⟩) fun _ => ?_
      refine Related.bind (hs.substrTo _ _) fun key key' hkey => ?_
      refine Related.bind (hs.charAt _) fun c c' hc => ?_
      have hquote : quotes c' = quotes c := by rw [← hquotes c', hc, hquotes]
      refine Related.ite (by rw [hquote]) (fun _ => ?_) fun _ => ?_
      · exact ih _ _ _ (upperProps_snoc hprops hkey.trim (hs.extractQuoted_fst _))
      · exact Related.bind (hs.substrTo _ _) fun val val' hval =>
          ih _ _ _ (upperProps_snoc hprops hkey.trim hval.trim)

theorem propertyList_sameLetters {quotes : UInt8 → Bool} (hquotes : Caseless quotes)
    (beforeParen : Bool) (hs : SameLetters s s') (fuel pos : Nat) :
    Related (fun r r' => upperProps r' = upperProps r) (propertyList quotes beforeParen fuel s pos)
      (propertyList quotes beforeParen fuel s' pos) := by
  rw [propertyList, propertyList]
  refine Related.ite (hs.getElem?_eq_some rfl pos) (fun _ => ?_) fun _ => .ok rfl
  exact Related.bind (parseProperties_sameLetters hquotes beforeParen hs fuel _ [] [] rfl)
    fun r r' hr => .ok hr.1

theorem parseCreateTag_sameLetters (hs : SameLetters s s') (fuel : Nat) :
    Related SameStatement (parseCreateTag fuel s) (parseCreateTag fuel s') := by
  have hstop : Caseless fun c => c = space || c = openParen := caseless_stops rfl rfl
  rw [parseCreateTag, parseCreateTag]
  simp only [hs.afterKeyword, hs.skipWhitespace, hs.skipUntil hstop]
  refine Related.bind (hs.substrTo _ _) fun tag tag' htag => ?_
  refine Related.bind (propertyList_sameLetters caseless_isQuote false hs fuel _)
    fun props props' hprops => .ok ?_
  apply sameStatement_success
  simp only [SQLStmt.upper]
  rw [htag, hprops]

theorem parseCreateTable_sameLetters (hs : SameLetters s s') (fuel : Nat) :
    Related SameStatement (parseCreateTable fuel s) (parseCreateTable fuel s') := by
  have hstop : Caseless fun c => c = space || c = openParen := caseless_stops rfl rfl
  rw [parseCreateTable, parseCreateTable]
  simp only [hs.afterKeyword, hs.skipWhitespace, hs.skipUntil hstop]
  refine Related.bind (hs.substrTo _ _) fun table table' htable => ?_
  refine Related.bind (propertyList_sameLetters (caseless_eq rfl) true hs fuel _)
    fun props props' hprops => .ok ?_
  apply sameStatement_success
  simp only [SQLStmt.upper]
  rw [htable.trim, hprops]

theorem alarmActions_sameLetters (hs : SameLetters s s') (fuel pos : Nat) :
    ∀ actions actions', SameTexts actions actions' →
      Related SameTexts (alarmActions s fuel pos actions) (alarmActions s' fuel pos actions') := by
  induction fuel generalizing pos with
  | zero => exact fun _ _ _ => .error _
  | succ fuel ih =>
    intro actions actions' hactions
    rw [alarmActions, alarmActions]
    simp (disch := decide) only [hs.goesOn, hs.skipWhitespace, hs.extractQuoted_snd]
    refine Related.ite Iff.rfl (fun _ => ?_) fun _ => .ok hactions
    apply ih
    have haction := hs.extractQuoted_fst (skipWhitespace s pos)
    rw [haction.isEmpty]
    split
    · exact hactions
    · exact hactions.snoc haction

theorem alarmActionList_sameLetters (hs : SameLetters s s') (fuel thenPos : Nat) :
    Related SameTexts (alarmActionList fuel s thenPos) (alarmActionList fuel s' thenPos) := by
  rw [alarmActionList, alarmActionList]
  simp (disch := decide) only [hs.findKeyword, hs.findChar]
  cases findKeyword s (ascii "ACTION") thenPos with
  | none => exact .ok rfl
  | some pos =>
    dsimp only
    cases findChar s openParen pos with
    | none => exact .ok rfl
    | some pos => exact alarmActions_sameLetters hs fuel _ [] [] rfl

theorem parseCreateAlarm_sameLetters (hs : SameLetters s s') (fuel : Nat) :
    Related SameStatement (parseCreateAlarm fuel s) (parseCreateAlarm fuel s') := by
  have hstop : Caseless fun c => c = space := caseless_eq rfl
  rw [parseCreateAlarm, parseCreateAlarm]
  simp only [hs.afterKeyword, hs.skipWhitespace, hs.skipUntil hstop, hs.findKeyword]
  refine Related.bind (hs.substrTo _ _) fun alarm alarm' halarm => ?_
  generalize skipWhitespace s (skipUntil _ s _) = pos
  cases findKeyword s (ascii "ON") pos with
  | none => exact .ok (sameStatement_fail _ _)
  | some onPos =>
    refine Related.bind (hs.substrTo _ _) fun tag tag' htag => ?_
    cases findKeyword s (ascii "WHEN") (skipWhitespace s (onPos + 2)) with
    | none => exact .ok (sameStatement_fail _ _)
    | some whenPos =>
      dsimp only
      cases findKeyword s (ascii "THEN") (skipWhitespace s (whenPos + 4)) with
      | none => exact .ok (sameStatement_fail _ _)
      | some thenPos =>
        refine Related.bind (hs.substrTo _ _) fun condition condition' hcondition => ?_
        refine Related.bind (alarmActionList_sameLetters hs fuel _)
          fun actions actions' hactions => .ok ?_
        apply sameStatement_success
        simp only [SQLStmt.upper]
        rw [halarm, htag, hcondition.trim, hactions]

theorem userRole_sameLetters (hs : SameLetters s s') (pos : Nat) :
    Related SameLetters (userRole s pos) (userRole s' pos) := by
  have hstop : Caseless fun c => c = space := caseless_eq rfl
  rw [userRole, userRole]
  simp only [hs.findKeyword, hs.skipWhitespace, hs.skipUntil hstop]
  cases findKeyword s (ascii "ROLE") pos with
  | none => exact .ok rfl
  | some rolePos =>
    refine Related.ite (by rw [hs.any caseless_isQuote]) (fun _ => .ok (hs.extractQuoted_fst _))
      fun _ => hs.substrTo _ _

theorem userPassword_sameLetters (hs : SameLetters s s') (pos : Nat) :
    SameLetters (userPassword s pos).1 (userPassword s' pos).1 ∧
      (userPassword s' pos).2 = (userPassword s pos).2 := by
  rw [userPassword, userPassword, hs.findKeyword]
  cases findKeyword s (ascii "PASSWORD") pos with
  | none => exact ⟨rfl, rfl⟩
  | some pwPos =>
    dsimp only
    rw [hs.skipWhitespace, hs.any caseless_isQuote]
    split
    · exact ⟨hs.extractQuoted_fst _, hs.extractQuoted_snd _⟩
    · exact ⟨rfl, rfl⟩

/-- What is empty in the one is empty in the other, and the same is put in its place. -/
theorem SameLetters.orDefault (hs : SameLetters s s') (default : Bytes) :
    SameLetters (if s.isEmpty then default else s) (if s'.isEmpty then default else s') := by
  rw [hs.isEmpty]
  split
  · exact .refl default
  · exact hs

theorem parseCreateUser_sameLetters (hs : SameLetters s s') :
    Related SameStatement (parseCreateUser s) (parseCreateUser s') := by
  have hstop : Caseless fun c => c = space := caseless_eq rfl
  rw [parseCreateUser, parseCreateUser]
  simp only [hs.afterKeyword, hs.skipWhitespace, hs.skipUntil hstop]
  refine Related.bind (hs.substrTo _ _) fun user user' huser => ?_
  generalize skipWhitespace s (skipUntil _ s _) = pos
  obtain ⟨hpassword, hnext⟩ := userPassword_sameLetters hs pos
  rw [hnext]
  refine Related.bind (userRole_sameLetters hs _) fun role role' hrole => .ok ?_
  apply sameStatement_success
  have hpassword' := hpassword.orDefault (ascii "default123")
  have hrole' := hrole.orDefault (ascii "viewer")
  unfold SameLetters at hpassword' hrole'
  simp only [SQLStmt.upper]
  rw [huser, hpassword', hrole']

theorem tagProps_sameLetters (hs : SameLetters s s') (fuel pos : Nat) :
    Related (fun r r' => upperProps r'.1 = upperProps r.1 ∧ r'.2 = r.2) (tagProps s fuel pos)
      (tagProps s' fuel pos) := by
  rw [tagProps, tagProps]
  refine Related.ite (hs.getElem?_eq_some rfl pos) (fun _ => ?_) fun _ => .ok ⟨rfl, rfl⟩
  refine Related.bind (parseProperties_sameLetters (caseless_eq rfl) false hs fuel _ [] [] rfl)
    fun r r' hr => .ok ⟨hr.1, ?_⟩
  dsimp only
  rw [hr.2, hs.length]

theorem createTagsLoop_sameLetters (hs : SameLetters s s') (fuel pos : Nat) :
    ∀ tags tags' : List TagDef, tags'.map TagDef.upper = tags.map TagDef.upper →
      Related (fun r r' : List TagDef => r'.map TagDef.upper = r.map TagDef.upper)
        (createTagsLoop s fuel pos tags) (createTagsLoop s' fuel pos tags') := by
  have hstop : Caseless fun c => c = openParen || c = comma || c = closeParen :=
    (caseless_stops rfl rfl).or (caseless_eq rfl)
  induction fuel generalizing pos with
  | zero => exact fun _ _ _ => .error _
  | succ fuel ih =>
    intro tags tags' htags
    rw [createTagsLoop, createTagsLoop]
    simp (disch := decide) only [hs.goesOn, hs.skipWhitespace, hs.skipUntil hstop]
    refine Related.ite Iff.rfl (fun _ => ?_) fun _ => .ok htags
    refine Related.bind (hs.substrTo _ _) fun name name' hname => ?_
    refine Related.bind (tagProps_sameLetters hs fuel _) fun r r' hr => ?_
    obtain ⟨props, next⟩ := r
    obtain ⟨props', next'⟩ := r'
    obtain ⟨hprops, hnext⟩ := hr
    dsimp only at hprops hnext ⊢
    simp (disch := decide) only [hnext, hs.getElem?_eq_some]
    apply ih
    rw [List.map_append, List.map_append, htags, List.map_singleton, List.map_singleton]
    simp only [TagDef.upper]
    rw [hname.trim, hprops]

theorem parseCreateTags_sameLetters (hs : SameLetters s s') (fuel : Nat) :
    Related SameStatement (parseCreateTags fuel s) (parseCreateTags fuel s') := by
  rw [parseCreateTags, parseCreateTags]
  simp (disch := decide) only [hs.afterKeyword, hs.skipWhitespace, hs.findFrom, hs.findChar]
  cases findFrom (toUpper s) (ascii "IN TABLE")
      (skipWhitespace s (afterKeyword s (ascii "CREATE TAGS"))) with
  | none => exact .ok (sameStatement_fail _ _)
  | some inPos =>
    dsimp only
    cases findChar s openParen (skipWhitespace s (inPos + 8)) with
    | none => exact .ok (sameStatement_fail _ _)
    | some nameEnd =>
      refine Related.bind (hs.substrTo _ _) fun table table' htable => ?_
      refine Related.bind (createTagsLoop_sameLetters hs fuel _ [] [] rfl)
        fun tags tags' htags => .ok ?_
      apply sameStatement_success
      simp only [SQLStmt.upper]
      rw [htable.trim, htags]

/-! ## Statements with a name -/

theorem nameBehind_sameLetters (hs : SameLetters s s') (kw : Bytes) :
    Related SameLetters (nameBehind s kw) (nameBehind s' kw) := by
  rw [nameBehind, nameBehind, hs.afterKeyword, hs.skipWhitespace]
  exact Related.bind (hs.substr _) fun name name' hname => .ok hname.trim

/-- A statement that is all name. -/
theorem named_sameLetters (hs : SameLetters s s') (kw : Bytes) {stmt : Bytes → SQLStmt}
    (hstmt : ∀ name, (stmt name).upper = stmt (toUpper name)) :
    Related SameStatement (do return .success (stmt (← nameBehind s kw)))
      (do return .success (stmt (← nameBehind s' kw))) := by
  refine Related.bind (nameBehind_sameLetters hs kw) fun name name' hname => .ok ?_
  apply sameStatement_success
  rw [hstmt, hstmt, hname]

theorem parseDropTag_sameLetters (hs : SameLetters s s') :
    Related SameStatement (parseDropTag s) (parseDropTag s') := by
  rw [parseDropTag, parseDropTag]
  refine Related.bind (nameBehind_sameLetters hs _) fun rest rest' hrest => ?_
  simp (disch := decide) only [hrest.findChar]
  cases findChar rest dot 0 with
  | some pos =>
    refine Related.bind (hrest.substrTo _ _) fun table table' htable => ?_
    refine Related.bind (hrest.substr _) fun tag tag' htag => .ok ?_
    apply sameStatement_success
    simp only [SQLStmt.upper]
    rw [htable.trim, htag.trim]
  | none =>
    refine .ok (sameStatement_success ?_)
    simp only [SQLStmt.upper]
    rw [hrest]

theorem parseAlterSystem_sameLetters (hs : SameLetters s s') :
    Related SameStatement (parseAlterSystem s) (parseAlterSystem s') := by
  rw [parseAlterSystem, parseAlterSystem]
  simp (disch := decide) only [hs.findKeyword, hs.skipWhitespace, hs.findChar]
  cases findKeyword s (ascii "SET") 0 with
  | none => exact .ok (sameStatement_fail _ _)
  | some pos =>
    dsimp only
    cases findChar s equals (skipWhitespace s (pos + 3)) with
    | none => exact .ok (sameStatement_fail _ _)
    | some eq =>
      refine Related.bind (hs.substrTo _ _) fun key key' hkey => ?_
      refine Related.bind (hs.substr _) fun value value' hvalue => .ok ?_
      apply sameStatement_success
      simp only [SQLStmt.upper]
      rw [hkey.trim, hvalue.trim.unquote]

/-! ## SHOW -/

theorem innerPart_sameLetters (hs : SameLetters s s') :
    Related SameLetters (innerPart s) (innerPart s') := by
  rw [innerPart, innerPart, hs.length]
  refine Related.bind (hs.substr 1) fun rest rest' hrest => .ok ?_
  split
  · exact hrest
  · exact hrest.take _

theorem cleanQuotes_sameLetters (hs : SameLetters s s') :
    Related SameLetters (cleanQuotes s) (cleanQuotes s') := by
  rw [cleanQuotes, cleanQuotes, hs.length, List.head?_eq_getElem?, List.head?_eq_getElem?]
  refine Related.ite ?_ (fun _ => innerPart_sameLetters hs) fun _ => .ok hs
  rw [hs.getElem?_eq_some rfl]

theorem parseShow_sameLetters (hs : SameLetters s s') :
    Related SameStatement (parseShow s) (parseShow s') := by
  have hsame : ∀ stmt : SQLStmt, Related SameStatement
      (.ok (.success stmt) : Parsing ParseResult) (.ok (.success stmt)) := fun stmt => .ok rfl
  rw [parseShow, parseShow]
  simp only [hs.startsWith, hs.afterFrom, hs.findFrom]
  refine Related.ite Iff.rfl (fun _ => hsame _) fun _ => ?_
  refine Related.ite Iff.rfl (fun _ => ?_) fun _ => ?_
  · refine Related.bind (hs.substr _) fun db db' hdb => .ok (sameStatement_success ?_)
    simp only [SQLStmt.upper]
    rw [hdb.trim]
  refine Related.ite Iff.rfl (fun _ => hsame _) fun _ => ?_
  refine Related.ite Iff.rfl (fun _ => ?_) fun _ => ?_
  · cases findFrom (toUpper s) (ascii "LIKE") (afterFrom s) with
    | some likePos =>
      refine Related.bind (hs.substrTo _ _) fun table table' htable => ?_
      refine Related.bind (hs.substr _) fun rest rest' hrest => ?_
      refine Related.bind (cleanQuotes_sameLetters hrest.trim) fun pattern pattern' hpattern => ?_
      refine .ok (sameStatement_success ?_)
      simp only [SQLStmt.upper]
      rw [htable.trim, hpattern]
    | none =>
      refine Related.bind (hs.substr _) fun table table' htable => .ok (sameStatement_success ?_)
      simp only [SQLStmt.upper]
      rw [htable.trim]
  refine Related.ite Iff.rfl (fun _ => hsame _) fun _ => ?_
  refine Related.ite Iff.rfl (fun _ => hsame _) fun _ => ?_
  exact Related.ite Iff.rfl (fun _ => hsame _) fun _ => .ok (sameStatement_fail _ _)

/-! ## DELETE and UPDATE -/

/-- What returns in both returns. -/
theorem related_of_returns {ε α β : Type} {p : Except ε α} {q : Except ε β}
    (hp : Returns p fun _ => True) (hq : Returns q fun _ => True) :
    Related (fun _ _ => True) p q := by
  obtain ⟨a, rfl, -⟩ := hp
  obtain ⟨b, rfl, -⟩ := hq
  exact .ok trivial

/-- A word that is nowhere in any case is nowhere in the case it is looked for. -/
theorem findFrom_eq_none {pat : Bytes} {pos : Nat} (h : findKeyword s pat pos = none) :
    findFrom s pat pos = none := by
  rw [findKeyword, findFrom, Option.map_eq_none_iff, find_eq_none_iff, drop_toUpper] at h
  rw [findFrom, Option.map_eq_none_iff, find_eq_none_iff]
  exact fun hin => h (hin.map upperChar)

/-- The literal at this place, or nothing. -/
def tagLiteral (sql : Bytes) (pos : Nat) : Parsing Bytes := do
  let tagEq := skipWhitespace sql pos
  let c ← charAt sql tagEq
  return (if c = quote then (extractQuoted sql tagEq).1 else [])

theorem tagFilterFrom_eq {pos i : Nat} (h : findFrom s (ascii "tag=") pos = some i) :
    tagFilterFrom s pos = tagLiteral s (i + 4) := by
  rw [tagFilterFrom, h]
  rfl

theorem tagLiteral_sameLetters (hs : SameLetters s s') (pos : Nat) :
    Related SameLetters (tagLiteral s pos) (tagLiteral s' pos) := by
  unfold tagLiteral
  rw [hs.skipWhitespace]
  refine Related.bind (hs.charAt _) fun c c' hc => .ok ?_
  have hquote : c' = quote ↔ c = quote := by
    rw [← upperChar_eq_iff (by decide), hc, upperChar_eq_iff (by decide)]
  by_cases h : c = quote
  · rw [if_pos h, if_pos (hquote.mpr h)]
    exact hs.extractQuoted_fst _
  · rw [if_neg h, if_neg (mt hquote.mp h)]
    exact .refl _

/-- The word is at this place in some case. -/
def WordAt (sql word : Bytes) (i : Nat) : Prop := toUpper word <+: (toUpper sql).drop i

theorem WordAt.of_findFrom {word : Bytes} {pos i : Nat} (h : findFrom s word pos = some i) :
    WordAt s word i := by
  obtain ⟨j, hj, rfl⟩ := Option.map_eq_some_iff.mp h
  have hat := (find_eq_some hj).1.map upperChar
  rw [List.drop_drop, Nat.add_comm] at hat
  rw [WordAt, drop_toUpper]
  exact hat

theorem WordAt.sameLetters {word : Bytes} {i : Nat} (h : WordAt s word i)
    (hs : SameLetters s s') : WordAt s' word i := by
  unfold WordAt
  rw [hs]
  exact h

/-- Behind this place no `tag=`, in whatever case, has a literal with anything in it. -/
def NoTagLiteral (sql : Bytes) (pos : Nat) : Prop :=
  ∀ i, pos ≤ i → WordAt sql (ascii "tag=") i → tagLiteral sql (i + 4) = .ok []

theorem tagLiteral_eq_nil (hs : SameLetters s s') {pos : Nat} (h : tagLiteral s pos = .ok []) :
    tagLiteral s' pos = .ok [] := by
  obtain ⟨x, hx, hnil⟩ := (tagLiteral_sameLetters hs pos).exists_ok h
  rw [hx]
  exact congrArg Except.ok (List.eq_nil_of_length_eq_zero hnil.length)

theorem NoTagLiteral.sameLetters {pos : Nat} (h : NoTagLiteral s pos) (hs : SameLetters s s') :
    NoTagLiteral s' pos := fun i hi hword =>
  tagLiteral_eq_nil hs (h i hi (hword.sameLetters hs.symm))

theorem tagFilterFrom_eq_nil {pos : Nat} (h : NoTagLiteral s pos) :
    tagFilterFrom s pos = .ok [] := by
  cases hfind : findFrom s (ascii "tag=") pos with
  | none => rw [tagFilterFrom, hfind]
  | some i =>
    rw [tagFilterFrom_eq hfind]
    exact h i (findFrom_eq_some (by decide) hfind).1 (.of_findFrom hfind)

theorem tagFilterFrom_sameLetters (hs : SameLetters s s') {pos : Nat} (h : NoTagLiteral s pos) :
    Related SameLetters (tagFilterFrom s pos) (tagFilterFrom s' pos) := by
  rw [tagFilterFrom_eq_nil h, tagFilterFrom_eq_nil (h.sameLetters hs)]
  exact .ok rfl

/-- Behind the `WHERE` of a `DELETE`. -/
def deleteWhere (sql : Bytes) : Option Nat := do
  let fromPos ← findFrom (toUpper sql) (ascii "FROM")
    (skipWhitespace sql (afterKeyword sql (ascii "DELETE")))
  let wherePos ← findFrom (toUpper sql) (ascii "WHERE") (skipWhitespace sql (fromPos + 4))
  return wherePos + 5

/-- Behind the `WHERE` of an `UPDATE`. -/
def updateWhere (sql : Bytes) : Option Nat := do
  let setPos ← findFrom (toUpper sql) (ascii "SET")
    (skipWhitespace sql (afterKeyword sql (ascii "UPDATE")))
  let wherePos ← findFrom (toUpper sql) (ascii "WHERE") (skipWhitespace sql (setPos + 3))
  return wherePos + 5

theorem parseDelete_sameLetters (conv : Conversions) (hs : SameLetters s s')
    (htag : ∀ pos, deleteWhere s = some pos → NoTagLiteral s pos) :
    Related SameStatement (parseDelete conv s) (parseDelete conv s') := by
  rw [deleteWhere] at htag
  rw [parseDelete, parseDelete]
  simp only [hs.afterKeyword, hs.skipWhitespace, hs.findFrom]
  cases hfrom : findFrom (toUpper s) (ascii "FROM")
      (skipWhitespace s (afterKeyword s (ascii "DELETE"))) with
  | none => exact .ok (sameStatement_fail _ _)
  | some fromPos =>
    dsimp only
    cases hwhere : findFrom (toUpper s) (ascii "WHERE") (skipWhitespace s (fromPos + 4)) with
    | none => exact .ok (sameStatement_fail _ _)
    | some wherePos =>
      have hnone : NoTagLiteral s (wherePos + 5) := by
        apply htag
        simp only [hfrom, hwhere, Option.bind_eq_bind, Option.bind_some]
        rfl
      refine Related.bind (hs.substrTo _ _) fun table table' htable => ?_
      refine Related.bind (tagFilterFrom_sameLetters hs hnone) fun tag tag' htag => ?_
      refine Related.bind (r := fun _ _ => True) (related_of_returns (deleteRange_returns conv s _)
        (deleteRange_returns conv s' _)) fun range range' _ => .ok ?_
      apply sameStatement_success
      simp only [SQLStmt.upper]
      rw [htable.trim, htag]

theorem parseUpdate_sameLetters (conv : Conversions) (hs : SameLetters s s')
    (htag : ∀ pos, updateWhere s = some pos → NoTagLiteral s pos) :
    Related SameStatement (parseUpdate conv s) (parseUpdate conv s') := by
  rw [updateWhere] at htag
  rw [parseUpdate, parseUpdate]
  simp only [hs.afterKeyword, hs.skipWhitespace, hs.findFrom]
  cases hset : findFrom (toUpper s) (ascii "SET")
      (skipWhitespace s (afterKeyword s (ascii "UPDATE"))) with
  | none => exact .ok (sameStatement_fail _ _)
  | some setPos =>
    refine Related.bind (hs.substrTo _ _) fun table table' htable => ?_
    cases hwhere : findFrom (toUpper s) (ascii "WHERE") (skipWhitespace s (setPos + 3)) with
    | none => exact .ok (sameStatement_fail _ _)
    | some wherePos =>
      have hnone : NoTagLiteral s (wherePos + 5) := by
        apply htag
        simp only [hset, hwhere, Option.bind_eq_bind, Option.bind_some]
        rfl
      refine Related.bind (r := fun _ _ => True) (related_of_returns
        (updateValue_returns conv s _ _) (updateValue_returns conv s' _ _)) fun val val' _ => ?_
      refine Related.bind (tagFilterFrom_sameLetters hs hnone) fun tag tag' htag => ?_
      refine Related.bind (r := fun _ _ => True) (related_of_returns (updateTime_returns conv s _)
        (updateTime_returns conv s' _)) fun time time' _ => .ok ?_
      apply sameStatement_success
      simp only [SQLStmt.upper]
      rw [htable.trim, htag]

end Statements

/-! ## The statement -/

/-- Nothing is read behind a word that is looked for in one spelling: the statement is no `ALTER`
of a user, an alarm or a tag, and behind the `WHERE` of a `DELETE` or an `UPDATE` there is no
literal of a `tag=`, nor behind that of an `UPDATE` a `timestamp=` or a `timestamp =`, in whatever
case. -/
structure NoFixedWord (sql : Bytes) : Prop where
  alterTag : startsWith sql (ascii "ALTER TAG") = false
  alterAlarm : startsWith sql (ascii "ALTER ALARM") = false
  alterUser : startsWith sql (ascii "ALTER USER") = false
  delete : startsWith sql (ascii "DELETE") = true → ∀ pos, deleteWhere sql = some pos →
    NoTagLiteral sql pos
  update : startsWith sql (ascii "UPDATE") = true → ∀ pos, updateWhere sql = some pos →
    NoTagLiteral sql pos ∧ findKeyword sql (ascii "timestamp=") pos = none ∧
      findKeyword sql (ascii "timestamp =") pos = none

/-- **Where nothing is looked for in one spelling, the parser does not look at the case.** -/
theorem dispatch_sameLetters (conv : Conversions) {s s' : Bytes} (hs : SameLetters s s')
    (hfree : NoFixedWord s) (fuel : Nat) :
    Related SameStatement (dispatch conv fuel s) (dispatch conv fuel s') := by
  have hfail : ∀ msg msg' : Bytes, Related SameStatement
      (.ok (.fail msg) : Parsing ParseResult) (.ok (.fail msg')) := fun msg msg' =>
    .ok (sameStatement_fail msg msg')
  have huse : toUpper s' = ascii "USE" ↔ toUpper s = ascii "USE" := by rw [hs]
  unfold dispatch
  simp only [hs.startsWith, huse]
  refine Related.ite Iff.rfl (fun _ => parseSelect_sameLetters conv hs fuel) fun _ => ?_
  refine Related.ite Iff.rfl (fun _ => named_sameLetters hs _ fun _ => rfl) fun _ => ?_
  refine Related.ite Iff.rfl (fun _ => parseCreateTable_sameLetters hs fuel) fun _ => ?_
  refine Related.ite Iff.rfl (fun _ => parseCreateTags_sameLetters hs fuel) fun _ => ?_
  refine Related.ite Iff.rfl (fun _ => parseCreateTag_sameLetters hs fuel) fun _ => ?_
  refine Related.ite Iff.rfl (fun _ => parseCreateAlarm_sameLetters hs fuel) fun _ => ?_
  refine Related.ite Iff.rfl (fun _ => parseCreateUser_sameLetters hs) fun _ => ?_
  refine Related.ite Iff.rfl (fun _ => named_sameLetters hs _ fun _ => rfl) fun _ => ?_
  refine Related.ite Iff.rfl (fun _ => parseDropTag_sameLetters hs) fun _ => ?_
  refine Related.ite Iff.rfl (fun _ => named_sameLetters hs _ fun _ => rfl) fun _ => ?_
  refine Related.ite Iff.rfl (fun _ => named_sameLetters hs _ fun _ => rfl) fun _ => ?_
  refine Related.ite Iff.rfl (fun _ => named_sameLetters hs _ fun _ => rfl) fun _ => ?_
  rw [hfree.alterTag, hfree.alterAlarm, hfree.alterUser]
  refine Related.ite Iff.rfl (fun h => absurd h (by decide)) fun _ => ?_
  refine Related.ite Iff.rfl (fun h => absurd h (by decide)) fun _ => ?_
  refine Related.ite Iff.rfl (fun h => absurd h (by decide)) fun _ => ?_
  refine Related.ite Iff.rfl (fun _ => parseAlterSystem_sameLetters hs) fun _ => ?_
  refine Related.ite Iff.rfl (fun _ => hfail _ _) fun _ => ?_
  refine Related.ite Iff.rfl (fun _ => parseInsert_sameLetters hs fuel) fun _ => ?_
  refine Related.ite Iff.rfl (fun h => parseDelete_sameLetters conv hs (hfree.delete h))
    fun _ => ?_
  refine Related.ite Iff.rfl (fun h => parseUpdate_sameLetters conv hs fun pos hpos =>
    (hfree.update h pos hpos).1) fun _ => ?_
  refine Related.ite Iff.rfl (fun _ => named_sameLetters hs _ fun _ => rfl) fun _ => ?_
  exact Related.ite Iff.rfl (fun _ => parseShow_sameLetters hs) fun _ => hfail _ _

end Sql
end MiniTSDB
