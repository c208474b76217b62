import MiniTSDB.Lib.Returns
import MiniTSDB.Sql.Parser

/-!
# The loops of the parser

A loop moves its position on in every turn, and every position it cuts at is one of the text: so
the number of characters that remain is a number of turns that is enough. There is one exception:
the loop over the actions of a `CREATE ALARM` stands still at a character that neither quotes,
separates nor closes (`ActionList`).
-/

namespace MiniTSDB
namespace Sql

open Lib

/-! ## Pieces -/

theorem substr_returns {s : Bytes} {pos : Nat} (h : pos ≤ s.length) :
    Returns (substr s pos) fun piece => piece.length ≤ s.length := by
  rw [substr_ok h]
  apply Returns.ok
  rw [List.length_drop]
  exact Nat.sub_le _ _

theorem substrTo_returns {s : Bytes} {pos : Nat} (stop : Nat) (h : pos ≤ s.length) :
    Returns (substrTo s pos stop) fun piece => piece.length ≤ s.length := by
  rw [substrTo_ok h]
  apply Returns.ok
  split
  · rw [List.length_take, List.length_drop]
    omega
  · rw [List.length_drop]
    exact Nat.sub_le _ _

theorem charAt_returns {s : Bytes} {pos : Nat} (h : pos ≤ s.length) :
    Returns (charAt s pos) fun c => c = s.getD pos 0 := by
  rw [charAt_ok h]
  exact Returns.ok rfl

/-- What is read at the end of the text quotes nothing. -/
theorem any_isQuote_of_getD {s : Bytes} {pos : Nat} (h : isQuote (s.getD pos 0) = true) :
    s[pos]?.any isQuote = true := by
  rw [List.getD_eq_getElem?_getD] at h
  cases hc : s[pos]? with
  | none =>
    rw [hc] at h
    cases h
  | some c =>
    rw [hc] at h
    exact h

theorem afterKeyword_le {sql kw : Bytes} (h : startsWith sql kw = true)
    (hupper : toUpper kw = kw) : afterKeyword sql kw ≤ sql.length := by
  have hfront := startsWith_iff.mp h
  have hfind : findKeyword sql kw 0 = some 0 := by
    rw [findKeyword, findFrom, List.drop_zero, hupper, find_at_front hfront]
    rfl
  have hlen := hfront.length_le
  rw [length_toUpper] at hlen
  rw [afterKeyword, hfind, Option.getD_some, Nat.zero_add]
  exact Nat.le_trans (Nat.mod_le _ _) hlen

/-! ## Loops -/

/-- The position behind the item of a list. -/
abbrev itemEnd (sql : Bytes) (pos : Nat) : Nat :=
  skipUntil (fun c => c = comma || c = closeParen) sql (skipWhitespace sql pos)

theorem itemEnd_le {sql : Bytes} {pos : Nat} (h : pos ≤ sql.length) :
    itemEnd sql pos ≤ sql.length := skipUntil_le (skipWhitespace_le h)

theorem lt_length_of_goesOn {sql : Bytes} {pos : Nat} {stop : UInt8}
    (h : goesOn sql pos stop = true) : pos < sql.length := by
  obtain ⟨c, hc, -⟩ := goesOn_iff.mp h
  exact (List.getElem?_eq_some_iff.mp hc).1

/-- **An item takes at least one character.** -/
theorem lt_itemEnd {sql : Bytes} {pos : Nat} (h : goesOn sql pos closeParen = true) :
    pos < itemEnd sql pos := by
  obtain ⟨c, hc, hne⟩ := goesOn_iff.mp h
  apply lt_skipUntil_skipWhitespace hc
  intro hstop
  rw [Bool.or_eq_true, decide_eq_true_iff, decide_eq_true_iff] at hstop
  exact .inr (hstop.resolve_right hne)

theorem insertColumns_returns {sql : Bytes} {fuel : Nat} {pos : Nat} {columns : List Bytes}
    (hfuel : sql.length - pos < fuel) (hpos : pos ≤ sql.length) :
    Returns (insertColumns sql fuel pos columns) fun r => r.2 ≤ sql.length := by
  induction fuel generalizing pos columns with
  | zero => exact absurd hfuel (Nat.not_lt_zero _)
  | succ fuel ih =>
    rw [insertColumns]
    refine Returns.ite (fun hgo => ?_) fun _ => Returns.ok hpos
    have hlt := lt_itemEnd hgo
    have hend := itemEnd_le hpos
    refine Returns.bind (substrTo_returns _ (skipWhitespace_le hpos)) fun column _ => ?_
    have hskip := le_skipWhitespace sql (itemEnd sql pos)
    have hless : sql.length - skipWhitespace sql (itemEnd sql pos) < fuel := by omega
    exact ih hless (skipWhitespace_le hend)

theorem insertValues_returns {sql : Bytes} {fuel : Nat} {pos : Nat} {values : List Bytes}
    (hfuel : sql.length - pos < fuel) (hpos : pos ≤ sql.length) :
    Returns (insertValues sql fuel pos values) fun r => pos ≤ r.2 ∧ r.2 ≤ sql.length := by
  induction fuel generalizing pos values with
  | zero => exact absurd hfuel (Nat.not_lt_zero _)
  | succ fuel ih =>
    rw [insertValues]
    refine Returns.ite (fun hgo => ?_) fun _ => Returns.ok ⟨Nat.le_refl _, hpos⟩
    have hstart := le_skipWhitespace sql pos
    have hstart' := skipWhitespace_le hpos
    refine Returns.bind (charAt_returns hstart') fun c hc => ?_
    -- from the position behind the value on, which is behind the one before
    have hgoes : ∀ next value, pos < next → next ≤ sql.length →
        Returns (insertValues sql fuel (skipWhitespace sql next) (values ++ [value]))
          fun r => pos ≤ r.2 ∧ r.2 ≤ sql.length := by
      intro next value hlt hle
      have hskip := le_skipWhitespace sql next
      refine (ih (by omega) (skipWhitespace_le hle)).mono ?_
      intro r hr
      exact ⟨by omega, hr.2⟩
    refine Returns.ite (fun hquote => ?_) fun _ => ?_
    · obtain ⟨-, hle, hlt⟩ := extractQuoted_spec sql (skipWhitespace sql pos)
      rw [hc] at hquote
      exact hgoes _ _ (Nat.lt_of_le_of_lt hstart (hlt (any_isQuote_of_getD hquote))) (hle hstart')
    · refine Returns.bind (substrTo_returns _ hstart') fun value _ => ?_
      exact hgoes _ _ (lt_itemEnd hgo) (itemEnd_le hpos)

theorem insertRows_returns {sql : Bytes} {fuel : Nat} {pos : Nat} {rows : List (List Bytes)}
    (hfuel : sql.length - pos < fuel) (hpos : pos ≤ sql.length) :
    Returns (insertRows sql fuel pos rows) fun _ => True := by
  induction fuel generalizing pos rows with
  | zero => exact absurd hfuel (Nat.not_lt_zero _)
  | succ fuel ih =>
    rw [insertRows]
    refine Returns.ite (fun hopen => ?_) fun _ => Returns.ok trivial
    have hlt := (List.getElem?_eq_some_iff.mp hopen).1
    refine Returns.bind (insertValues_returns (by omega) hlt) ?_
    intro r hr
    have hnext : pos < (if r.2 < sql.length then r.2 + 1 else r.2) ∧
        (if r.2 < sql.length then r.2 + 1 else r.2) ≤ sql.length := by
      split
      · omega
      · omega
    have hskip := le_skipWhitespace sql (if r.2 < sql.length then r.2 + 1 else r.2)
    exact ih (by omega) (skipWhitespace_le hnext.2)

theorem bucketAlias_returns (col : Bytes) : Returns (bucketAlias col) fun _ => True := by
  rw [bucketAlias]
  refine Returns.ite (fun _ => ?_) fun _ => Returns.ok trivial
  cases hAs : findKeyword col (ascii "AS") 0 with
  | none => exact Returns.ok trivial
  | some asPos =>
    have hle := (findKeyword_eq_some (by decide) hAs).2
    exact Returns.bind (substr_returns hle) fun rest _ => Returns.pure trivial

theorem selectExpr_returns (col : Bytes) : Returns (selectExpr col) fun _ => True := by
  rw [selectExpr]
  refine Returns.bind (P := fun _ => True) ?_ fun alias_ _ => ?_
  · exact Returns.ite (fun _ => bucketAlias_returns col) fun _ => Returns.ok trivial
  · cases aggNames.find? fun agg => (findKeyword col agg.1 0).isSome with
    | none => exact Returns.pure trivial
    | some agg => exact Returns.pure trivial

theorem selectColumns_returns {cols : Bytes} {fuel : Nat} {colStart : Nat}
    {columns : List SelectExpr} (hfuel : cols.length - colStart < fuel) :
    Returns (selectColumns cols fuel colStart columns) fun _ => True := by
  induction fuel generalizing colStart columns with
  | zero => exact absurd hfuel (Nat.not_lt_zero _)
  | succ fuel ih =>
    rw [selectColumns]
    refine Returns.ite (fun hlt => ?_) fun _ => Returns.ok trivial
    refine Returns.ite (fun _ => Returns.ok trivial) fun hstart => ?_
    have hskip := le_skipWhitespace cols colStart
    have hstart' : skipWhitespace cols colStart ≤ cols.length := skipWhitespace_le hlt.le
    cases hcomma : findChar cols comma (skipWhitespace cols colStart) with
    | none =>
      refine Returns.bind (substr_returns hstart') fun col _ => ?_
      exact Returns.bind (selectExpr_returns _) fun expr _ => ih (by omega)
    | some stop =>
      have hstop := findChar_eq_some hcomma
      refine Returns.bind (substrTo_returns _ hstart') fun col _ => ?_
      exact Returns.bind (selectExpr_returns _) fun expr _ => ih (by omega)

theorem fieldAndValue_returns {clause : Bytes} {pos len : Nat} (h : pos + len ≤ clause.length) :
    Returns (fieldAndValue clause pos len) fun _ => True := by
  rw [fieldAndValue]
  refine Returns.bind (substrTo_returns _ (Nat.zero_le _)) fun field _ => ?_
  exact Returns.bind (substr_returns h) fun val _ => Returns.pure trivial

theorem parseWhereCondition_returns (conv : Conversions) (w : WhereClause) (clause : Bytes) :
    Returns (parseWhereCondition conv w clause) fun _ => True := by
  rw [parseWhereCondition]
  cases heq : findChar clause equals 0 with
  | some eq =>
    exact Returns.bind (fieldAndValue_returns (findChar_eq_some heq).2) fun _ _ =>
      Returns.pure trivial
  | none =>
    cases hlike : findKeyword clause (ascii "LIKE") 0 with
    | none => exact Returns.pure trivial
    | some likeKw =>
      have hle := (findKeyword_eq_some (by decide) hlike).2
      exact Returns.bind (fieldAndValue_returns hle) fun _ _ => Returns.pure trivial

theorem whereConditions_returns {conv : Conversions} {clause : Bytes} {fuel : Nat} {andP : Nat}
    {w : WhereClause} (hfuel : clause.length - andP < fuel) :
    Returns (whereConditions conv clause fuel andP w) fun _ => True := by
  induction fuel generalizing andP w with
  | zero => exact absurd hfuel (Nat.not_lt_zero _)
  | succ fuel ih =>
    rw [whereConditions_succ]
    refine Returns.ite (fun hlt => ?_) fun _ => Returns.ok trivial
    cases hand : findKeyword clause (ascii "AND") andP with
    | none =>
      refine Returns.bind (substr_returns hlt.le) fun cond _ => ?_
      exact Returns.bind (parseWhereCondition_returns _ _ _) fun w _ => ih (by omega)
    | some nextAnd =>
      have hnext := findKeyword_eq_some (by decide) hand
      refine Returns.bind (substrTo_returns _ hlt.le) fun cond _ => ?_
      exact Returns.bind (parseWhereCondition_returns _ _ _) fun w _ => ih (by omega)

theorem parseProperties_returns {quotes : UInt8 → Bool} {beforeParen : Bool} {sql : Bytes}
    {fuel : Nat} {pos : Nat} {properties : List (Bytes × Bytes)}
    (hfuel : sql.length - pos < fuel) (hpos : pos ≤ sql.length) :
    Returns (parseProperties quotes beforeParen sql fuel pos properties)
      fun r => pos ≤ r.2 ∧ r.2 ≤ sql.length := by
  induction fuel generalizing pos properties with
  | zero => exact absurd hfuel (Nat.not_lt_zero _)
  | succ fuel ih =>
    rw [parseProperties]
    refine Returns.ite (fun hgo => ?_) fun _ => Returns.ok ⟨Nat.le_refl _, hpos⟩
    have hstart := le_skipWhitespace sql pos
    have hstart' := skipWhitespace_le hpos
    dsimp only
    cases heq : findChar sql equals (skipWhitespace sql pos) with
    | none => exact Returns.ok ⟨hstart, hstart'⟩
    | some eq =>
      refine Returns.ite (fun _ => Returns.ok ⟨hstart, hstart'⟩) fun _ => ?_
      refine Returns.bind (substrTo_returns _ hstart') fun key _ => ?_
      obtain ⟨hle, hlt⟩ := findChar_eq_some heq
      have hval := le_skipWhitespace sql (eq + 1)
      have hval' : skipWhitespace sql (eq + 1) ≤ sql.length := skipWhitespace_le hlt
      refine Returns.bind (charAt_returns hval') fun c _ => ?_
      -- from the position behind the value on, which is behind the `=`
      have hgoes : ∀ next property, skipWhitespace sql (eq + 1) ≤ next → next ≤ sql.length →
          Returns (parseProperties quotes beforeParen sql fuel (skipWhitespace sql next)
            (properties ++ [property])) fun r => pos ≤ r.2 ∧ r.2 ≤ sql.length := by
        intro next property hnext hnext'
        have hskip := le_skipWhitespace sql next
        refine (ih (by omega) (skipWhitespace_le hnext')).mono ?_
        intro r hr
        exact ⟨by omega, hr.2⟩
      refine Returns.ite (fun _ => ?_) fun _ => ?_
      · obtain ⟨hmove, hstay, -⟩ := extractQuoted_spec sql (skipWhitespace sql (eq + 1))
        exact hgoes _ _ hmove (hstay hval')
      · refine Returns.bind (substrTo_returns _ hval') fun val _ => ?_
        refine hgoes _ _ ?_ (findFirstOf_getD_le _ _ _)
        cases hend : findFirstOf sql [comma, closeParen] (skipWhitespace sql (eq + 1)) with
        | none => exact hval'
        | some valEnd => exact (findFirstOf_eq_some hend).1

/-- What stands between a `(` and its `)`, and the position behind them. -/
theorem propertyList_returns {quotes : UInt8 → Bool} {beforeParen : Bool} {fuel : Nat}
    {sql : Bytes} {pos : Nat} (hfuel : sql.length < fuel) :
    Returns (propertyList quotes beforeParen fuel sql pos) fun _ => True := by
  rw [propertyList]
  refine Returns.ite (fun hopen => ?_) fun _ => Returns.ok trivial
  have hlt := (List.getElem?_eq_some_iff.mp hopen).1
  exact Returns.bind (parseProperties_returns (by omega) hlt) fun _ _ => Returns.pure trivial

theorem tagProps_returns {sql : Bytes} {fuel pos : Nat} (hfuel : sql.length - pos ≤ fuel)
    (hpos : pos ≤ sql.length) :
    Returns (tagProps sql fuel pos) fun r => pos ≤ r.2 ∧ r.2 ≤ sql.length ∧
      (sql[pos]? = some openParen → pos < r.2) := by
  rw [tagProps]
  refine Returns.ite (fun hopen => ?_) fun hnot => ?_
  · have hlt := (List.getElem?_eq_some_iff.mp hopen).1
    refine Returns.bind (parseProperties_returns (by omega) hlt) ?_
    intro r hr
    apply Returns.pure
    dsimp only
    split
    · omega
    · omega
  · exact Returns.ok ⟨Nat.le_refl _, hpos, fun hopen => absurd hopen hnot⟩

/-- Where the name of a tag ends. -/
abbrev tagNameEnd (sql : Bytes) (pos : Nat) : Nat :=
  skipUntil (fun c => c = openParen || c = comma || c = closeParen) sql (skipWhitespace sql pos)

/-- A name takes a character, or its properties follow at once. -/
theorem lt_tagNameEnd {sql : Bytes} {pos : Nat} (h : goesOn sql pos closeParen = true) :
    pos < tagNameEnd sql pos ∨
      (sql[pos]? = some openParen ∧ skipWhitespace sql (tagNameEnd sql pos) = pos) := by
  obtain ⟨c, hc, hne⟩ := goesOn_iff.mp h
  by_cases hopen : c = openParen
  · subst hopen
    have hstart : skipWhitespace sql pos = pos := skipUntil_eq hc (by decide)
    have hend : tagNameEnd sql pos = pos := by
      rw [tagNameEnd, hstart]
      exact skipUntil_eq hc (by decide)
    rw [hend, hstart]
    exact .inr ⟨hc, rfl⟩
  · refine .inl (lt_skipUntil_skipWhitespace hc ?_)
    intro hstop
    simp only [hopen, hne, decide_false, Bool.false_or, Bool.or_false, decide_eq_true_iff] at hstop
    exact .inr hstop

theorem createTagsLoop_returns {sql : Bytes} {fuel : Nat} {pos : Nat} {tags : List TagDef}
    (hfuel : sql.length - pos < fuel) (hpos : pos ≤ sql.length) :
    Returns (createTagsLoop sql fuel pos tags) fun _ => True := by
  induction fuel generalizing pos tags with
  | zero => exact absurd hfuel (Nat.not_lt_zero _)
  | succ fuel ih =>
    rw [createTagsLoop]
    refine Returns.ite (fun hgo => ?_) fun _ => Returns.ok trivial
    have hlt := lt_length_of_goesOn hgo
    have hstart := le_skipWhitespace sql pos
    have hstart' := skipWhitespace_le hpos
    refine Returns.bind (substrTo_returns _ hstart') fun name _ => ?_
    have hend : skipWhitespace sql pos ≤ tagNameEnd sql pos := le_skipUntil _ _ _
    have hend' : tagNameEnd sql pos ≤ sql.length := skipUntil_le hstart'
    have hprops := le_skipWhitespace sql (tagNameEnd sql pos)
    have hless : sql.length - skipWhitespace sql (tagNameEnd sql pos) ≤ fuel := by omega
    refine Returns.bind (tagProps_returns hless (skipWhitespace_le hend')) ?_
    intro r ⟨hle, hle', hopen⟩
    change skipWhitespace sql (tagNameEnd sql pos) ≤ r.2 at hle
    have hmoved : pos < r.2 := by
      cases lt_tagNameEnd hgo with
      | inl hname => omega
      | inr hparen =>
        rw [hparen.2] at hopen
        exact hopen hparen.1
    have hskip := le_skipWhitespace sql r.2
    have hskip' := skipWhitespace_le hle'
    have hcomma : pos < (if sql[skipWhitespace sql r.2]? = some comma
          then skipWhitespace sql r.2 + 1 else skipWhitespace sql r.2) ∧
        (if sql[skipWhitespace sql r.2]? = some comma
          then skipWhitespace sql r.2 + 1 else skipWhitespace sql r.2) ≤ sql.length := by
      split
      case isTrue h =>
        have hin := (List.getElem?_eq_some_iff.mp h).1
        omega
      case isFalse => omega
    exact ih (by omega) hcomma.2

/-! ## The actions of an alarm -/

/-- A text that the loop over the actions gets to the end of: what is quoted and what separates,
up to a `)` or to the end. -/
inductive ActionList : Bytes → Prop
  | nil : ActionList []
  | close (rest : Bytes) : ActionList (closeParen :: rest)
  | skip {c : UInt8} {rest : Bytes} (hc : isBlank c = true ∨ c = comma) (h : ActionList rest) :
      ActionList (c :: rest)
  | quoted {q : UInt8} {rest : Bytes} (hq : isQuote q = true)
      (h : ActionList (rest.drop (quotedRest q rest).2)) : ActionList (q :: rest)

theorem not_isQuote_of_blank {c : UInt8} (h : isBlank c = true ∨ c = comma) :
    isQuote c = false ∧ c ≠ closeParen := by
  rw [isBlank] at h
  simp only [Bool.or_eq_true, decide_eq_true_iff, or_assoc] at h
  rcases h with rfl | rfl | rfl | rfl | rfl
  all_goals exact ⟨rfl, by decide⟩

theorem actionList_skip_iff {c : UInt8} {rest : Bytes} (hc : isBlank c = true ∨ c = comma) :
    ActionList (c :: rest) ↔ ActionList rest := by
  constructor
  · intro h
    cases h with
    | close => exact absurd rfl (not_isQuote_of_blank hc).2
    | skip _ h => exact h
    | quoted hq =>
      rw [(not_isQuote_of_blank hc).1] at hq
      cases hq
  · exact ActionList.skip hc

theorem actionList_quoted_iff {q : UInt8} {rest : Bytes} (hq : isQuote q = true) :
    ActionList (q :: rest) ↔ ActionList (rest.drop (quotedRest q rest).2) := by
  constructor
  · intro h
    cases h with
    | close => cases hq
    | skip hc =>
      rw [(not_isQuote_of_blank hc).1] at hq
      cases hq
    | quoted _ h => exact h
  · exact ActionList.quoted hq

theorem actionList_skipWhitespace_iff (sql : Bytes) (pos : Nat) :
    ActionList (sql.drop (skipWhitespace sql pos)) ↔ ActionList (sql.drop pos) := by
  have hwhile : ∀ s : Bytes, ActionList
      (s.drop (s.takeWhile fun c => !!(isBlank c || c = comma)).length) ↔ ActionList s := by
    intro s
    induction s with
    | nil => exact Iff.rfl
    | cons c s ih =>
      by_cases hc : (!!(isBlank c || c = comma)) = true
      · rw [List.takeWhile_cons, if_pos hc, List.length_cons, List.drop_succ_cons, ih]
        rw [Bool.not_not, Bool.or_eq_true, decide_eq_true_iff] at hc
        exact (actionList_skip_iff hc).symm
      · rw [List.takeWhile_cons, if_neg hc]
        exact Iff.rfl
  rw [skipWhitespace, skipUntil, ← List.drop_drop]
  exact hwhile (sql.drop pos)

theorem actionList_extractQuoted_iff (sql : Bytes) (pos : Nat) :
    ActionList (sql.drop (extractQuoted sql pos).2) ↔ ActionList (sql.drop pos) := by
  cases hc : sql[pos]? with
  | none =>
    rw [extractQuoted_stays]
    rw [hc]
    rfl
  | some q =>
    by_cases hq : isQuote q = true
    · rw [extractQuoted_eq hc hq, drop_eq_cons hc, actionList_quoted_iff hq, List.drop_drop]
    · rw [extractQuoted_stays]
      rw [hc]
      exact Bool.eq_false_iff.mpr hq

/-- The position after one turn of the loop. -/
abbrev nextAction (sql : Bytes) (pos : Nat) : Nat :=
  skipWhitespace sql (extractQuoted sql (skipWhitespace sql pos)).2

/-- A turn of the loop leaves open whether what remains is such a text. -/
theorem actionList_nextAction_iff (sql : Bytes) (pos : Nat) :
    ActionList (sql.drop (nextAction sql pos)) ↔ ActionList (sql.drop pos) := by
  rw [actionList_skipWhitespace_iff, actionList_extractQuoted_iff, actionList_skipWhitespace_iff]

/-- **In such a text a turn of the loop moves on.** -/
theorem lt_nextAction {sql : Bytes} {pos : Nat} (h : ActionList (sql.drop pos))
    (hgo : goesOn sql pos closeParen = true) : pos < nextAction sql pos := by
  obtain ⟨c, hc, hne⟩ := goesOn_iff.mp hgo
  have hstart := le_skipWhitespace sql pos
  obtain ⟨hle, -, hlt⟩ := extractQuoted_spec sql (skipWhitespace sql pos)
  have hend := le_skipWhitespace sql (extractQuoted sql (skipWhitespace sql pos)).2
  rw [drop_eq_cons hc] at h
  cases h with
  | close => exact absurd rfl hne
  | skip hblank =>
    have hmoved : pos < skipWhitespace sql pos := by
      apply lt_skipUntil hc
      rw [Bool.not_eq_false', Bool.or_eq_true, decide_eq_true_iff]
      exact hblank
    exact Nat.lt_of_lt_of_le hmoved (Nat.le_trans hle hend)
  | quoted hq =>
    have hstay : skipWhitespace sql pos = pos := by
      apply skipUntil_eq hc
      rw [Bool.not_eq_true', Bool.or_eq_false_iff, decide_eq_false_iff_not, Bool.eq_false_iff]
      constructor
      · intro hblank
        rw [(not_isQuote_of_blank (.inl hblank)).1] at hq
        cases hq
      · intro hcomma
        rw [(not_isQuote_of_blank (.inr hcomma)).1] at hq
        cases hq
    rw [hstay] at hlt hend
    rw [hc] at hlt
    rw [nextAction, hstay]
    exact Nat.lt_of_lt_of_le (hlt hq) hend

theorem alarmActions_returns {sql : Bytes} {fuel : Nat} {pos : Nat} {actions : List Bytes}
    (hfuel : sql.length - pos < fuel) (h : ActionList (sql.drop pos)) :
    Returns (alarmActions sql fuel pos actions) fun _ => True := by
  induction fuel generalizing pos actions with
  | zero => exact absurd hfuel (Nat.not_lt_zero _)
  | succ fuel ih =>
    rw [alarmActions]
    refine Returns.ite (fun hgo => ?_) fun _ => Returns.ok trivial
    have hlt := lt_nextAction h hgo
    have hpos := lt_length_of_goesOn hgo
    have hless : sql.length - nextAction sql pos < fuel := by omega
    exact ih hless ((actionList_nextAction_iff sql pos).mpr h)

theorem actionList_of_alarmActions {sql : Bytes} {fuel : Nat} {pos : Nat}
    {actions r : List Bytes} (h : alarmActions sql fuel pos actions = .ok r) :
    ActionList (sql.drop pos) := by
  induction fuel generalizing pos actions with
  | zero => cases h
  | succ fuel ih =>
    rw [alarmActions] at h
    by_cases hgo : goesOn sql pos closeParen = true
    · rw [if_pos hgo] at h
      exact (actionList_nextAction_iff sql pos).mp (ih h)
    · cases hc : sql[pos]? with
      | none =>
        rw [List.drop_eq_nil_of_le (List.getElem?_eq_none_iff.mp hc)]
        exact ActionList.nil
      | some c =>
        have hclose : c = closeParen := by
          by_contra hne
          exact hgo (goesOn_iff.mpr ⟨c, hc, hne⟩)
        subst hclose
        rw [drop_eq_cons hc]
        exact ActionList.close _

end Sql
end MiniTSDB
