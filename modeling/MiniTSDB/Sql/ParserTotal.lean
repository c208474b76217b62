import MiniTSDB.Sql.Operations
import MiniTSDB.Sql.ParserLoops

/-!
# Where the parser returns

The parser answers every text, with a statement or with a message, unless it is a `CREATE ALARM`
with a list of actions that its loop does not get over (`parse_ends_iff`).
-/

namespace MiniTSDB
namespace Sql

open Lib

/-- A statement, or a message that says why there is none. -/
def Answers (r : ParseResult) : Prop :=
  (r.ok = true ∧ r.stmt.isSome = true) ∨ (r.ok = false ∧ r.errorMsg ≠ [])

/-- A statement of this operation, or a message. -/
def AnswersAs (op : Bytes) (r : ParseResult) : Prop :=
  (r.ok = true ∧ ∃ stmt, r.stmt = some stmt ∧ getOperationName stmt = op) ∨
    (r.ok = false ∧ r.stmt = none ∧ r.errorMsg ≠ [])

theorem answers_success (stmt : SQLStmt) : AnswersAs (getOperationName stmt) (.success stmt) :=
  .inl ⟨rfl, stmt, rfl, rfl⟩

theorem answers_fail {op msg : Bytes} (h : msg ≠ []) : AnswersAs op (.fail msg) :=
  .inr ⟨rfl, rfl, h⟩

theorem AnswersAs.answers {op : Bytes} {r : ParseResult} (h : AnswersAs op r) : Answers r := by
  cases h with
  | inl h =>
    obtain ⟨hok, stmt, hstmt, -⟩ := h
    exact .inl ⟨hok, by rw [hstmt]; rfl⟩
  | inr h => exact .inr ⟨h.1, h.2.2⟩

/-! ## `CREATE ALARM` -/

theorem alarmActionList_returns {fuel : Nat} {sql : Bytes} {thenPos : Nat}
    (hfuel : sql.length < fuel)
    (h : ∀ actionPos openPos, findKeyword sql (ascii "ACTION") thenPos = some actionPos →
      findChar sql openParen actionPos = some openPos → ActionList (sql.drop (openPos + 1))) :
    Returns (alarmActionList fuel sql thenPos) fun _ => True := by
  rw [alarmActionList]
  cases haction : findKeyword sql (ascii "ACTION") thenPos with
  | none => exact Returns.ok trivial
  | some actionPos =>
    dsimp only
    cases hopen : findChar sql openParen actionPos with
    | none => exact Returns.ok trivial
    | some openPos => exact alarmActions_returns (by omega) (h _ _ haction hopen)

/-- Behind the `(` of the actions, if the statement gets that far. -/
def actionsStart (sql : Bytes) : Option Nat := do
  let nameStart := skipWhitespace sql (afterKeyword sql (ascii "CREATE ALARM"))
  let pos := skipWhitespace sql (skipUntil (· = space) sql nameStart)
  let onPos ← findKeyword sql (ascii "ON") pos
  let whenPos ← findKeyword sql (ascii "WHEN") (skipWhitespace sql (onPos + 2))
  let thenPos ← findKeyword sql (ascii "THEN") (skipWhitespace sql (whenPos + 4))
  let actionPos ← findKeyword sql (ascii "ACTION") thenPos
  let openPos ← findChar sql openParen actionPos
  return openPos + 1

/-- The list of actions in the statement, if there is one, is such a text. -/
def ActionsEnd (sql : Bytes) : Prop :=
  ∀ pos, actionsStart sql = some pos → ActionList (sql.drop pos)

theorem parseCreateAlarm_returns {fuel : Nat} {sql : Bytes}
    (hstarts : startsWith sql (ascii "CREATE ALARM") = true) (hfuel : sql.length < fuel)
    (hends : ActionsEnd sql) :
    Returns (parseCreateAlarm fuel sql) (AnswersAs (ascii "CREATE ALARM")) := by
  have hname : skipWhitespace sql (afterKeyword sql (ascii "CREATE ALARM")) ≤ sql.length :=
    skipWhitespace_le (afterKeyword_le hstarts (by decide))
  rw [parseCreateAlarm]
  refine Returns.bind (substrTo_returns _ hname) fun alarmName _ => ?_
  rw [ActionsEnd, actionsStart] at hends
  dsimp only
  cases hon : findKeyword sql (ascii "ON") (skipWhitespace sql (skipUntil (· = space) sql
      (skipWhitespace sql (afterKeyword sql (ascii "CREATE ALARM"))))) with
  | none => exact Returns.pure (answers_fail (by decide))
  | some onPos =>
    have hon' := skipWhitespace_le (findKeyword_eq_some (by decide) hon).2
    refine Returns.bind (substrTo_returns _ hon') fun tagName _ => ?_
    cases hwhen : findKeyword sql (ascii "WHEN") (skipWhitespace sql (onPos + 2)) with
    | none => exact Returns.pure (answers_fail (by decide))
    | some whenPos =>
      have hwhen' := skipWhitespace_le (findKeyword_eq_some (by decide) hwhen).2
      dsimp only
      cases hthen : findKeyword sql (ascii "THEN") (skipWhitespace sql (whenPos + 4)) with
      | none => exact Returns.pure (answers_fail (by decide))
      | some thenPos =>
        refine Returns.bind (substrTo_returns _ hwhen') fun condition _ => ?_
        have hactions : Returns (alarmActionList fuel sql thenPos) fun _ => True := by
          apply alarmActionList_returns hfuel
          intro actionPos openPos haction hopen
          apply hends
          simp only [hon, hwhen, hthen, haction, hopen, Option.bind_eq_bind, Option.bind_some]
          rfl
        exact Returns.bind hactions fun actions _ => Returns.pure (answers_success _)

/-- **What the parser answers to a `CREATE ALARM` it got to the end of.** -/
theorem actionsEnd_of_parseCreateAlarm {fuel : Nat} {sql : Bytes} {r : ParseResult}
    (h : parseCreateAlarm fuel sql = .ok r) : ActionsEnd sql := by
  intro pos hstart
  rw [actionsStart] at hstart
  simp only [Option.bind_eq_bind, Option.bind_eq_some_iff] at hstart
  obtain ⟨onPos, hon, whenPos, hwhen, thenPos, hthen, actionPos, haction, openPos, hopen, hpos⟩ :=
    hstart
  cases hpos
  rw [parseCreateAlarm] at h
  obtain ⟨alarmName, -, h⟩ := bind_eq_ok h
  dsimp only at h
  rw [hon] at h
  obtain ⟨tagName, -, h⟩ := bind_eq_ok h
  rw [hwhen] at h
  dsimp only at h
  rw [hthen] at h
  obtain ⟨condition, -, h⟩ := bind_eq_ok h
  obtain ⟨actions, hactions, -⟩ := bind_eq_ok h
  rw [alarmActionList, haction] at hactions
  dsimp only at hactions
  rw [hopen] at hactions
  exact actionList_of_alarmActions hactions

/-! ## The other statements -/

theorem insertColumnList_returns {fuel : Nat} {sql : Bytes} {pos : Nat}
    (hfuel : sql.length < fuel) : Returns (insertColumnList fuel sql pos) fun _ => True := by
  rw [insertColumnList]
  refine Returns.ite (fun hopen => ?_) fun _ => Returns.ok trivial
  have hlt := (List.getElem?_eq_some_iff.mp hopen).1
  exact Returns.bind (insertColumns_returns (by omega) hlt) fun _ _ => Returns.pure trivial

theorem parseInsert_returns {fuel : Nat} {sql : Bytes} (hfuel : sql.length < fuel) :
    Returns (parseInsert fuel sql) (AnswersAs (ascii "INSERT")) := by
  rw [parseInsert]
  cases hinto : findKeyword sql (ascii "INSERT INTO") 0 with
  | none => exact Returns.pure (answers_fail (by decide))
  | some pos =>
    have htable := skipWhitespace_le (findKeyword_eq_some (by decide) hinto).2
    refine Returns.bind (substrTo_returns _ htable) fun tableName _ => ?_
    refine Returns.bind (insertColumnList_returns hfuel) fun r _ => ?_
    dsimp only
    cases hvalues : findKeyword sql (ascii "VALUES") r.2 with
    | none => exact Returns.pure (answers_fail (by decide))
    | some pos =>
      have hrows := skipWhitespace_le (findKeyword_eq_some (by decide) hvalues).2
      have hless : sql.length - skipWhitespace sql (pos + 6) < fuel := by omega
      refine Returns.bind (insertRows_returns hless hrows) fun rows _ => ?_
      refine Returns.ite (fun _ => ?_) fun _ => ?_
      · exact Returns.pure (answers_fail (by decide))
      · exact Returns.pure (answers_success _)

theorem whereClause_returns {conv : Conversions} {fuel : Nat} {sql : Bytes}
    {wherePos : Option Nat} {whereEnd : Nat} (hfuel : sql.length < fuel)
    (hpos : ∀ pos, wherePos = some pos → pos + 5 ≤ sql.length) :
    Returns (whereClause conv fuel sql wherePos whereEnd) fun _ => True := by
  cases wherePos with
  | none => exact Returns.ok trivial
  | some pos =>
    rw [whereClause]
    have hskip := skipWhitespace_le (hpos pos rfl)
    refine Returns.bind (substrTo_returns _ hskip) fun clause hclause => ?_
    have htrim := length_trim_le clause
    exact whereConditions_returns (by omega)

theorem parseSelect_returns {conv : Conversions} {fuel : Nat} {sql : Bytes}
    (hstarts : startsWith sql (ascii "SELECT") = true) (hfuel : sql.length < fuel) :
    Returns (parseSelect conv fuel sql) (AnswersAs (ascii "SELECT")) := by
  have hselect : skipWhitespace sql (afterKeyword sql (ascii "SELECT")) ≤ sql.length :=
    skipWhitespace_le (afterKeyword_le hstarts (by decide))
  rw [parseSelect]
  dsimp only
  cases hfrom : findKeyword sql (ascii "FROM")
      (skipWhitespace sql (afterKeyword sql (ascii "SELECT"))) with
  | none => exact Returns.pure (answers_fail (by decide))
  | some fromPos =>
    have hfrom' := skipWhitespace_le (findKeyword_eq_some (by decide) hfrom).2
    refine Returns.bind (substrTo_returns _ hselect) fun cols hcols => ?_
    refine Returns.bind (selectColumns_returns (by omega)) fun columns _ => ?_
    split
    case h_1 nameEnd hname =>
      refine Returns.bind (substrTo_returns _ hfrom') fun tableName _ => ?_
      refine Returns.bind (whereClause_returns hfuel ?_) fun where_ _ =>
        Returns.pure (answers_success _)
      intro pos hwhere
      exact (findKeyword_eq_some (by decide) hwhere).2
    case h_2 =>
      exact Returns.bind (substr_returns hfrom') fun tableName _ => Returns.pure (answers_success _)

theorem parseCreateTag_returns {fuel : Nat} {sql : Bytes}
    (hstarts : startsWith sql (ascii "CREATE TAG") = true) (hfuel : sql.length < fuel) :
    Returns (parseCreateTag fuel sql) (AnswersAs (ascii "CREATE TAG")) := by
  have hname : skipWhitespace sql (afterKeyword sql (ascii "CREATE TAG")) ≤ sql.length :=
    skipWhitespace_le (afterKeyword_le hstarts (by decide))
  rw [parseCreateTag]
  refine Returns.bind (substrTo_returns _ hname) fun tagName _ => ?_
  exact Returns.bind (propertyList_returns hfuel) fun _ _ => Returns.pure (answers_success _)

theorem parseCreateTable_returns {fuel : Nat} {sql : Bytes}
    (hstarts : startsWith sql (ascii "CREATE TABLE") = true) (hfuel : sql.length < fuel) :
    Returns (parseCreateTable fuel sql) (AnswersAs (ascii "CREATE TABLE")) := by
  have hname : skipWhitespace sql (afterKeyword sql (ascii "CREATE TABLE")) ≤ sql.length :=
    skipWhitespace_le (afterKeyword_le hstarts (by decide))
  rw [parseCreateTable]
  refine Returns.bind (substrTo_returns _ hname) fun tableName _ => ?_
  exact Returns.bind (propertyList_returns hfuel) fun _ _ => Returns.pure (answers_success _)

theorem parseCreateTags_returns {fuel : Nat} {sql : Bytes} (hfuel : sql.length < fuel) :
    Returns (parseCreateTags fuel sql) (AnswersAs (ascii "CREATE TAGS")) := by
  rw [parseCreateTags]
  dsimp only
  split
  case h_2 => exact Returns.pure (answers_fail (by decide))
  case h_1 inPos hin =>
    have hin' := (findFrom_eq_some (by decide) hin).2
    rw [length_toUpper] at hin'
    split
    case h_2 => exact Returns.pure (answers_fail (by decide))
    case h_1 nameEnd hname =>
      have hend := (findChar_eq_some hname).2
      refine Returns.bind (substrTo_returns _ (skipWhitespace_le hin')) fun tableName _ => ?_
      have hless : sql.length - (nameEnd + 1) < fuel := by omega
      exact Returns.bind (createTagsLoop_returns hless hend) fun _ _ =>
        Returns.pure (answers_success _)

theorem userRole_returns (sql : Bytes) (pos : Nat) :
    Returns (userRole sql pos) fun _ => True := by
  rw [userRole]
  cases hrole : findKeyword sql (ascii "ROLE") pos with
  | none => exact Returns.ok trivial
  | some rolePos =>
    refine Returns.ite (fun _ => Returns.ok trivial) fun _ => ?_
    have hle := skipWhitespace_le (findKeyword_eq_some (by decide) hrole).2
    exact (substrTo_returns _ hle).mono fun _ _ => trivial

theorem parseCreateUser_returns {sql : Bytes}
    (hstarts : startsWith sql (ascii "CREATE USER") = true) :
    Returns (parseCreateUser sql) (AnswersAs (ascii "CREATE USER")) := by
  have hname : skipWhitespace sql (afterKeyword sql (ascii "CREATE USER")) ≤ sql.length :=
    skipWhitespace_le (afterKeyword_le hstarts (by decide))
  rw [parseCreateUser]
  refine Returns.bind (substrTo_returns _ hname) fun username _ => ?_
  generalize userPassword sql _ = found
  obtain ⟨password, pos⟩ := found
  exact Returns.bind (userRole_returns _ _) fun role _ => Returns.pure (answers_success _)

theorem nameBehind_returns {sql kw : Bytes} (hstarts : startsWith sql kw = true)
    (hupper : toUpper kw = kw) : Returns (nameBehind sql kw) fun _ => True := by
  rw [nameBehind]
  exact Returns.bind (substr_returns (skipWhitespace_le (afterKeyword_le hstarts hupper)))
    fun _ _ => Returns.pure trivial

theorem parseDropTag_returns {sql : Bytes} (hstarts : startsWith sql (ascii "DROP TAG") = true) :
    Returns (parseDropTag sql) (AnswersAs (ascii "DROP TAG")) := by
  rw [parseDropTag]
  refine Returns.bind (nameBehind_returns hstarts (by decide)) fun rest _ => ?_
  cases hdot : findChar rest dot 0 with
  | none => exact Returns.pure (answers_success _)
  | some pos =>
    refine Returns.bind (substrTo_returns _ (Nat.zero_le _)) fun tableName _ => ?_
    exact Returns.bind (substr_returns (findChar_eq_some hdot).2) fun tagName _ =>
      Returns.pure (answers_success _)

/-- A statement with nothing but a name. -/
theorem named_returns {sql kw op : Bytes} (stmt : Bytes → SQLStmt)
    (hstarts : startsWith sql kw = true) (hupper : toUpper kw = kw)
    (hop : ∀ name, getOperationName (stmt name) = op) :
    Returns (do return .success (stmt (← nameBehind sql kw))) (AnswersAs op) := by
  refine Returns.bind (nameBehind_returns hstarts hupper) fun name _ => Returns.pure ?_
  rw [← hop name]
  exact answers_success _

theorem parseAlterUser_returns {sql : Bytes}
    (hstarts : startsWith sql (ascii "ALTER USER") = true) :
    Returns (parseAlterUser sql) (AnswersAs (ascii "ALTER USER")) := by
  have hname : skipWhitespace sql (afterKeyword sql (ascii "ALTER USER")) ≤ sql.length :=
    skipWhitespace_le (afterKeyword_le hstarts (by decide))
  rw [parseAlterUser]
  dsimp only
  split
  case h_2 => exact Returns.pure (answers_fail (by decide))
  case h_1 nameEnd hset =>
    have hset' := skipWhitespace_le (findFrom_eq_some (by decide) hset).2
    refine Returns.bind (substrTo_returns _ hname) fun username _ => ?_
    split
    case h_2 valPos _ =>
      exact Returns.bind (substrTo_returns _ hset') fun _ _ => Returns.pure (answers_success _)
    case h_1 =>
      refine Returns.bind (substr_returns hset') fun property _ => ?_
      split
      case h_2 => exact Returns.pure (answers_success _)
      case h_1 sp hsp =>
        refine Returns.bind (substr_returns (findChar_eq_some hsp).2) fun value _ => ?_
        exact Returns.bind (substrTo_returns _ (Nat.zero_le _)) fun _ _ =>
          Returns.pure (answers_success _)

theorem alarmValue_returns {sql : Bytes} {pos : Nat} (h : pos ≤ sql.length) :
    Returns (alarmValue sql pos) fun _ => True := by
  rw [alarmValue]
  refine Returns.bind (charAt_returns h) fun c _ => ?_
  refine Returns.ite (fun _ => Returns.pure trivial) fun _ => ?_
  exact Returns.bind (substrTo_returns _ h) fun _ _ => Returns.pure trivial

theorem parseAlterAlarm_returns {sql : Bytes}
    (hstarts : startsWith sql (ascii "ALTER ALARM") = true) :
    Returns (parseAlterAlarm sql) (AnswersAs (ascii "ALTER ALARM")) := by
  have hname : skipWhitespace sql (afterKeyword sql (ascii "ALTER ALARM")) ≤ sql.length :=
    skipWhitespace_le (afterKeyword_le hstarts (by decide))
  rw [parseAlterAlarm]
  dsimp only
  split
  case h_2 => exact Returns.pure (answers_fail (by decide))
  case h_1 setPos hset =>
    have hset' := skipWhitespace_le (findFrom_eq_some (by decide) hset).2
    refine Returns.bind (substrTo_returns _ hname) fun alarmName _ => ?_
    split
    case h_2 eq heq =>
      refine Returns.bind (substrTo_returns _ hset') fun property _ => ?_
      have hvalue := skipWhitespace_le (findChar_eq_some heq).2
      exact Returns.bind (alarmValue_returns hvalue) fun _ _ => Returns.pure (answers_success _)
    case h_1 =>
      split
      case h_1 => exact Returns.pure (answers_success _)
      case h_2 =>
        split
        case h_2 => exact Returns.pure (answers_fail (by decide))
        case h_1 =>
          exact Returns.bind (substrTo_returns _ hset') fun _ _ =>
            Returns.pure (answers_success _)

theorem innerPart_returns {s : Bytes} (h : 1 ≤ s.length) :
    Returns (innerPart s) fun _ => True := by
  rw [innerPart]
  exact Returns.bind (substr_returns h) fun _ _ => Returns.pure trivial

theorem cleanQuotes_returns (s : Bytes) : Returns (cleanQuotes s) fun _ => True := by
  rw [cleanQuotes]
  refine Returns.ite (fun h => ?_) fun _ => Returns.pure trivial
  exact innerPart_returns (by omega)

theorem parseAlterTag_returns {sql : Bytes}
    (hstarts : startsWith sql (ascii "ALTER TAG") = true) :
    Returns (parseAlterTag sql) (AnswersAs (ascii "ALTER TAG")) := by
  rw [parseAlterTag]
  refine Returns.bind (nameBehind_returns hstarts (by decide)) fun rest _ => ?_
  split
  case h_2 => exact Returns.pure (answers_fail (by decide))
  case h_1 pos hdot =>
    refine Returns.bind (substrTo_returns _ (Nat.zero_le _)) fun tableName _ => ?_
    refine Returns.bind (substr_returns (findChar_eq_some hdot).2) fun after _ => ?_
    dsimp only
    split
    case h_2 => exact Returns.pure (answers_fail (by decide))
    case h_1 setPos hset =>
      refine Returns.bind (substrTo_returns _ (Nat.zero_le _)) fun tagName _ => ?_
      have hset' := (findFrom_eq_some (by decide) hset).2
      refine Returns.bind (substr_returns hset') fun propPart _ => ?_
      split
      case h_2 => exact Returns.pure (answers_fail (by decide))
      case h_1 eq heq =>
        refine Returns.bind (substrTo_returns _ (Nat.zero_le _)) fun property _ => ?_
        refine Returns.bind (substr_returns (findChar_eq_some heq).2) fun valPart _ => ?_
        refine Returns.bind (P := fun _ => True) ?_ fun value _ => Returns.pure (answers_success _)
        refine Returns.ite (fun hquote => ?_) fun _ => Returns.ok trivial
        refine innerPart_returns (List.length_pos_iff.mpr ?_)
        intro hnil
        rw [hnil] at hquote
        cases hquote

theorem parseAlterSystem_returns (sql : Bytes) :
    Returns (parseAlterSystem sql) (AnswersAs (ascii "ALTER SYSTEM")) := by
  rw [parseAlterSystem]
  split
  case h_2 => exact Returns.pure (answers_fail (by decide))
  case h_1 pos hset =>
    have hset' := skipWhitespace_le (findKeyword_eq_some (by decide) hset).2
    dsimp only
    split
    case h_2 => exact Returns.pure (answers_fail (by decide))
    case h_1 eq heq =>
      refine Returns.bind (substrTo_returns _ hset') fun key _ => ?_
      exact Returns.bind (substr_returns (findChar_eq_some heq).2) fun _ _ =>
        Returns.pure (answers_success _)

theorem tagFilterFrom_returns (sql : Bytes) (pos : Nat) :
    Returns (tagFilterFrom sql pos) fun _ => True := by
  rw [tagFilterFrom]
  split
  case h_1 => exact Returns.ok trivial
  case h_2 tagEq htag =>
    have hle := skipWhitespace_le (findFrom_eq_some (by decide) htag).2
    exact Returns.bind (charAt_returns hle) fun _ _ => Returns.pure trivial

theorem deleteRange_returns (conv : Conversions) (sql : Bytes) (pos : Nat) :
    Returns (deleteRange conv sql pos) fun _ => True := by
  rw [deleteRange]
  split
  case h_1 => exact Returns.ok trivial
  case h_2 betweenPos hbetween =>
    have hbetween' := (findFrom_eq_some (by decide) hbetween).2
    rw [length_toUpper] at hbetween'
    split
    case h_1 => exact Returns.ok trivial
    case h_2 andPos hand =>
      have hand' := (findFrom_eq_some (by decide) hand).2
      rw [length_toUpper] at hand'
      refine Returns.bind (substrTo_returns _ hbetween') fun start _ => ?_
      refine Returns.bind (cleanQuotes_returns _) fun startStr _ => ?_
      refine Returns.bind (substr_returns hand') fun stop _ => ?_
      exact Returns.bind (cleanQuotes_returns _) fun endStr _ => Returns.pure trivial

theorem parseDelete_returns {conv : Conversions} {sql : Bytes} :
    Returns (parseDelete conv sql) (AnswersAs (ascii "DELETE")) := by
  rw [parseDelete]
  dsimp only
  split
  case h_2 => exact Returns.pure (answers_fail (by decide))
  case h_1 fromPos hfrom =>
    have hfrom' := (findFrom_eq_some (by decide) hfrom).2
    rw [length_toUpper] at hfrom'
    split
    case h_2 => exact Returns.pure (answers_fail (by decide))
    case h_1 wherePos hwhere =>
      refine Returns.bind (substrTo_returns _ (skipWhitespace_le hfrom')) fun tableName _ => ?_
      refine Returns.bind (tagFilterFrom_returns _ _) fun tagFilter _ => ?_
      exact Returns.bind (deleteRange_returns _ _ _) fun _ _ => Returns.pure (answers_success _)

theorem updateValue_returns (conv : Conversions) (sql : Bytes) (pos wherePos : Nat) :
    Returns (updateValue conv sql pos wherePos) fun _ => True := by
  rw [updateValue]
  split
  case h_1 => exact Returns.ok trivial
  case h_2 eq heq =>
    refine Returns.ite (fun _ => ?_) fun _ => Returns.ok trivial
    exact Returns.bind (substrTo_returns _ (findChar_eq_some heq).2) fun _ _ =>
      Returns.pure trivial

/-- A character of the pattern is found at or behind where the pattern is. -/
theorem findChar_of_findFrom {s pat : Bytes} {c : UInt8} {pos i : Nat} (hc : c ∈ pat)
    (h : findFrom s pat pos = some i) : ∃ j, findChar s c i = some j := by
  obtain ⟨j, hj, rfl⟩ := Option.map_eq_some_iff.mp h
  have hat := (find_eq_some hj).1
  rw [List.drop_drop] at hat
  have hmem : c ∈ s.drop (j + pos) := by
    rw [Nat.add_comm]
    exact hat.subset hc
  have hoccurs : [c] <:+: s.drop (j + pos) := List.infix_iff_prefix_suffix.mpr (by
    obtain ⟨before, after, heq⟩ := List.append_of_mem hmem
    exact ⟨c :: after, ⟨after, rfl⟩, ⟨before, heq.symm⟩⟩)
  obtain ⟨k, hk⟩ := exists_find hoccurs
  refine ⟨k + (j + pos), ?_⟩
  rw [findChar, findFrom, hk]
  rfl

theorem updateTime_returns (conv : Conversions) (sql : Bytes) (pos : Nat) :
    Returns (updateTime conv sql pos) fun _ => True := by
  rw [updateTime]
  split
  case h_1 => exact Returns.ok trivial
  case h_2 tsEq hts =>
    have hfound : ∃ j, findChar sql equals tsEq = some j := by
      cases hplain : findFrom sql (ascii "timestamp=") pos with
      | none =>
        rw [hplain] at hts
        exact findChar_of_findFrom (by decide) hts
      | some i =>
        rw [hplain] at hts
        cases hts
        exact findChar_of_findFrom (by decide) hplain
    obtain ⟨j, hj⟩ := hfound
    have hle : (j + 1) % 2 ^ 64 ≤ sql.length :=
      Nat.le_trans (Nat.mod_le _ _) (findChar_eq_some hj).2
    rw [hj]
    exact Returns.bind (charAt_returns (skipWhitespace_le hle)) fun _ _ => Returns.pure trivial

theorem parseUpdate_returns {conv : Conversions} {sql : Bytes}
    (hstarts : startsWith sql (ascii "UPDATE") = true) :
    Returns (parseUpdate conv sql) (AnswersAs (ascii "UPDATE")) := by
  have hname : skipWhitespace sql (afterKeyword sql (ascii "UPDATE")) ≤ sql.length :=
    skipWhitespace_le (afterKeyword_le hstarts (by decide))
  rw [parseUpdate]
  dsimp only
  split
  case h_2 => exact Returns.pure (answers_fail (by decide))
  case h_1 setPos hset =>
    refine Returns.bind (substrTo_returns _ hname) fun tableName _ => ?_
    split
    case h_2 => exact Returns.pure (answers_fail (by decide))
    case h_1 wherePos hwhere =>
      refine Returns.bind (updateValue_returns _ _ _ _) fun newValue _ => ?_
      refine Returns.bind (tagFilterFrom_returns _ _) fun tagFilter _ => ?_
      exact Returns.bind (updateTime_returns _ _ _) fun _ _ => Returns.pure (answers_success _)

theorem afterFrom_le {sql kw : Bytes} (hstarts : startsWith sql kw = true)
    (hfrom : ascii "FROM" <:+: kw) : afterFrom sql ≤ sql.length := by
  have hoccurs : ascii "FROM" <:+: (toUpper sql).drop 0 :=
    hfrom.trans (startsWith_iff.mp hstarts).isInfix
  obtain ⟨i, hi⟩ := exists_find hoccurs
  have hlen := (find_eq_some hi).2
  rw [List.drop_zero, length_toUpper] at hlen
  rw [afterFrom, findFrom, hi]
  exact Nat.le_trans (Nat.mod_le _ _) hlen

theorem parseShow_returns (sql : Bytes) : Returns (parseShow sql) (AnswersAs (ascii "SHOW")) := by
  rw [parseShow]
  refine Returns.ite (fun _ => Returns.pure (answers_success _)) fun _ => ?_
  refine Returns.ite (fun hfrom => ?_) fun _ => ?_
  · have hle := afterFrom_le hfrom (by decide)
    exact Returns.bind (substr_returns hle) fun _ _ => Returns.pure (answers_success _)
  refine Returns.ite (fun _ => Returns.pure (answers_success _)) fun _ => ?_
  refine Returns.ite (fun hfrom => ?_) fun _ => ?_
  · have hle := afterFrom_le hfrom (by decide)
    dsimp only
    split
    case h_1 likePos hlike =>
      have hlike' := (findFrom_eq_some (by decide) hlike).2
      rw [length_toUpper] at hlike'
      refine Returns.bind (substrTo_returns _ hle) fun filterTable _ => ?_
      refine Returns.bind (substr_returns hlike') fun rest _ => ?_
      exact Returns.bind (cleanQuotes_returns _) fun _ _ => Returns.pure (answers_success _)
    case h_2 =>
      exact Returns.bind (substr_returns hle) fun _ _ => Returns.pure (answers_success _)
  refine Returns.ite (fun _ => Returns.pure (answers_success _)) fun _ => ?_
  refine Returns.ite (fun _ => Returns.pure (answers_success _)) fun _ => ?_
  refine Returns.ite (fun _ => Returns.pure (answers_success _)) fun _ => ?_
  exact Returns.pure (answers_fail (by decide))

/-! ## Any text -/

/-- Two heads, neither of which goes on as the other does. -/
theorem startsWith_eq_false {s kw other : Bytes} (h : startsWith s kw = true)
    (hne : ¬ kw <+: other ∧ ¬ other <+: kw) : startsWith s other = false := by
  rw [Bool.eq_false_iff]
  intro hother
  cases List.prefix_or_prefix_of_prefix (startsWith_iff.mp h) (startsWith_iff.mp hother) with
  | inl hle => exact hne.1 hle
  | inr hle => exact hne.2 hle

/-- An answer, and if it is a statement then the text starts with the name of its operation. -/
structure AnswersHead (trimmed : Bytes) (r : ParseResult) : Prop where
  answers : Answers r
  head : ∀ stmt, r.stmt = some stmt → getOperationName stmt <+: toUpper trimmed

theorem AnswersAs.toHead {op trimmed : Bytes} {r : ParseResult} (hop : op <+: toUpper trimmed)
    (h : AnswersAs op r) : AnswersHead trimmed r := by
  refine ⟨h.answers, ?_⟩
  intro stmt hstmt
  cases h with
  | inl h =>
    obtain ⟨-, stmt', hstmt', hop'⟩ := h
    rw [hstmt'] at hstmt
    cases hstmt
    rw [hop']
    exact hop
  | inr h =>
    rw [h.2.1] at hstmt
    cases hstmt

/-- What is behind a branch of the parser. -/
theorem head_returns {p : Parsing ParseResult} {op trimmed : Bytes} (h : Returns p (AnswersAs op))
    (hstarts : startsWith trimmed op = true) : Returns p (AnswersHead trimmed) :=
  h.mono fun _ hr => hr.toHead (startsWith_iff.mp hstarts)

/-- A message, whatever the text starts with. -/
theorem answersHead_fail {trimmed msg : Bytes} (h : msg ≠ []) :
    AnswersHead trimmed (.fail msg) :=
  (@answers_fail [] msg h).toHead List.nil_prefix

theorem dispatch_returns {conv : Conversions} {fuel : Nat} {trimmed : Bytes}
    (hfuel : trimmed.length < fuel)
    (hends : startsWith trimmed (ascii "CREATE ALARM") = true → ActionsEnd trimmed) :
    Returns (dispatch conv fuel trimmed) (AnswersHead trimmed) := by
  unfold dispatch
  refine Returns.ite (fun h => head_returns (parseSelect_returns h hfuel) h) fun _ => ?_
  refine Returns.ite (fun h => head_returns (named_returns _ h rfl fun _ => rfl) h) fun _ => ?_
  refine Returns.ite (fun h => head_returns (parseCreateTable_returns h hfuel) h) fun _ => ?_
  refine Returns.ite (fun h => head_returns (parseCreateTags_returns hfuel) h) fun _ => ?_
  refine Returns.ite (fun h => head_returns (parseCreateTag_returns h hfuel) h) fun _ => ?_
  refine Returns.ite (fun h => head_returns (parseCreateAlarm_returns h hfuel (hends h)) h)
    fun _ => ?_
  refine Returns.ite (fun h => head_returns (parseCreateUser_returns h) h) fun _ => ?_
  refine Returns.ite (fun h => head_returns (named_returns _ h rfl fun _ => rfl) h) fun _ => ?_
  refine Returns.ite (fun h => head_returns (parseDropTag_returns h) h) fun _ => ?_
  refine Returns.ite (fun h => head_returns (named_returns _ h rfl fun _ => rfl) h) fun _ => ?_
  refine Returns.ite (fun h => head_returns (named_returns _ h rfl fun _ => rfl) h) fun _ => ?_
  refine Returns.ite (fun h => head_returns (named_returns _ h rfl fun _ => rfl) h) fun _ => ?_
  refine Returns.ite (fun h => head_returns (parseAlterTag_returns h) h) fun _ => ?_
  refine Returns.ite (fun h => head_returns (parseAlterAlarm_returns h) h) fun _ => ?_
  refine Returns.ite (fun h => head_returns (parseAlterUser_returns h) h) fun _ => ?_
  refine Returns.ite (fun h => head_returns (parseAlterSystem_returns _) h) fun _ => ?_
  refine Returns.ite (fun _ => Returns.ok (answersHead_fail (by decide))) fun _ => ?_
  refine Returns.ite (fun h => head_returns (parseInsert_returns hfuel) h) fun _ => ?_
  refine Returns.ite (fun h => head_returns parseDelete_returns h) fun _ => ?_
  refine Returns.ite (fun h => head_returns (parseUpdate_returns h) h) fun _ => ?_
  refine Returns.ite (fun h => ?_) fun _ => ?_
  · have hUse : startsWith trimmed (ascii "USE") = true := by
      rw [startsWith_iff]
      cases h with
      | inl hspace =>
        have hshort : ascii "USE" <+: ascii "USE " := by decide
        exact hshort.trans (startsWith_iff.mp hspace)
      | inr heq => rw [heq]
    have hreturns : Returns (parseUse trimmed) (AnswersAs []) :=
      named_returns SQLStmt.use hUse rfl fun _ => rfl
    exact hreturns.mono fun _ hr => hr.toHead List.nil_prefix
  refine Returns.ite (fun h => head_returns (parseShow_returns _) h) fun _ => ?_
  apply Returns.ok
  apply answersHead_fail
  exact List.append_ne_nil_of_left_ne_nil (by decide) _

/-- The four heads a permission may depend on. -/
theorem dispatch_select {conv : Conversions} {fuel : Nat} {trimmed : Bytes}
    (h : startsWith trimmed (ascii "SELECT") = true) :
    dispatch conv fuel trimmed = parseSelect conv fuel trimmed := by
  unfold dispatch
  rw [if_pos h]

theorem dispatch_createTags {conv : Conversions} {fuel : Nat} {trimmed : Bytes}
    (h : startsWith trimmed (ascii "CREATE TAGS") = true) :
    dispatch conv fuel trimmed = parseCreateTags fuel trimmed := by
  simp (disch := decide) only [dispatch, startsWith_eq_false h, h, Bool.false_eq_true, if_false,
    if_true]

theorem dispatch_createTag {conv : Conversions} {fuel : Nat} {trimmed : Bytes}
    (h : startsWith trimmed (ascii "CREATE TAG") = true)
    (hnot : startsWith trimmed (ascii "CREATE TAGS") = false) :
    dispatch conv fuel trimmed = parseCreateTag fuel trimmed := by
  simp (disch := decide) only [dispatch, startsWith_eq_false h, h, hnot, Bool.false_eq_true,
    if_false, if_true]

theorem dispatch_createUser {conv : Conversions} {fuel : Nat} {trimmed : Bytes}
    (h : startsWith trimmed (ascii "CREATE USER") = true) :
    dispatch conv fuel trimmed = parseCreateUser trimmed := by
  simp (disch := decide) only [dispatch, startsWith_eq_false h, h, Bool.false_eq_true, if_false,
    if_true]

theorem dispatch_alterSystem {conv : Conversions} {fuel : Nat} {trimmed : Bytes}
    (h : startsWith trimmed (ascii "ALTER SYSTEM") = true) :
    dispatch conv fuel trimmed = parseAlterSystem trimmed := by
  simp (disch := decide) only [dispatch, startsWith_eq_false h, h, Bool.false_eq_true, if_false,
    if_true]

/-- A text the parser takes to be a `CREATE ALARM`. -/
theorem dispatch_createAlarm {conv : Conversions} {fuel : Nat} {trimmed : Bytes}
    (h : startsWith trimmed (ascii "CREATE ALARM") = true) :
    dispatch conv fuel trimmed = parseCreateAlarm fuel trimmed := by
  simp (disch := decide) only [dispatch, startsWith_eq_false h, h, Bool.false_eq_true, if_false,
    if_true]

/-- A text the parser takes to be a `DELETE`. -/
theorem dispatch_delete {conv : Conversions} {fuel : Nat} {trimmed : Bytes}
    (h : startsWith trimmed (ascii "DELETE") = true) :
    dispatch conv fuel trimmed = parseDelete conv trimmed := by
  simp (disch := decide) only [dispatch, startsWith_eq_false h, h, Bool.false_eq_true, if_false,
    if_true]

/-- A text the parser takes to be an `UPDATE`. -/
theorem dispatch_update {conv : Conversions} {fuel : Nat} {trimmed : Bytes}
    (h : startsWith trimmed (ascii "UPDATE") = true) :
    dispatch conv fuel trimmed = parseUpdate conv trimmed := by
  simp (disch := decide) only [dispatch, startsWith_eq_false h, h, Bool.false_eq_true, if_false,
    if_true]

theorem actionsEnd_of_parse {conv : Conversions} {fuel : Nat} {sql : Bytes} {r : ParseResult}
    (hparse : parse conv fuel sql = .ok r)
    (hstarts : startsWith (trim sql) (ascii "CREATE ALARM") = true) : ActionsEnd (trim sql) := by
  have hne : (trim sql).isEmpty = false := by
    rw [List.isEmpty_eq_false_iff]
    intro hnil
    rw [hnil] at hstarts
    exact absurd hstarts (by decide)
  rw [parse, hne, if_neg (by decide), dispatch_createAlarm hstarts] at hparse
  exact actionsEnd_of_parseCreateAlarm hparse

theorem parse_returns {conv : Conversions} {fuel : Nat} {sql : Bytes}
    (hfuel : (trim sql).length < fuel)
    (hends : startsWith (trim sql) (ascii "CREATE ALARM") = true → ActionsEnd (trim sql)) :
    Returns (parse conv fuel sql) (AnswersHead (trim sql)) := by
  unfold parse
  refine Returns.ite (fun _ => Returns.ok (answersHead_fail (by decide))) fun _ => ?_
  exact dispatch_returns hfuel hends

/-- The parser comes to an end, raises nothing, and answers. -/
def ParseEnds (conv : Conversions) (sql : Bytes) : Prop :=
  ∃ fuel, Returns (parse conv fuel sql) Answers

/-- **The parser answers every text but one kind**: a `CREATE ALARM` whose list of actions holds
something else than what is quoted and what separates. -/
theorem parse_ends_iff (conv : Conversions) (sql : Bytes) :
    ParseEnds conv sql ↔
      (startsWith (trim sql) (ascii "CREATE ALARM") = true → ActionsEnd (trim sql)) := by
  constructor
  · intro ⟨fuel, r, hparse, _⟩ hstarts
    exact actionsEnd_of_parse hparse hstarts
  · intro hends
    have hreturns : Returns (parse conv ((trim sql).length + 1) sql) (AnswersHead (trim sql)) :=
      parse_returns (Nat.lt_succ_self _) hends
    exact ⟨_, hreturns.mono fun _ hr => hr.answers⟩

/-- `CREATE ALARM a ON t WHEN v>1 THEN ACTION(log)` keeps the parser at the `l`. -/
theorem parse_runs_on : ¬ ParseEnds { stod := fun _ => none, parseTimeString := fun _ => 0 }
    (ascii "CREATE ALARM a ON t WHEN v>1 THEN ACTION(log)") := by
  intro ⟨fuel, r, hparse, _⟩
  have htrim : trim (ascii "CREATE ALARM a ON t WHEN v>1 THEN ACTION(log)")
      = ascii "CREATE ALARM a ON t WHEN v>1 THEN ACTION(log)" := by decide
  have hends := actionsEnd_of_parse hparse (by decide)
  rw [htrim] at hends
  have hlist := hends 41 (by decide)
  have hrest : (ascii "CREATE ALARM a ON t WHEN v>1 THEN ACTION(log)").drop 41 = ascii "log)" := by
    decide
  rw [hrest] at hlist
  cases hlist with
  | skip hc =>
    revert hc
    decide
  | quoted hq => cases hq

/-- `SQLParser::Parse`: no loop makes more turns than the text has characters and one more,
unless it makes turns for ever. -/
def parseSql (conv : Conversions) (sql : Bytes) : Parsing ParseResult :=
  parse conv (sql.length + 1) sql

/-- **These turns are enough whenever any number of turns is.** -/
theorem parseSql_returns_iff (conv : Conversions) (sql : Bytes) :
    Returns (parseSql conv sql) (AnswersHead (trim sql)) ↔ ParseEnds conv sql := by
  constructor
  · intro h
    exact ⟨_, h.mono fun _ hr => hr.answers⟩
  · intro ⟨fuel, r, hparse, _⟩
    exact parse_returns (Nat.lt_succ_of_le (length_trim_le sql)) (actionsEnd_of_parse hparse)

/-- The parser takes the text, for this statement. -/
def Accepts (conv : Conversions) (sql : Bytes) (stmt : SQLStmt) : Prop :=
  ∃ r, parseSql conv sql = .ok r ∧ r.stmt = some stmt

theorem Accepts.unique {conv : Conversions} {sql : Bytes} {stmt stmt' : SQLStmt}
    (h : Accepts conv sql stmt) (h' : Accepts conv sql stmt') : stmt = stmt' := by
  obtain ⟨r, hr, hstmt⟩ := h
  obtain ⟨r', hr', hstmt'⟩ := h'
  rw [hr] at hr'
  cases hr'
  rw [hstmt] at hstmt'
  exact Option.some.inj hstmt'

/-- A statement is of the operation its text starts with. -/
theorem Accepts.head {conv : Conversions} {sql : Bytes} {stmt : SQLStmt}
    (h : Accepts conv sql stmt) : getOperationName stmt <+: toUpper (trim sql) := by
  obtain ⟨r, hr, hstmt⟩ := h
  have hreturns : Returns (parseSql conv sql) (AnswersHead (trim sql)) :=
    parse_returns (Nat.lt_succ_of_le (length_trim_le sql)) (actionsEnd_of_parse hr)
  obtain ⟨r', hr', hhead⟩ := hreturns
  rw [hr] at hr'
  cases hr'
  exact hhead.head stmt hstmt

/-- A text with the operation in front goes to the parser of the operation, and the statement is
what that one answers. -/
theorem Accepts.operation {conv : Conversions} {sql op : Bytes} {stmt : SQLStmt}
    {parser : Parsing ParseResult} (h : Accepts conv sql stmt)
    (hstarts : startsWith (trim sql) op = true) (hne : op ≠ [])
    (hdispatch : dispatch conv (sql.length + 1) (trim sql) = parser)
    (hreturns : Returns parser (AnswersAs op)) : getOperationName stmt = op := by
  obtain ⟨r, hr, hstmt⟩ := h
  have hnonempty : (trim sql).isEmpty = false := by
    rw [List.isEmpty_eq_false_iff]
    intro hnil
    rw [hnil, startsWith_iff] at hstarts
    exact hne (List.prefix_nil.mp hstarts)
  rw [parseSql, parse, hnonempty, if_neg (by decide), hdispatch] at hr
  obtain ⟨r', hr', hanswers⟩ := hreturns
  rw [hr] at hr'
  cases hr'
  cases hanswers with
  | inl hok =>
    obtain ⟨-, stmt', hstmt', hop⟩ := hok
    rw [hstmt] at hstmt'
    cases hstmt'
    exact hop
  | inr hfail =>
    rw [hfail.2.1] at hstmt
    cases hstmt

end Sql
end MiniTSDB
