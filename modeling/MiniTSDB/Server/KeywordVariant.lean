import MiniTSDB.Server.Treatment
import MiniTSDB.Sql.TagLiteral

/-!
# Keywords in another case

A text that spells its keywords in another case is to be accepted with a statement that the
executor treats in the same way. What a keyword is, and what a name or a literal, the parser
decides: some words it looks for in one spelling, so it is asked with these as it looks for them.
Where nothing is read behind such a word, the case does not matter (`caseBlind_of_noFixedWord`).
-/

namespace MiniTSDB
namespace Server

open Lib Sql

/-! ## Names and literals -/

/-- The values of properties. -/
def valuesOf (props : List (Bytes × Bytes)) : List (Bytes × Bytes) := props.map fun p => ([], p.2)

/-- What the user has chosen of a statement, its names and its literals, without its words. The
time of a `DELETE` is left out, which nothing reads. -/
def chosen : SQLStmt → SQLStmt
  | .insert stmt => .insert { stmt with columns := [] }
  | .select stmt => .select
      { tableName := stmt.tableName, where_ := stmt.where_, orderBy := stmt.orderBy,
        groupBy := stmt.groupBy }
  | .createTag stmt => .createTag { stmt with properties := valuesOf stmt.properties }
  | .createUser stmt => .createUser { stmt with role := [] }
  | .createTable stmt => .createTable { stmt with properties := valuesOf stmt.properties }
  | .createTags stmt => .createTags
      { stmt with tags := stmt.tags.map fun tag => { tag with props := valuesOf tag.props } }
  | .alterTag stmt => .alterTag { stmt with property := [] }
  | .alterAlarm stmt => .alterAlarm { stmt with property := [] }
  | .alterUser stmt => .alterUser { stmt with property := [] }
  | .delete stmt => .delete { stmt with timeRange := { start := 0, stop := 0 } }
  | stmt => stmt

theorem map_toLower_eq {ts ts' : List Bytes} (h : ts'.map toUpper = ts.map toUpper) :
    ts'.map toLower = ts.map toLower := by
  have hlower : ∀ ts : List Bytes, (ts.map toUpper).map toLower = ts.map toLower := by
    intro ts
    rw [List.map_map]
    exact List.map_congr_left fun t _ => toLower_toUpper t
  rw [← hlower ts', h, hlower]

/-- **The same letters, and the same names and literals, make the same for the executor**, if the
statement is no `ALTER` with a property. -/
theorem treated_eq {stmt stmt' : SQLStmt} (hupper : stmt'.upper = stmt.upper)
    (hchosen : chosen stmt' = chosen stmt) (htag : ∀ alter, stmt ≠ .alterTag alter)
    (halarm : ∀ alter, stmt ≠ .alterAlarm alter) (huser : ∀ alter, stmt ≠ .alterUser alter) :
    treated stmt' = treated stmt := by
  cases stmt with
  | insert stmt =>
    cases stmt' with
    | insert stmt' =>
      simp only [chosen, SQLStmt.upper, SQLStmt.insert.injEq, InsertStmt.mk.injEq] at hchosen hupper
      simp only [treated, SQLStmt.insert.injEq, InsertStmt.mk.injEq]
      exact ⟨hchosen.1, map_toLower_eq hupper.2.1, hchosen.2.2⟩
    | _ => cases hupper
  | select stmt =>
    cases stmt' with
    | select stmt' =>
      simp only [chosen, SQLStmt.upper, SQLStmt.select.injEq, SelectStmt.mk.injEq] at hchosen hupper
      simp only [treated, SQLStmt.select.injEq, SelectStmt.mk.injEq]
      obtain ⟨hcolumns, -, -, hlatest, -, hasc, hlimit, -⟩ := hupper
      obtain ⟨-, htable, hwhere, -, horder, -, -, hgroup⟩ := hchosen
      refine ⟨?_, htable, hwhere, hlatest, horder, hasc, hlimit, hgroup⟩
      have hcol : ∀ col : SelectExpr, treatedColumn col.upper = treatedColumn col := fun col => by
        simp only [treatedColumn, SelectExpr.upper, toUpper_toUpper]
      have hmap : ∀ columns : List SelectExpr, (columns.map SelectExpr.upper).map treatedColumn
          = columns.map treatedColumn := by
        intro columns
        rw [List.map_map]
        exact List.map_congr_left fun col _ => hcol col
      rw [← hmap stmt'.columns, hcolumns, hmap]
    | _ => cases hupper
  | createTag stmt =>
    cases stmt' with
    | createTag stmt' =>
      simp only [chosen, SQLStmt.createTag.injEq, CreateTagStmt.mk.injEq] at hchosen
      simp only [treated, hchosen.1]
    | _ => cases hupper
  | createUser stmt =>
    cases stmt' with
    | createUser stmt' =>
      simp only [chosen, SQLStmt.upper, SQLStmt.createUser.injEq, CreateUserStmt.mk.injEq]
        at hchosen hupper
      have hrole : toLower stmt'.role = toLower stmt.role := SameLetters.toLower_eq hupper.2.2
      simp only [treated, hchosen.1, hchosen.2.1, hrole]
    | _ => cases hupper
  | createTable stmt =>
    cases stmt' with
    | createTable stmt' =>
      simp only [chosen, SQLStmt.createTable.injEq, CreateTableStmt.mk.injEq] at hchosen
      simp only [treated, hchosen.1]
    | _ => cases hupper
  | createTags stmt =>
    cases stmt' with
    | createTags stmt' =>
      simp only [chosen, SQLStmt.createTags.injEq, CreateTagsStmt.mk.injEq] at hchosen
      simp only [treated, SQLStmt.createTags.injEq, CreateTagsStmt.mk.injEq]
      refine ⟨hchosen.1, ?_⟩
      have hmap : ∀ tags : List TagDef, (tags.map fun tag => { tag with props := valuesOf tag.props }
          : List TagDef).map (fun tag => { tag with props := [] })
            = tags.map fun tag => { tag with props := [] } := by
        intro tags
        rw [List.map_map]
        rfl
      rw [← hmap stmt'.tags, hchosen.2, hmap]
    | _ => cases hupper
  | alterTag alter => exact absurd rfl (htag alter)
  | alterAlarm alter => exact absurd rfl (halarm alter)
  | alterUser alter => exact absurd rfl (huser alter)
  | delete stmt =>
    cases stmt' with
    | delete stmt' => exact hchosen
    | _ => cases hupper
  | _ =>
    cases stmt' with
    | _ => first | cases hupper | exact hchosen

/-! ## The words that are looked for in one spelling -/

/-- The text with the word in it, in the first place behind the start where it stands in some
case. -/
def respellAt (sql : Bytes) (start : Option Nat) (word : Bytes) : Bytes :=
  match start.bind (findKeyword sql word) with
  | some i => putAt sql i word
  | none => sql

/-- The time is looked for behind a `timestamp=`, and if there is none behind a `timestamp =`. -/
def respellTime (sql : Bytes) : Bytes :=
  if ((updateWhere sql).bind (findKeyword sql (ascii "timestamp="))).isSome then
    respellAt sql (updateWhere sql) (ascii "timestamp=")
  else respellAt sql (updateWhere sql) (ascii "timestamp =")

/-- A text, without blanks at its ends, with these words spelled as they are looked for. -/
def respell (sql : Bytes) : Bytes :=
  if startsWith sql (ascii "ALTER TAG") then respellAt sql (alterTagStart sql) (ascii " SET ")
  else if startsWith sql (ascii "ALTER ALARM") then
    respellAt sql (some (alterAlarmStart sql)) (ascii " SET ")
  else if startsWith sql (ascii "ALTER USER") then
    respellAt sql (some (alterUserStart sql)) (ascii " SET ")
  else if startsWith sql (ascii "DELETE") then respellAt sql (deleteWhere sql) (ascii "tag=")
  else if startsWith sql (ascii "UPDATE") then
    respellTime (respellAt sql (updateWhere sql) (ascii "tag="))
  else sql

/-- What the parser makes of a text with these words spelled as it looks for them. -/
def ReadAs (conv : Conversions) (fuel : Nat) (sql : Bytes) (stmt : SQLStmt) : Prop :=
  ∃ r, dispatch conv fuel (respell sql) = .ok r ∧ r.stmt = some stmt

/-- The statement that a text is meant to be. -/
def Reads (conv : Conversions) (sql : Bytes) (stmt : SQLStmt) : Prop :=
  ReadAs conv (sql.length + 1) (trim sql) stmt

/-- **The one text is the other with keywords in another case**: no letter of a name or of a
literal is changed. -/
structure KeywordVariant (conv : Conversions) (sql sql' : Bytes) : Prop where
  letters : SameLetters sql sql'
  chosen : ∀ stmt stmt', Reads conv sql stmt → Reads conv sql' stmt' → chosen stmt' = chosen stmt

/-- **Keywords in any case**: every variant of the text is accepted, with a statement that the
executor treats as it treats this one. -/
def CaseBlind (conv : Conversions) (sql : Bytes) (stmt : SQLStmt) : Prop :=
  ∀ sql', KeywordVariant conv sql sql' →
    ∃ stmt', Accepts conv sql' stmt' ∧ treated stmt' = treated stmt

/-! ## Where the case does not matter -/

theorem respellAt_sameLetters (s : Bytes) (start : Option Nat) (word : Bytes) :
    SameLetters s (respellAt s start word) := by
  unfold respellAt
  split
  case h_1 i hi =>
    obtain ⟨pos, -, hfind⟩ := Option.bind_eq_some_iff.mp hi
    exact putAt_sameLetters hfind rfl
  case h_2 => exact .refl s

/-- Nothing is respelled in front of the start. -/
theorem take_respellAt (s : Bytes) (pos : Nat) (word : Bytes) (hne : word ≠ []) :
    (respellAt s (some pos) word).take pos = s.take pos := by
  unfold respellAt
  split
  case h_1 i hi =>
    rw [Option.bind_some] at hi
    obtain ⟨hpos, hlen⟩ := findKeyword_eq_some hne hi
    exact take_putAt hpos (by omega)
  case h_2 => rfl

section

variable {s s' : Bytes}

theorem deleteWhere_sameLetters (hs : SameLetters s s') : deleteWhere s' = deleteWhere s := by
  unfold deleteWhere
  simp only [hs.afterKeyword, hs.skipWhitespace, hs.findFrom]

theorem updateWhere_sameLetters (hs : SameLetters s s') : updateWhere s' = updateWhere s := by
  unfold updateWhere
  simp only [hs.afterKeyword, hs.skipWhitespace, hs.findFrom]

theorem noFixedWord_sameLetters (h : NoFixedWord s) (hs : SameLetters s s') : NoFixedWord s' where
  alterTag := by rw [hs.startsWith, h.alterTag]
  alterAlarm := by rw [hs.startsWith, h.alterAlarm]
  alterUser := by rw [hs.startsWith, h.alterUser]
  delete := by
    rw [hs.startsWith, deleteWhere_sameLetters hs]
    exact fun hstarts pos hpos => (h.delete hstarts pos hpos).sameLetters hs
  update := by
    rw [hs.startsWith, updateWhere_sameLetters hs]
    intro hstarts pos hpos
    obtain ⟨htag, htime, htime'⟩ := h.update hstarts pos hpos
    refine ⟨htag.sameLetters hs, ?_, ?_⟩
    · rw [hs.findKeyword, htime]
    · rw [hs.findKeyword, htime']

theorem respellAt_none {start : Option Nat} {word : Bytes}
    (h : ∀ pos, start = some pos → findKeyword s word pos = none) : respellAt s start word = s := by
  unfold respellAt
  cases start with
  | none => rfl
  | some pos => rw [Option.bind_some, h pos rfl]

theorem respell_delete (h : startsWith s (ascii "DELETE") = true) :
    respell s = respellAt s (deleteWhere s) (ascii "tag=") := by
  simp (disch := decide) only [respell, startsWith_eq_false h, h, Bool.false_eq_true, if_false,
    if_true]

theorem respell_update (h : startsWith s (ascii "UPDATE") = true) :
    respell s = respellTime (respellAt s (updateWhere s) (ascii "tag=")) := by
  simp (disch := decide) only [respell, startsWith_eq_false h, h, Bool.false_eq_true, if_false,
    if_true]

/-- There is no word for the time behind the `WHERE` of an `UPDATE`, in whatever case. -/
def NoTimeWord (sql : Bytes) (start : Option Nat) : Prop :=
  ∀ pos, start = some pos → findKeyword sql (ascii "timestamp=") pos = none ∧
    findKeyword sql (ascii "timestamp =") pos = none

theorem NoTimeWord.sameLetters (h : NoTimeWord s (updateWhere s)) (hs : SameLetters s s') :
    NoTimeWord s' (updateWhere s') := by
  rw [updateWhere_sameLetters hs]
  intro pos hpos
  rw [hs.findKeyword, hs.findKeyword]
  exact h pos hpos

theorem respellTime_none (h : NoTimeWord s (updateWhere s)) : respellTime s = s := by
  unfold respellTime
  rw [respellAt_none fun pos hpos => (h pos hpos).1, respellAt_none fun pos hpos => (h pos hpos).2,
    ite_self]

variable {conv : Conversions} {fuel pos : Nat} {r : ParseResult} {stmt : SQLStmt}

/-- The text goes by a tag: with the same letters, and the same in front of the place, it differs in
the tag that is found behind it. -/
structure GoesByTag (conv : Conversions) (fuel : Nat) (s : Bytes) (pos : Nat)
    (withTag : Bytes → SQLStmt) : Prop where
  respelled : ∀ s', SameLetters s s' → respell s' = respellAt s' (some pos) (ascii "tag=")
  onlyTag : ∀ s' r stmt, SameLetters s s' → s'.take pos = s.take pos →
    dispatch conv fuel s' = .ok r → r.stmt = some stmt →
      ∃ tag, tagFilterFrom s' pos = .ok tag ∧ chosen stmt = withTag tag

theorem delete_goesByTag (hstarts : startsWith s (ascii "DELETE") = true)
    (hpos : deleteWhere s = some pos) : GoesByTag conv fuel s pos fun tag => .delete
      { tableName := (deleteTable s).getD [], tagFilter := tag,
        timeRange := { start := 0, stop := 0 } } where
  respelled s' hs := by
    rw [respell_delete (by rw [hs.startsWith, hstarts]), deleteWhere_sameLetters hs, hpos]
  onlyTag s' r stmt hs hfront hr hstmt := by
    rw [dispatch_delete (by rw [hs.startsWith, hstarts])] at hr
    obtain ⟨start, del, hstart, rfl, htable, htag⟩ := parseDelete_parts hr hstmt
    rw [deleteWhere_sameLetters hs, hpos] at hstart
    cases hstart
    rw [deleteTable_congr hs hpos hfront] at htable
    refine ⟨del.tagFilter, htag, ?_⟩
    rw [htable]
    rfl

theorem update_goesByTag (hstarts : startsWith s (ascii "UPDATE") = true)
    (hpos : updateWhere s = some pos) (htime : NoTimeWord s (updateWhere s)) :
    GoesByTag conv fuel s pos fun tag => .update
      { tableName := (updateTable s).getD [], tagFilter := tag, exactTime := 0,
        newValue := (updateNewValue conv s).getD 0 } where
  respelled s' hs := by
    have hletters := hs.trans (respellAt_sameLetters s' (updateWhere s') (ascii "tag="))
    rw [respell_update (by rw [hs.startsWith, hstarts]), respellTime_none (htime.sameLetters hletters),
      updateWhere_sameLetters hs, hpos]
  onlyTag s' r stmt hs hfront hr hstmt := by
    rw [dispatch_update (by rw [hs.startsWith, hstarts])] at hr
    obtain ⟨start, upd, hstart, rfl, htable, hvalue, htag, hexact⟩ := parseUpdate_parts hr hstmt
    rw [updateWhere_sameLetters hs, hpos] at hstart
    cases hstart
    obtain ⟨hsameTable, hsameValue⟩ := updateTable_congr conv hs hpos hfront
    rw [hsameTable] at htable
    rw [hsameValue] at hvalue
    obtain ⟨hnone, hnone'⟩ := htime pos hpos
    rw [updateTime_eq_zero (by rw [hs.findKeyword, hnone]) (by rw [hs.findKeyword, hnone'])] at hexact
    refine ⟨upd.tagFilter, htag, ?_⟩
    rw [htable, hvalue, Except.ok.inj hexact]
    rfl

/-- Where nothing is read behind a word in one spelling, texts with the same letters are parsed to
statements with the same letters. -/
theorem exists_sameStatement (h : NoFixedWord s) (hs : SameLetters s s')
    (hr : dispatch conv fuel s = .ok r) (hstmt : r.stmt = some stmt) :
    ∃ r' stmt', dispatch conv fuel s' = .ok r' ∧ r'.stmt = some stmt' ∧
      stmt'.upper = stmt.upper := by
  obtain ⟨r', hr', hsame⟩ := (dispatch_sameLetters conv hs h fuel).exists_ok hr
  unfold SameStatement at hsame
  rw [hstmt, Option.map_some, Option.map_eq_some_iff] at hsame
  obtain ⟨stmt', hstmt', hupper⟩ := hsame
  exact ⟨r', stmt', hr', hstmt', hupper⟩

/-- Without a literal it is read as the parser reads it. -/
theorem GoesByTag.exists_readAs {withTag : Bytes → SQLStmt} (hs : GoesByTag conv fuel s pos withTag)
    (h : NoFixedWord s) (hnone : NoTagLiteral s pos) (hr : dispatch conv fuel s = .ok r)
    (hstmt : r.stmt = some stmt) : ∃ stmt', ReadAs conv fuel s stmt' ∧ chosen stmt' = chosen stmt := by
  have hletters := respellAt_sameLetters s (some pos) (ascii "tag=")
  have hfront := take_respellAt s pos (ascii "tag=") (by decide)
  obtain ⟨r', stmt', hr', hstmt', -⟩ := exists_sameStatement h hletters hr hstmt
  obtain ⟨tag, htag, hchosen⟩ := hs.onlyTag s r stmt (.refl s) rfl hr hstmt
  obtain ⟨tag', htag', hchosen'⟩ := hs.onlyTag _ r' stmt' hletters hfront hr' hstmt'
  rw [tagFilterFrom_eq_nil hnone] at htag
  rw [tagFilterFrom_eq_nil (hnone.sameLetters hletters)] at htag'
  cases htag
  cases htag'
  refine ⟨stmt', ⟨r', ?_, hstmt'⟩, hchosen'.trans hchosen.symm⟩
  rw [hs.respelled s (.refl s), hr']

/-- Where nothing is read behind a word in one spelling, every text is read so. -/
theorem exists_readAs (h : NoFixedWord s) (hr : dispatch conv fuel s = .ok r)
    (hstmt : r.stmt = some stmt) : ∃ stmt', ReadAs conv fuel s stmt' ∧ chosen stmt' = chosen stmt := by
  by_cases hdelete : startsWith s (ascii "DELETE") = true
  · have hparse := hr
    rw [dispatch_delete hdelete] at hparse
    obtain ⟨pos, -, hpos, -⟩ := parseDelete_parts hparse hstmt
    exact (delete_goesByTag hdelete hpos).exists_readAs h (h.delete hdelete pos hpos) hr hstmt
  by_cases hupdate : startsWith s (ascii "UPDATE") = true
  · have hparse := hr
    rw [dispatch_update hupdate] at hparse
    obtain ⟨pos, -, hpos, -⟩ := parseUpdate_parts hparse hstmt
    have htime : NoTimeWord s (updateWhere s) := fun pos hpos => (h.update hupdate pos hpos).2
    exact (update_goesByTag hupdate hpos htime).exists_readAs h (h.update hupdate pos hpos).1 hr hstmt
  · have hrespell : respell s = s := by
      unfold respell
      rw [h.alterTag, h.alterAlarm, h.alterUser, if_neg (by decide), if_neg (by decide),
        if_neg (by decide), if_neg hdelete, if_neg hupdate]
    refine ⟨stmt, ⟨r, ?_, hstmt⟩, rfl⟩
    rw [hrespell, hr]

end

/-- What a statement that is accepted is read from. -/
theorem accepts_iff {conv : Conversions} {sql : Bytes} {stmt : SQLStmt} :
    Accepts conv sql stmt ↔ (trim sql).isEmpty = false ∧
      ∃ r, dispatch conv (sql.length + 1) (trim sql) = .ok r ∧ r.stmt = some stmt := by
  unfold Accepts parseSql parse
  by_cases hempty : (trim sql).isEmpty = true
  · simp [hempty, ParseResult.fail]
  · simp [hempty]

/-- A statement of another operation than an `ALTER` with a property. -/
theorem operation_ne {conv : Conversions} {sql op : Bytes} {stmt : SQLStmt}
    (h : Accepts conv sql stmt) (hstarts : startsWith (trim sql) op = false) :
    getOperationName stmt ≠ op := by
  intro hop
  have hhead := h.head
  rw [hop, ← startsWith_iff, hstarts] at hhead
  cases hhead

/-- **Where nothing is read behind a word in one spelling, keywords are keywords in any case.** -/
theorem caseBlind_of_noFixedWord {conv : Conversions} {sql : Bytes} {stmt : SQLStmt}
    (h : Accepts conv sql stmt) (hfree : NoFixedWord (trim sql)) : CaseBlind conv sql stmt := by
  intro sql' hvariant
  have hs : SameLetters (trim sql) (trim sql') := hvariant.letters.trim
  obtain ⟨hne, r, hr, hstmt⟩ := accepts_iff.mp h
  obtain ⟨r', stmt', hr', hstmt', hupper⟩ := exists_sameStatement hfree hs hr hstmt
  rw [← hvariant.letters.length] at hr'
  obtain ⟨first, hfirst, hchosen⟩ := exists_readAs hfree hr hstmt
  obtain ⟨second, hsecond, hchosen'⟩ :=
    exists_readAs (noFixedWord_sameLetters hfree hs) hr' hstmt'
  have hsame : chosen stmt' = chosen stmt := by
    rw [← hchosen, ← hchosen', hvariant.chosen first second hfirst hsecond]
  refine ⟨stmt', accepts_iff.mpr ⟨?_, r', hr', hstmt'⟩, ?_⟩
  · rw [hs.isEmpty, hne]
  · apply treated_eq hupper hsame
    · rintro alter rfl
      exact operation_ne h hfree.alterTag rfl
    · rintro alter rfl
      exact operation_ne h hfree.alterAlarm rfl
    · rintro alter rfl
      exact operation_ne h hfree.alterUser rfl

end Server
end MiniTSDB
