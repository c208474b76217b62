import MiniTSDB.Sql.Cursor
import MiniTSDB.Sql.FixedWords

/-!
# The text of a statement

The statements that define, drop and alter, and `USE` and `SHOW`, as one writes them: a name behind
a keyword, properties and actions in parentheses, values in quotes with their own quotes doubled.
Each is parsed to what it was written from (`parseSql_statementText`), if its names are names and do
not contain the keyword that is looked for behind them.
-/

namespace MiniTSDB
namespace Sql

open Lib

/-! ## Texts -/

/-- `k='v'` -/
def propertyText (p : Bytes × Bytes) : Bytes := p.1 ++ equals :: quoted p.2

/-- `(k1='v1', ...)` -/
def propertiesText (properties : List (Bytes × Bytes)) : Bytes :=
  openParen :: (commaList (properties.map propertyText) ++ [closeParen])

/-- `x (k1='v1', ...)` -/
def tagDefText (d : TagDef) : Bytes := d.name ++ space :: propertiesText d.props

/-! ## Literals -/

/-- The text ends with a character that `Trim` leaves. -/
def Ends (s : Bytes) : Prop := s.getLast?.any (! isBlank ·) = true

theorem Ends.behind {s : Bytes} (h : Ends s) (front : Bytes) : Ends (front ++ s) := by
  unfold Ends at h ⊢
  rw [List.getLast?_append]
  cases hlast : s.getLast? with
  | none =>
    rw [hlast] at h
    cases h
  | some c =>
    rw [hlast] at h
    exact h

theorem Ends.cons {s : Bytes} (h : Ends s) (c : UInt8) : Ends (c :: s) := h.behind [c]

theorem ends_concat (s : Bytes) {c : UInt8} (hc : isBlank c = false) : Ends (s ++ [c]) := by
  apply Ends.behind
  rw [Ends, List.getLast?_singleton, Option.any_some, hc]
  rfl

theorem IsTableName.ends {t : Bytes} (ht : IsTableName t) : Ends t := by
  induction t using List.reverseRecOn with
  | nil => exact absurd rfl ht.nonempty
  | append_singleton s c _ =>
    exact ends_concat s (not_isBlank_of_isNameChar (ht.chars c List.mem_concat_self))

theorem Begins.tight {s : Bytes} (h : Begins s) (hends : Ends s) : Tight s := by
  obtain ⟨c, tail, rfl, hc⟩ := h
  constructor
  · rw [List.head?_cons, Option.all_some, hc.1]
    rfl
  · rw [Ends] at hends
    cases hlast : (c :: tail).getLast? with
    | none => rfl
    | some d =>
      rw [hlast] at hends
      exact hends

theorem ends_quoted (x : Bytes) : Ends (quoted x) := (ends_concat (doubleQuotes x) rfl).cons quote

theorem tight_quoted (x : Bytes) : Tight (quoted x) :=
  Begins.tight (begins_cons ⟨by decide, by decide⟩) (ends_quoted x)

theorem unquote_quoted (x : Bytes) : unquote (quoted x) = x := by
  have hat : At (quoted x) 0 (quoted x ++ []) := by
    rw [List.append_nil]
    exact At.start _
  have hfront : (quoted x).head?.any isQuote = true := rfl
  rw [unquote, if_pos hfront, hat.extractQuoted (by decide)]

theorem At.any_isQuote {sql x rest : Bytes} {pos : Nat} (h : At sql pos (quoted x ++ rest)) :
    sql[pos]?.any isQuote = true := by
  have hquote : sql[pos]? = some quote := At.getElem? h
  rw [hquote]
  rfl

theorem IsTableName.trim_space {t : Bytes} (ht : IsTableName t) : trim (t ++ [space]) = t :=
  trim_append [] [space] (fun _ hc => nomatch hc) (fun _ hc => isBlank_of_mem_space hc) ht.tight

/-! ## Properties -/

section Properties

variable {sql rest : Bytes} {pos fuel : Nat}

/-- The loop over properties reads them as they are written, whatever else may quote a value. -/
theorem parseProperties_reads {quotes : UInt8 → Bool} (hquotes : quotes quote = true)
    (beforeParen : Bool) : ReadsList (parseProperties quotes beforeParen) Prod.mk
      (fun p : Bytes × Bytes => IsTableName p.1) propertyText where
  stop h := by
    rw [parseProperties, goesOn, h.getElem?]
    rfl
  begins hp rest := by
    rw [propertyText, List.append_assoc]
    exact hp.begins _
  item := by
    intro sql rest p fuel pos items hp _ hat hend
    obtain ⟨key, value⟩ := p
    have hat : At sql pos (key ++ equals :: (quoted value ++ rest)) := by
      simpa [propertyText] using hat
    have hkey : IsTableName key := hp
    have hequals : equals ∉ key := notMem_of_chars hkey.chars (by decide)
    have hclose : closeParen ∉ key := notMem_of_chars hkey.chars (by decide)
    have hgoes : goesOn sql pos closeParen = true := by
      obtain ⟨c, tail, rfl⟩ := List.exists_cons_of_ne_nil hkey.nonempty
      exact At.goesOn hat (ne_of_isNameChar (hkey.chars c List.mem_cons_self) (by decide))
    have hbefore : (beforeParen && (findChar sql closeParen pos).any (· < pos + key.length))
        = false := by
      cases hfind : findChar sql closeParen pos with
      | none => simp
      | some i =>
        have hle := hat.le_of_findChar hclose hfind
        simp [hle]
    have hvalue : At sql (pos + key.length + 1) (quoted value ++ rest) := hat.behind.next
    have hquote : rest.head? ≠ some quote := by
      obtain ⟨c, tail, rfl, hc⟩ := hend
      rw [List.head?_cons]
      rcases hc with rfl | rfl <;> decide
    have hlen : pos + key.length + 1 + (quoted value).length
        = pos + (propertyText (key, value)).length := by
      simp only [propertyText, List.length_append, List.length_cons]
      omega
    rw [parseProperties, if_pos hgoes]
    simp only [hat.skipNothing (hkey.begins _), hat.findChar hequals, hbefore, hat.substrTo,
      hvalue.skipNothing (begins_quoted _ _), At.charAt hvalue, ok_bind, hquotes,
      hvalue.extractQuoted hquote, trim_eq hkey.tight, hlen, Bool.false_eq_true, if_false, if_true]

theorem length_propertiesText (properties : List (Bytes × Bytes)) :
    (propertiesText properties).length = (commaList (properties.map propertyText)).length + 2 := by
  simp only [propertiesText, List.length_cons, List.length_append, List.length_nil]

/-- What is left behind the parenthesis. -/
theorem At.properties {properties : List (Bytes × Bytes)}
    (h : At sql pos (propertiesText properties ++ rest)) :
    At sql (pos + 1) (commaList (properties.map propertyText) ++ closeParen :: rest) := by
  have hopen : At sql pos (openParen :: (commaList (properties.map propertyText)
      ++ closeParen :: rest)) := by
    simpa [propertiesText] using h
  exact hopen.next

theorem parseProperties_text {quotes : UInt8 → Bool} (hquotes : quotes quote = true)
    (beforeParen : Bool) {properties : List (Bytes × Bytes)}
    (hkeys : ∀ p ∈ properties, IsTableName p.1)
    (hfuel : (propertiesText properties).length ≤ fuel + 1)
    (h : At sql pos (propertiesText properties ++ rest)) :
    parseProperties quotes beforeParen sql fuel (pos + 1) []
      = .ok (properties, pos + (commaList (properties.map propertyText)).length + 1) := by
  rw [length_propertiesText] at hfuel
  rw [(parseProperties_reads hquotes beforeParen).read hkeys (by omega) h.properties,
    List.nil_append, Nat.add_right_comm]

/-- What is in the parentheses, of a tag or of a table. -/
theorem propertyList_text {quotes : UInt8 → Bool} (hquotes : quotes quote = true)
    (beforeParen : Bool) {properties : List (Bytes × Bytes)}
    (hkeys : ∀ p ∈ properties, IsTableName p.1)
    (hfuel : (propertiesText properties).length ≤ fuel + 1)
    (h : At sql pos (propertiesText properties ++ rest)) :
    propertyList quotes beforeParen fuel sql pos = .ok properties := by
  have hopen : sql[pos]? = some openParen := At.getElem? h
  rw [propertyList, if_pos hopen, parseProperties_text hquotes beforeParen hkeys hfuel h]
  rfl

end Properties

/-! ## Actions and tags -/

/-- The loop over actions. It leaves out an empty one. -/
theorem alarmActions_reads : ReadsList alarmActions (fun actions _ => actions) (· ≠ []) quoted where
  stop h := by
    rw [alarmActions, goesOn, h.getElem?]
    rfl
  begins _ rest := begins_quoted _ rest
  item := by
    intro sql rest x fuel pos items hx _ hat hend
    have hgoes : goesOn sql pos closeParen = true := At.goesOn (c := quote) hat (by decide)
    have hquote : rest.head? ≠ some quote := by
      obtain ⟨c, tail, rfl, hc⟩ := hend
      rw [List.head?_cons]
      rcases hc with rfl | rfl <;> decide
    have hnonempty : x.isEmpty = false := List.isEmpty_eq_false_iff.mpr hx
    rw [alarmActions, if_pos hgoes]
    simp only [hat.skipNothing (begins_quoted _ _), hat.extractQuoted hquote, hnonempty,
      Bool.false_eq_true, if_false]

/-- The loop over tags, each with its properties. -/
theorem createTagsLoop_reads : ReadsList createTagsLoop (fun tags _ => tags)
    (fun d : TagDef => IsTableName d.name ∧ ∀ p ∈ d.props, IsTableName p.1) tagDefText where
  stop h := by
    rw [createTagsLoop, goesOn, h.getElem?]
    rfl
  begins hd rest := by
    rw [tagDefText, List.append_assoc]
    exact hd.1.begins _
  item := by
    intro sql rest d fuel pos items hd hfuel hat hend
    obtain ⟨name, props⟩ := d
    obtain ⟨hname, hkeys⟩ := hd
    have hname : IsTableName name := hname
    have hlong : (tagDefText { name, props }).length
        = name.length + ((commaList (props.map propertyText)).length + 3) := by
      simp only [tagDefText, List.length_append, List.length_cons, length_propertiesText]
    have hat : At sql pos ((name ++ [space]) ++ (propertiesText props ++ rest)) := by
      simpa [tagDefText] using hat
    have hgoes : goesOn sql pos closeParen = true := by
      obtain ⟨c, tail, rfl⟩ := List.exists_cons_of_ne_nil hname.nonempty
      exact At.goesOn hat (ne_of_isNameChar (hname.chars c List.mem_cons_self) (by decide))
    -- a name ends at the parenthesis, so the space in front of it is read and trimmed
    have hstops : ∀ c ∈ name ++ [space],
        (decide (c = openParen) || decide (c = comma) || decide (c = closeParen)) = false := by
      intro c hc
      rcases List.mem_append.mp hc with hc | hc
      · have hopen : c ≠ openParen := ne_of_isNameChar (hname.chars c hc) (by decide)
        have hcomma : c ≠ comma := ne_of_isNameChar (hname.chars c hc) (by decide)
        have hclose : c ≠ closeParen := ne_of_isNameChar (hname.chars c hc) (by decide)
        simp [hopen, hcomma, hclose]
      · rw [List.mem_singleton.mp hc]
        decide
    have hstart : Begins ((name ++ [space]) ++ (propertiesText props ++ rest)) := by
      rw [List.append_assoc]
      exact hname.begins _
    have hbegins : Begins (propertiesText props ++ rest) := begins_cons ⟨by decide, by decide⟩
    have hopen : At sql (pos + (name ++ [space]).length) (propertiesText props ++ rest) :=
      hat.behind
    have hclose : At sql (pos + (name ++ [space]).length
        + (commaList (props.map propertyText)).length + 1) (closeParen :: rest) := by
      have hbehind := hopen.properties.behind
      rwa [Nat.add_right_comm] at hbehind
    have hprops : tagProps sql fuel (pos + (name ++ [space]).length) = .ok (props,
        pos + (tagDefText { name, props }).length) := by
      have hlt := hclose.lt_length
      have hend' : pos + (name ++ [space]).length + (commaList (props.map propertyText)).length + 1
          + 1 = pos + (tagDefText { name, props }).length := by
        rw [hlong, List.length_append, List.length_singleton]
        omega
      have hfuel' : (propertiesText props).length ≤ fuel + 1 := by
        rw [hlong] at hfuel
        rw [length_propertiesText]
        omega
      rw [tagProps, if_pos (At.getElem? hopen), parseProperties_text rfl false hkeys hfuel' hopen,
        ok_bind]
      dsimp only
      rw [if_pos hlt, hend']
      rfl
    rw [createTagsLoop, if_pos hgoes]
    simp only [hat.skipNothing hstart, At.skipUntil hat hstops rfl, hat.substrTo, ok_bind,
      hname.trim_space, hopen.skipNothing hbegins, hprops, if_neg (ne_comma_skipWhitespace _ _)]


/-! ## Statements with a name -/

section Names

variable {name rest : Bytes}

/-- Behind a keyword there is a space, and then the next word. -/
theorem skip_afterKeyword {sql kw : Bytes} (hsql : sql = kw ++ space :: rest)
    (hupper : toUpper kw = kw) (hlen : kw.length < 2 ^ 64) (hrest : Begins rest) :
    At sql (skipWhitespace sql (afterKeyword sql kw)) rest := by
  subst hsql
  have hat := At.afterKeyword hupper hlen (space :: rest)
  rw [hat.skipSpace hrest]
  exact hat.next

theorem nameBehind_text {kw : Bytes} (hupper : toUpper kw = kw) (hlen : kw.length < 2 ^ 64)
    (hrest : Begins rest) (htight : Tight rest) :
    nameBehind (kw ++ space :: rest) kw = .ok rest := by
  rw [nameBehind, (skip_afterKeyword rfl hupper hlen hrest).substr, ok_bind, trim_eq htight]
  rfl

theorem IsTableName.begins_self (h : IsTableName name) : Begins name := by
  have hbegins := h.begins []
  rwa [List.append_nil] at hbegins

theorem nameBehind_name {kw : Bytes} (hupper : toUpper kw = kw) (hlen : kw.length < 2 ^ 64)
    (hname : IsTableName name) : nameBehind (kw ++ space :: name) kw = .ok name :=
  nameBehind_text hupper hlen hname.begins_self hname.tight

/-- The statements that have nothing but a name. -/
theorem parse_name {sql kw : Bytes} {build : Bytes → SQLStmt} (hsql : sql = kw ++ space :: name)
    (hupper : toUpper kw = kw) (hlen : kw.length < 2 ^ 64) (hname : IsTableName name) :
    (do return .success (build (← nameBehind sql kw)) : Parsing ParseResult)
      = .ok (.success (build name)) := by
  rw [hsql, nameBehind_name hupper hlen hname]
  rfl

end Names

/-! ## The texts -/

/-- `SHOW ...` -/
def showText (stmt : ShowStmt) : Bytes :=
  match stmt.type with
  | .databases => ascii "SHOW DATABASES"
  | .users => ascii "SHOW USERS"
  | .alarms => ascii "SHOW ALARMS"
  | .tables =>
    if stmt.filterDb = [] then ascii "SHOW TABLES"
    else ascii "SHOW TABLES FROM" ++ space :: stmt.filterDb
  | .tags =>
    if stmt.filterTable = [] then ascii "SHOW TAGS"
    else if stmt.pattern = [] then ascii "SHOW TAGS FROM" ++ space :: stmt.filterTable
    else ascii "SHOW TAGS FROM" ++ space :: (stmt.filterTable ++ (ascii " LIKE "
      ++ quote :: (stmt.pattern ++ [quote])))

/-- The statement, as it is written. -/
def statementText : SQLStmt → Bytes
  | .createDatabase db => ascii "CREATE DATABASE" ++ space :: db
  | .createTable stmt => ascii "CREATE TABLE" ++ space :: (stmt.tableName
      ++ space :: propertiesText stmt.properties)
  | .createTags stmt => ascii "CREATE TAGS" ++ space :: (ascii "IN TABLE" ++ space
      :: (stmt.tableName ++ space :: openParen :: (commaList (stmt.tags.map tagDefText)
        ++ [closeParen])))
  | .createTag stmt => ascii "CREATE TAG" ++ space :: (stmt.tagName
      ++ space :: propertiesText stmt.properties)
  | .createAlarm stmt => ascii "CREATE ALARM" ++ space :: (stmt.alarmName ++ space :: (ascii "ON"
      ++ space :: (stmt.tagName ++ space :: (ascii "WHEN" ++ space :: (stmt.condition
        ++ space :: (ascii "THEN" ++ space :: (ascii "ACTION" ++ openParen
          :: (commaList (stmt.actions.map quoted) ++ [closeParen]))))))))
  | .createUser stmt => ascii "CREATE USER" ++ space :: (stmt.username ++ space :: (ascii "WITH"
      ++ space :: (ascii "PASSWORD" ++ space :: (quoted stmt.password ++ space :: (ascii "ROLE"
        ++ space :: quoted stmt.role)))))
  | .alterSystem stmt => ascii "ALTER SYSTEM SET" ++ space :: (stmt.key ++ equals
      :: quoted stmt.value)
  | .dropTag stmt => ascii "DROP TAG" ++ space :: (if stmt.tableName = [] then stmt.tagName
      else stmt.tableName ++ dot :: stmt.tagName)
  | .dropAlarm name => ascii "DROP ALARM" ++ space :: name
  | .dropUser name => ascii "DROP USER" ++ space :: name
  | .dropTable name => ascii "DROP TABLE" ++ space :: name
  | .dropDatabase name => ascii "DROP DATABASE" ++ space :: name
  | .use db => ascii "USE" ++ space :: db
  | .alterTag stmt => ascii "ALTER TAG" ++ space :: (stmt.tableName ++ dot :: (stmt.tagName
      ++ (ascii " SET " ++ (stmt.property ++ equals :: quote :: (stmt.value ++ [quote])))))
  | .alterAlarm stmt => ascii "ALTER ALARM" ++ space :: (stmt.name ++ (ascii " SET "
      ++ (stmt.property ++ equals :: quoted stmt.value)))
  | .alterUser stmt => ascii "ALTER USER" ++ space :: (stmt.name ++ (ascii " SET "
      ++ (stmt.property ++ space :: quoted stmt.value)))
  | .show_ stmt => showText stmt
  | .insert _ => []
  | .select _ => []
  | .delete _ => []
  | .update _ => []

/-- What a `SHOW` can ask for. -/
def ShowStmt.Writable (stmt : ShowStmt) : Prop :=
  match stmt.type with
  | .databases => stmt.filterDb = [] ∧ stmt.filterTable = [] ∧ stmt.pattern = []
  | .users => stmt.filterDb = [] ∧ stmt.filterTable = [] ∧ stmt.pattern = []
  | .alarms => stmt.filterDb = [] ∧ stmt.filterTable = [] ∧ stmt.pattern = []
  | .tables => (stmt.filterDb = [] ∨ IsTableName stmt.filterDb) ∧ stmt.filterTable = [] ∧
      stmt.pattern = []
  | .tags => stmt.filterDb = [] ∧ (stmt.filterTable = [] ∧ stmt.pattern = [] ∨
      IsTableName stmt.filterTable ∧ ¬ Mentions stmt.filterTable (ascii "LIKE"))

/-- The names are names; what is looked for behind a name is not in it, nor `THEN` in a condition;
and what would be replaced by a default, or left out, is not empty. -/
def SQLStmt.Writable : SQLStmt → Prop
  | .createDatabase name => IsTableName name
  | .createTable stmt => IsTableName stmt.tableName ∧ ∀ p ∈ stmt.properties, IsTableName p.1
  | .createTags stmt => IsTableName stmt.tableName ∧
      ∀ d ∈ stmt.tags, IsTableName d.name ∧ ∀ p ∈ d.props, IsTableName p.1
  | .createTag stmt => IsTableName stmt.tagName ∧ ∀ p ∈ stmt.properties, IsTableName p.1
  | .createAlarm stmt => IsTableName stmt.alarmName ∧ IsTableName stmt.tagName ∧
      ¬ Mentions stmt.tagName (ascii "WHEN") ∧ Begins stmt.condition ∧ Tight stmt.condition ∧
        ¬ Mentions stmt.condition (ascii "THEN") ∧ ∀ a ∈ stmt.actions, a ≠ []
  | .createUser stmt => IsTableName stmt.username ∧ stmt.password ≠ [] ∧ stmt.role ≠ []
  | .alterSystem stmt => IsTableName stmt.key
  | .dropTag stmt => (stmt.tableName = [] ∨ IsTableName stmt.tableName) ∧ IsTableName stmt.tagName
  | .dropAlarm name => IsTableName name
  | .dropUser name => IsTableName name
  | .dropTable name => IsTableName name
  | .dropDatabase name => IsTableName name
  | .use name => IsTableName name
  | .alterTag stmt => IsTableName stmt.tableName ∧ IsTableName stmt.tagName ∧
      IsTableName stmt.property
  | .alterAlarm stmt => IsTableName stmt.name ∧ IsTableName stmt.property
  | .alterUser stmt => IsTableName stmt.name ∧ IsTableName stmt.property
  | .show_ stmt => stmt.Writable
  | .insert _ => False
  | .select _ => False
  | .delete _ => False
  | .update _ => False

/-! ## What is parsed -/

section Parse

variable {fuel : Nat}

/-- A name in front of a space. -/
theorem not_space {t : Bytes} (ht : IsTableName t) : ∀ c ∈ t, decide (c = space) = false := by
  intro c hc
  have hspace : c ≠ space := ne_of_isNameChar (ht.chars c hc) (by decide)
  simp [hspace]

theorem not_space_or_paren {t : Bytes} (ht : IsTableName t) :
    ∀ c ∈ t, (decide (c = space) || decide (c = openParen)) = false := by
  intro c hc
  have hopen : c ≠ openParen := ne_of_isNameChar (ht.chars c hc) (by decide)
  simp [not_space ht c hc, hopen]

theorem parseCreateTable_text {stmt : CreateTableStmt} (h : SQLStmt.Writable (.createTable stmt))
    (hfuel : (statementText (.createTable stmt)).length ≤ fuel) :
    parseCreateTable fuel (statementText (.createTable stmt))
      = .ok (.success (.createTable stmt)) := by
  obtain ⟨ht, hkeys⟩ := h
  have hat := skip_afterKeyword (show statementText (.createTable stmt)
    = ascii "CREATE TABLE" ++ space :: _ from rfl) rfl (by decide) (ht.begins _)
  unfold parseCreateTable
  generalize statementText (.createTable stmt) = sql at hat hfuel ⊢
  generalize skipWhitespace sql (afterKeyword sql (ascii "CREATE TABLE")) = pos at hat ⊢
  have hprops : At sql (pos + stmt.tableName.length + 1)
      (propertiesText stmt.properties ++ []) := by
    rw [List.append_nil]
    exact hat.behind.next
  have hlong : (propertiesText stmt.properties).length ≤ fuel + 1 := by
    have hle := hat.behind.next.length_le
    omega
  have hlist : propertyList (fun c => decide (c = quote)) true fuel sql
      (pos + stmt.tableName.length + 1) = .ok stmt.properties :=
    propertyList_text rfl true hkeys hlong hprops
  simp only [At.skipUntil hat (not_space_or_paren ht) rfl, hat.substrTo, ok_bind, trim_eq ht.tight,
    hat.behind.skipSpace (begins_cons ⟨by decide, by decide⟩), hlist]
  rfl

theorem parseCreateTag_text {stmt : CreateTagStmt} (h : SQLStmt.Writable (.createTag stmt))
    (hfuel : (statementText (.createTag stmt)).length ≤ fuel) :
    parseCreateTag fuel (statementText (.createTag stmt)) = .ok (.success (.createTag stmt)) := by
  obtain ⟨hx, hkeys⟩ := h
  have hat := skip_afterKeyword (show statementText (.createTag stmt)
    = ascii "CREATE TAG" ++ space :: _ from rfl) rfl (by decide) (hx.begins _)
  unfold parseCreateTag
  generalize statementText (.createTag stmt) = sql at hat hfuel ⊢
  generalize skipWhitespace sql (afterKeyword sql (ascii "CREATE TAG")) = pos at hat ⊢
  have hprops : At sql (pos + stmt.tagName.length + 1) (propertiesText stmt.properties ++ []) := by
    rw [List.append_nil]
    exact hat.behind.next
  have hlong : (propertiesText stmt.properties).length ≤ fuel + 1 := by
    have hle := hat.behind.next.length_le
    omega
  have hlist : propertyList isQuote false fuel sql (pos + stmt.tagName.length + 1)
      = .ok stmt.properties := propertyList_text rfl false hkeys hlong hprops
  simp only [At.skipUntil hat (not_space_or_paren hx) rfl, hat.substrTo, ok_bind,
    hat.behind.skipSpace (begins_cons ⟨by decide, by decide⟩), hlist]
  rfl

theorem parseCreateTags_text {stmt : CreateTagsStmt} (h : SQLStmt.Writable (.createTags stmt))
    (hfuel : (statementText (.createTags stmt)).length ≤ fuel) :
    parseCreateTags fuel (statementText (.createTags stmt))
      = .ok (.success (.createTags stmt)) := by
  obtain ⟨ht, htags⟩ := h
  have hat := skip_afterKeyword (show statementText (.createTags stmt)
    = ascii "CREATE TAGS" ++ space :: _ from rfl) rfl (by decide)
    (begins_cons ⟨by decide, by decide⟩)
  unfold parseCreateTags
  generalize statementText (.createTags stmt) = sql at hat hfuel ⊢
  generalize skipWhitespace sql (afterKeyword sql (ascii "CREATE TAGS")) = pos at hat ⊢
  have hin : findFrom (toUpper sql) (ascii "IN TABLE") pos = some pos :=
    (At.findKeyword_next hat : findKeyword sql (ascii "IN TABLE") pos = some pos)
  have hbehind : At sql (pos + 8) (space :: (stmt.tableName ++ space :: openParen
      :: (commaList (stmt.tags.map tagDefText) ++ [closeParen]))) :=
    At.behind (x := ascii "IN TABLE") hat
  have hname : At sql (pos + 8 + 1) ((stmt.tableName ++ [space]) ++ openParen
      :: (commaList (stmt.tags.map tagDefText) ++ [closeParen])) := by
    simpa using hbehind.next
  have hnone : openParen ∉ stmt.tableName ++ [space] := by
    rw [List.mem_append, not_or]
    exact ⟨notMem_of_chars ht.chars (by decide), by decide⟩
  have hlong : (commaList (stmt.tags.map tagDefText)).length < fuel := by
    have hle := hname.behind.next.length_le
    rw [List.length_append, List.length_singleton] at hle
    omega
  simp only [hin, hbehind.skipSpace (ht.begins _), hname.findChar hnone, hname.substrTo, ok_bind,
    ht.trim_space, createTagsLoop_reads.read htags hlong hname.behind.next, List.nil_append]
  rfl

/-- The actions behind a `THEN`. -/
theorem alarmActionList_text {sql : Bytes} {pos : Nat} {actions : List Bytes}
    (hactions : ∀ a ∈ actions, a ≠ []) (hfuel : sql.length ≤ fuel)
    (h : At sql pos (ascii "THEN" ++ space :: (ascii "ACTION" ++ openParen
      :: (commaList (actions.map quoted) ++ [closeParen])))) :
    alarmActionList fuel sql pos = .ok actions := by
  have haction : findKeyword sql (ascii "ACTION") pos = some (pos + 4 + 1) :=
    At.findKeyword_front h (by decide) (by decide) rfl (by decide)
  have hword : At sql (pos + 4 + 1) _ := h.behind.next
  have hopen : findChar sql openParen (pos + 4 + 1) = some (pos + 4 + 1 + 6) :=
    At.findChar hword (by decide)
  have hlist : At sql (pos + 4 + 1 + 6 + 1) _ := hword.behind.next
  have hlong : (commaList (actions.map quoted)).length < fuel := by
    have hle := hlist.length_le
    rw [List.length_append, List.length_singleton] at hle
    omega
  unfold alarmActionList
  rw [haction]
  dsimp only
  rw [hopen]
  exact alarmActions_reads.read hactions hlong hlist

theorem parseCreateAlarm_text {stmt : CreateAlarmStmt} (h : SQLStmt.Writable (.createAlarm stmt))
    (hfuel : (statementText (.createAlarm stmt)).length ≤ fuel) :
    parseCreateAlarm fuel (statementText (.createAlarm stmt))
      = .ok (.success (.createAlarm stmt)) := by
  obtain ⟨hname, hx, hwhen, hbegins, htight, hthen, hactions⟩ := h
  have hat := skip_afterKeyword (show statementText (.createAlarm stmt)
    = ascii "CREATE ALARM" ++ space :: _ from rfl) rfl (by decide) (hname.begins _)
  unfold parseCreateAlarm
  generalize statementText (.createAlarm stmt) = sql at hat hfuel ⊢
  generalize skipWhitespace sql (afterKeyword sql (ascii "CREATE ALARM")) = pos at hat ⊢
  have hword : Begins (ascii "ON" ++ space :: (stmt.tagName ++ space :: (ascii "WHEN" ++ space
      :: (stmt.condition ++ space :: (ascii "THEN" ++ space :: (ascii "ACTION" ++ openParen
        :: (commaList (stmt.actions.map quoted) ++ [closeParen]))))))) :=
    begins_cons ⟨by decide, by decide⟩
  -- `ON` comes next behind the name
  have hon := hat.behind.next
  have hfound : findKeyword sql (ascii "ON") (pos + stmt.alarmName.length + 1) = some _ :=
    hon.findKeyword_next
  -- the tag is read, but `WHEN` is looked for from its beginning
  have hspace : At sql (pos + stmt.alarmName.length + 1 + 2) _ := hon.behind
  have htag := hspace.next
  have hfound' := htag.findKeyword_front (by decide) (by decide) rfl hwhen
  have hspace' : At sql (pos + stmt.alarmName.length + 1 + 2 + 1 + stmt.tagName.length + 1 + 4) _ :=
    htag.behind.next.behind
  have hcond := hspace'.next
  have hfound'' := hcond.findKeyword_front (by decide) (by decide) rfl hthen
  have hlist := alarmActionList_text hactions hfuel hcond.behind.next
  have hbegins' : Begins (stmt.condition ++ space :: (ascii "THEN" ++ space :: (ascii "ACTION"
      ++ openParen :: (commaList (stmt.actions.map quoted) ++ [closeParen])))) := by
    obtain ⟨c, tail, hcons, hc⟩ := hbegins
    rw [hcons]
    exact begins_cons hc
  have hcond' : At sql (pos + stmt.alarmName.length + 1 + 2 + 1 + stmt.tagName.length + 1 + 4 + 1)
      ((stmt.condition ++ [space]) ++ (ascii "THEN" ++ space :: (ascii "ACTION"
        ++ openParen :: (commaList (stmt.actions.map quoted) ++ [closeParen])))) := by
    simpa using hcond
  have hcut := hcond'.substrTo
  rw [List.length_append, List.length_singleton, ← Nat.add_assoc] at hcut
  have htrim : trim (stmt.condition ++ [space]) = stmt.condition :=
    trim_append [] [space] (fun _ hc => nomatch hc) (fun _ hc => isBlank_of_mem_space hc) htight
  simp only [At.skipUntil hat (not_space hname) rfl, hat.substrTo, ok_bind,
    hat.behind.skipSpace hword, hfound, hspace.skipSpace (hx.begins _),
    At.skipUntil htag (not_space hx) rfl, htag.substrTo, hfound', hspace'.skipSpace hbegins',
    hfound'', hcut, hlist, htrim]
  rfl

theorem parseCreateUser_text {stmt : CreateUserStmt} (h : SQLStmt.Writable (.createUser stmt)) :
    parseCreateUser (statementText (.createUser stmt)) = .ok (.success (.createUser stmt)) := by
  obtain ⟨hname, hpassword, hrole⟩ := h
  have hat := skip_afterKeyword (show statementText (.createUser stmt)
    = ascii "CREATE USER" ++ space :: _ from rfl) rfl (by decide) (hname.begins _)
  unfold parseCreateUser
  generalize statementText (.createUser stmt) = sql at hat ⊢
  generalize skipWhitespace sql (afterKeyword sql (ascii "CREATE USER")) = pos at hat ⊢
  have hwith := hat.behind.next
  generalize hpos₁ : pos + stmt.username.length + 1 = pos₁ at hwith
  have hfound : findKeyword sql (ascii "PASSWORD") pos₁ = some (pos₁ + 4 + 1) :=
    At.findKeyword_front hwith (by decide) (by decide) rfl (by decide)
  have hspace : At sql (pos₁ + 4 + 1 + 8) _ := hwith.behind.next.behind
  have hliteral := hspace.next
  have hpass : userPassword sql pos₁
      = (stmt.password, pos₁ + 4 + 1 + 8 + 1 + (quoted stmt.password).length) := by
    unfold userPassword
    rw [hfound]
    dsimp only
    rw [hspace.skipSpace (begins_quoted _ _), hliteral.any_isQuote, if_pos rfl,
      hliteral.extractQuoted fun hhead => absurd (Option.some.inj hhead) (by decide)]
  have hblank := hliteral.behind
  generalize pos₁ + 4 + 1 + 8 + 1 + (quoted stmt.password).length = pos₂ at hpass hblank
  have hword := hblank.next
  have hfound' : findKeyword sql (ascii "ROLE") pos₂ = some (pos₂ + 1) :=
    At.findKeyword_front (t := []) hblank (by decide) (by decide) rfl (by decide)
  have hspace' : At sql (pos₂ + 1 + 4) _ := hword.behind
  have hliteral' : At sql (pos₂ + 1 + 4 + 1) (quoted stmt.role ++ []) := by
    rw [List.append_nil]
    exact hspace'.next
  have hrole' : userRole sql pos₂ = .ok stmt.role := by
    unfold userRole
    rw [hfound']
    dsimp only
    rw [hspace'.skipSpace (begins_cons ⟨by decide, by decide⟩), hliteral'.any_isQuote, if_pos rfl,
      hliteral'.extractQuoted (by decide)]
  have hwords : Begins (ascii "WITH" ++ space :: (ascii "PASSWORD" ++ space
      :: (quoted stmt.password ++ space :: (ascii "ROLE" ++ space :: quoted stmt.role)))) :=
    begins_cons ⟨by decide, by decide⟩
  have hsome : stmt.password.isEmpty = false := List.isEmpty_eq_false_iff.mpr hpassword
  have hsome' : stmt.role.isEmpty = false := List.isEmpty_eq_false_iff.mpr hrole
  simp only [At.skipUntil hat (not_space hname) rfl, hat.substrTo, ok_bind,
    hat.behind.skipSpace hwords, hpos₁, hpass, hrole', hsome, hsome', Bool.false_eq_true, if_false]
  rfl

theorem parseAlterSystem_text {stmt : AlterSystemStmt} (h : SQLStmt.Writable (.alterSystem stmt)) :
    parseAlterSystem (statementText (.alterSystem stmt)) = .ok (.success (.alterSystem stmt)) := by
  have hkey : IsTableName stmt.key := h
  have hset : findKeyword (statementText (.alterSystem stmt)) (ascii "SET") 0 = some 13 := by
    have hfind : find (ascii "SET") (toUpper (statementText (.alterSystem stmt))) = some 13 := by
      rw [statementText, toUpper_append]
      exact find_append_of_find _ (by decide)
    rw [findKeyword, findFrom, List.drop_zero]
    exact congrArg (Option.map (· + 0)) hfind
  have hspace : At (statementText (.alterSystem stmt)) 16 (space :: (stmt.key ++ equals
      :: quoted stmt.value)) := ⟨ascii "ALTER SYSTEM SET", rfl, rfl⟩
  have hat := hspace.next
  have hequals : equals ∉ stmt.key := notMem_of_chars hkey.chars (by decide)
  have hvalue : At (statementText (.alterSystem stmt)) (17 + stmt.key.length + 1)
      (quoted stmt.value) := hat.behind.next
  have htight : trim (quoted stmt.value) = quoted stmt.value := trim_eq (tight_quoted stmt.value)
  have hread : unquote (quoted stmt.value) = stmt.value := unquote_quoted stmt.value
  unfold parseAlterSystem
  simp only [hset, hspace.skipSpace (hkey.begins _), hat.findChar hequals, hat.substrTo,
    hvalue.substr, ok_bind, trim_eq hkey.tight, htight, hread]
  rfl

/-- `SET` comes behind the name. -/
theorem find_set {name : Bytes} (h : space ∉ name) (rest : Bytes) :
    find (ascii " SET ") (name ++ (ascii " SET " ++ rest)) = some name.length := by
  apply find_at_place rest (by decide)
  intro hin
  have hcount : (ascii " SET ").count space ≤ (name ++ ascii " SET").count space :=
    hin.sublist.count_le space
  rw [List.count_append, List.count_eq_zero_of_not_mem h] at hcount
  exact absurd hcount (by decide)

theorem parseAlterAlarm_text {stmt : AlterStmt} (h : SQLStmt.Writable (.alterAlarm stmt)) :
    parseAlterAlarm (statementText (.alterAlarm stmt)) = .ok (.success (.alterAlarm stmt)) := by
  obtain ⟨hname, hproperty⟩ := h
  have hat := skip_afterKeyword (show statementText (.alterAlarm stmt)
    = ascii "ALTER ALARM" ++ space :: _ from rfl) rfl (by decide) (hname.begins _)
  unfold parseAlterAlarm
  generalize statementText (.alterAlarm stmt) = sql at hat ⊢
  generalize skipWhitespace sql (afterKeyword sql (ascii "ALTER ALARM")) = pos at hat ⊢
  have hset := hat.findFrom (find_set (notMem_of_chars hname.chars (by decide)) _)
  have hprop : At sql (pos + stmt.name.length + 5) (stmt.property ++ equals
      :: quoted stmt.value) := hat.behind.behind
  have hequals := hprop.findChar (notMem_of_chars hproperty.chars (by decide))
  have hliteral : At sql (pos + stmt.name.length + 5 + stmt.property.length + 1)
      (quoted stmt.value ++ []) := by
    rw [List.append_nil]
    exact hprop.behind.next
  have hvalue : alarmValue sql (pos + stmt.name.length + 5 + stmt.property.length + 1)
      = .ok stmt.value := by
    rw [alarmValue, At.charAt hliteral, ok_bind, if_pos rfl, hliteral.extractQuoted (by decide)]
    rfl
  simp only [hset, hat.substrTo, ok_bind, trim_eq hname.tight,
    hprop.skipNothing (hproperty.begins _), hequals, hprop.substrTo, trim_eq hproperty.tight,
    hliteral.skipNothing (begins_quoted _ _), hvalue]
  rfl

theorem parseAlterUser_text {stmt : AlterStmt} (h : SQLStmt.Writable (.alterUser stmt)) :
    parseAlterUser (statementText (.alterUser stmt)) = .ok (.success (.alterUser stmt)) := by
  obtain ⟨hname, hproperty⟩ := h
  have hat := skip_afterKeyword (show statementText (.alterUser stmt)
    = ascii "ALTER USER" ++ space :: _ from rfl) rfl (by decide) (hname.begins _)
  unfold parseAlterUser
  generalize statementText (.alterUser stmt) = sql at hat ⊢
  generalize skipWhitespace sql (afterKeyword sql (ascii "ALTER USER")) = pos at hat ⊢
  have hset := hat.findFrom (find_set (notMem_of_chars hname.chars (by decide)) _)
  have hprop : At sql (pos + stmt.name.length + 5) (stmt.property ++ space
      :: quoted stmt.value) := hat.behind.behind
  have hprop' : At sql (pos + stmt.name.length + 5)
      ((stmt.property ++ [space]) ++ (quoted stmt.value ++ [])) := by
    simpa using hprop
  have hnone : quote ∉ stmt.property ++ [space] := by
    rw [List.mem_append, not_or]
    exact ⟨notMem_of_chars hproperty.chars (by decide), by decide⟩
  have hquote : findChar sql quote (pos + stmt.name.length + 5)
      = some (pos + stmt.name.length + 5 + (stmt.property ++ [space]).length) :=
    At.findChar hprop' hnone
  simp only [hset, hat.substrTo, ok_bind, trim_eq hname.tight,
    hprop.skipNothing (hproperty.begins _), hquote, hprop'.substrTo, hproperty.trim_space,
    hprop'.behind.extractQuoted (by decide)]
  rfl

theorem innerPart_quoted (x : Bytes) : innerPart (quote :: (x ++ [quote])) = .ok x := by
  have hrest : substr (quote :: (x ++ [quote])) 1 = .ok (x ++ [quote]) :=
    (At.start (quote :: (x ++ [quote]))).next.substr
  have hlen : (quote :: (x ++ [quote])).length = x.length + 2 := by simp
  rw [innerPart, hrest, ok_bind, hlen, if_neg (by omega), Nat.add_sub_cancel, List.take_left]
  rfl

theorem parseAlterTag_text {stmt : AlterTagStmt} (h : SQLStmt.Writable (.alterTag stmt)) :
    parseAlterTag (statementText (.alterTag stmt)) = .ok (.success (.alterTag stmt)) := by
  obtain ⟨ht, hx, hproperty⟩ := h
  have hvalue : Ends (quote :: (stmt.value ++ [quote])) := (ends_concat stmt.value rfl).cons quote
  have hprop : Ends (stmt.property ++ equals :: quote :: (stmt.value ++ [quote])) :=
    (hvalue.cons equals).behind _
  have hset := (hprop.behind (ascii " SET ")).behind stmt.tagName
  have hrest := (hset.cons dot).behind stmt.tableName
  have hbehind : nameBehind (statementText (.alterTag stmt)) (ascii "ALTER TAG") = .ok _ :=
    nameBehind_text rfl (by decide) (ht.begins _) ((ht.begins _).tight hrest)
  -- what is left is taken apart from its own beginning
  have hat := At.start (stmt.tableName ++ dot :: (stmt.tagName ++ (ascii " SET "
    ++ (stmt.property ++ equals :: quote :: (stmt.value ++ [quote])))))
  have hat' := At.start (stmt.tagName ++ (ascii " SET "
    ++ (stmt.property ++ equals :: quote :: (stmt.value ++ [quote]))))
  have hat'' := At.start (stmt.property ++ equals :: quote :: (stmt.value ++ [quote]))
  have hdot := hat.findChar (notMem_of_chars ht.chars (by decide))
  have hfound := hat'.findFrom (find_set (notMem_of_chars hx.chars (by decide)) _)
  have hequals := hat''.findChar (notMem_of_chars hproperty.chars (by decide))
  have hbehind' : substr (stmt.tagName ++ (ascii " SET " ++ (stmt.property ++ equals :: quote
      :: (stmt.value ++ [quote])))) (0 + stmt.tagName.length + 5) = .ok _ :=
    hat'.behind.behind.substr
  have hhead : (quote :: (stmt.value ++ [quote])).head? = some quote := rfl
  unfold parseAlterTag
  simp only [hbehind, hdot, hat.substrTo, hat.behind.next.substr, ok_bind, trim_eq ht.tight,
    trim_eq ((hx.begins _).tight hset), hfound, hat'.substrTo, hbehind', trim_eq hx.tight,
    trim_eq ((hproperty.begins _).tight hprop), hequals, hat''.substrTo, hat''.behind.next.substr,
    trim_eq hproperty.tight,
    trim_eq (Begins.tight (begins_cons ⟨by decide, by decide⟩) hvalue), hhead, if_true,
    innerPart_quoted]
  rfl

theorem parseDropTag_text {stmt : DropTagStmt} (h : SQLStmt.Writable (.dropTag stmt)) :
    parseDropTag (statementText (.dropTag stmt)) = .ok (.success (.dropTag stmt)) := by
  obtain ⟨t, x⟩ := stmt
  obtain ⟨ht, hx⟩ := h
  have hx : IsTableName x := hx
  rcases ht with hnil | ht
  · have hnil : t = [] := hnil
    subst hnil
    have hbehind : nameBehind (statementText (.dropTag { tableName := [], tagName := x }))
        (ascii "DROP TAG") = .ok x := nameBehind_name rfl (by decide) hx
    have hnone : findChar x dot 0 = none := by
      rw [findChar, findFrom, List.drop_zero, find_eq_none_iff.mpr]
      · rfl
      · intro hin
        exact notMem_of_chars hx.chars (c := dot) (by decide)
          (List.singleton_sublist.mp hin.sublist)
    unfold parseDropTag
    rw [hbehind, ok_bind, hnone]
    rfl
  · have ht : IsTableName t := ht
    have htext : statementText (.dropTag { tableName := t, tagName := x })
        = ascii "DROP TAG" ++ space :: (t ++ dot :: x) := by
      rw [statementText, if_neg ht.nonempty]
    have hbehind : nameBehind (ascii "DROP TAG" ++ space :: (t ++ dot :: x)) (ascii "DROP TAG")
        = .ok (t ++ dot :: x) :=
      nameBehind_text rfl (by decide) (ht.begins _)
        ((ht.begins _).tight ((hx.ends.cons dot).behind t))
    have hat := At.start (t ++ dot :: x)
    have hdot := hat.findChar (notMem_of_chars ht.chars (by decide))
    unfold parseDropTag
    rw [htext]
    simp only [hbehind, ok_bind, hdot, hat.substrTo, hat.behind.next.substr, trim_eq ht.tight,
      trim_eq hx.tight]
    rfl

/-! ### `SHOW` -/

/-- What is left behind a `FROM`. -/
theorem At.afterFrom {front : Bytes} {n : Nat}
    (hfront : find (ascii "FROM") (toUpper front) = some n) (hlen : n + 4 = front.length)
    (hlong : front.length < 2 ^ 64) (rest : Bytes) :
    At (front ++ rest) (afterFrom (front ++ rest)) rest := by
  have hfind : find (ascii "FROM") (toUpper (front ++ rest)) = some n := by
    rw [toUpper_append]
    exact find_append_of_find _ hfront
  rw [Sql.afterFrom, Sql.findFrom, List.drop_zero, hfind, Option.map_some, Option.getD_some,
    Nat.add_zero, hlen, Nat.mod_eq_of_lt hlong]
  exact ⟨front, rfl, rfl⟩

theorem trim_space_name {t : Bytes} (ht : IsTableName t) : trim (space :: t) = t := by
  have htrim := trim_append [space] [] (fun _ hc => isBlank_of_mem_space hc)
    (fun _ hc => nomatch hc) ht.tight
  rwa [List.append_nil] at htrim

/-- A keyword that is not in a name is not in it with a space in front. -/
theorem not_mentions_space {t kw : Bytes} (hsep : space ∉ kw) (hne : kw ≠ [])
    (h : ¬ Mentions t kw) : ¬ Mentions (space :: t) kw := by
  intro hin
  rcases List.infix_cons_iff.mp hin with hfront | hin
  · obtain ⟨c, tail, rfl⟩ := List.exists_cons_of_ne_nil hne
    have hc : c = space := (List.cons_prefix_cons.mp hfront).1
    exact hsep (hc ▸ List.mem_cons_self)
  · exact h hin

theorem startsWith_text {sql kw rest : Bytes} (hsql : sql = kw ++ rest) (hupper : toUpper kw = kw) :
    startsWith sql kw = true := by
  rw [startsWith_iff, hsql, toUpper_append, hupper]
  exact List.prefix_append _ _

theorem parseShow_tablesFrom {db : Bytes} (hdb : IsTableName db) :
    parseShow (ascii "SHOW TABLES FROM" ++ space :: db)
      = .ok (.success (.show_ { type := .tables, filterDb := db })) := by
  have hstarts : startsWith (ascii "SHOW TABLES FROM" ++ space :: db) (ascii "SHOW TABLES FROM")
      = true := startsWith_text rfl rfl
  have hat : At (ascii "SHOW TABLES FROM" ++ space :: db) _ (space :: db) :=
    At.afterFrom (n := 12) (by decide) rfl (by decide) (space :: db)
  unfold parseShow
  rw [if_neg (by rw [startsWith_eq_false hstarts (by decide)]; decide), if_pos hstarts, hat.substr,
    ok_bind, trim_space_name hdb]
  rfl

theorem parseShow_tagsFrom {t : Bytes} (ht : IsTableName t)
    (hlike : ¬ Mentions t (ascii "LIKE")) (pattern : Bytes) :
    parseShow (showText { type := .tags, filterTable := t, pattern := pattern })
      = .ok (.success (.show_ { type := .tags, filterTable := t, pattern := pattern })) := by
  have hnot : ¬ Mentions (space :: t) (ascii "LIKE") :=
    not_mentions_space (by decide) (by decide) hlike
  have htail : ∃ tail, showText { type := .tags, filterTable := t, pattern := pattern }
      = ascii "SHOW TAGS FROM" ++ space :: (t ++ tail) ∧
        tail = if pattern = [] then [] else ascii " LIKE " ++ quote :: (pattern ++ [quote]) := by
    refine ⟨_, ?_, rfl⟩
    unfold showText
    dsimp only
    rw [if_neg ht.nonempty]
    split
    · rw [List.append_nil]
    · rfl
  obtain ⟨tail, htext, htail⟩ := htail
  rw [htext]
  have hstarts : startsWith (ascii "SHOW TAGS FROM" ++ space :: (t ++ tail))
      (ascii "SHOW TAGS FROM") = true := startsWith_text rfl rfl
  have hat : At (ascii "SHOW TAGS FROM" ++ space :: (t ++ tail)) _ (space :: (t ++ tail)) :=
    At.afterFrom (n := 10) (by decide) rfl (by decide) _
  unfold parseShow
  rw [if_neg (by rw [startsWith_eq_false hstarts (by decide)]; decide),
    if_neg (by rw [startsWith_eq_false hstarts (by decide)]; decide),
    if_neg (by rw [startsWith_eq_false hstarts (by decide)]; decide), if_pos hstarts]
  generalize ascii "SHOW TAGS FROM" ++ space :: (t ++ tail) = sql at hat ⊢
  generalize afterFrom sql = pos at hat ⊢
  dsimp only
  by_cases hnil : pattern = []
  · rw [if_pos hnil] at htail
    rw [htail, List.append_nil] at hat
    have hnone : findFrom (toUpper sql) (ascii "LIKE") pos = none := by
      obtain ⟨before, hlen, rfl⟩ := hat
      rw [toUpper_append, findFrom_append (by rw [length_toUpper, hlen]), find_eq_none_iff.mpr hnot]
      rfl
    rw [hnone]
    dsimp only
    rw [hat.substr, ok_bind, trim_space_name ht, hnil]
    rfl
  · rw [if_neg hnil] at htail
    have hname : At sql pos ((space :: t) ++ space :: (ascii "LIKE" ++ space :: (quote
        :: (pattern ++ [quote])))) := by
      rw [htail] at hat
      exact hat
    have hfound : findFrom (toUpper sql) (ascii "LIKE") pos
        = some (pos + (space :: t).length + 1) :=
      (hname.findKeyword_front (by decide) (by decide) rfl hnot : findKeyword sql (ascii "LIKE") pos
        = some (pos + (space :: t).length + 1))
    have hname' : At sql pos (((space :: t) ++ [space]) ++ (ascii "LIKE" ++ space :: (quote
        :: (pattern ++ [quote])))) := by
      simpa using hname
    have hcut : substrTo sql pos (pos + (space :: t).length + 1)
        = .ok ((space :: t) ++ [space]) := by
      have hcut := hname'.substrTo
      rwa [List.length_append, List.length_singleton, ← Nat.add_assoc] at hcut
    have htrim : trim ((space :: t) ++ [space]) = t :=
      trim_append [space] [space] (fun _ hc => isBlank_of_mem_space hc)
        (fun _ hc => isBlank_of_mem_space hc) ht.tight
    have hbehind : substr sql (pos + (space :: t).length + 1 + 4) = .ok (space :: quote
        :: (pattern ++ [quote])) := hname.behind.next.behind.substr
    have htight : Tight (quote :: (pattern ++ [quote])) :=
      Begins.tight (begins_cons ⟨by decide, by decide⟩) ((ends_concat pattern rfl).cons quote)
    have htrim' : trim (space :: quote :: (pattern ++ [quote]))
        = quote :: (pattern ++ [quote]) := by
      have htrim' := trim_append [space] [] (fun _ hc => isBlank_of_mem_space hc)
        (fun _ hc => nomatch hc) htight
      rwa [List.append_nil] at htrim'
    have hclean : cleanQuotes (quote :: (pattern ++ [quote])) = .ok pattern := by
      rw [cleanQuotes, if_pos ⟨by simp, rfl⟩, innerPart_quoted]
    rw [hfound]
    dsimp only
    rw [hcut, ok_bind, hbehind, ok_bind, htrim, htrim', hclean]
    rfl

theorem parseShow_text {stmt : ShowStmt} (h : stmt.Writable) :
    parseShow (showText stmt) = .ok (.success (.show_ stmt)) := by
  obtain ⟨type, filterDb, filterTable, pattern⟩ := stmt
  cases type with
  | databases =>
    obtain ⟨rfl, rfl, rfl⟩ := h
    rfl
  | users =>
    obtain ⟨rfl, rfl, rfl⟩ := h
    rfl
  | alarms =>
    obtain ⟨rfl, rfl, rfl⟩ := h
    rfl
  | tables =>
    obtain ⟨hdb, rfl, rfl⟩ := h
    rcases hdb with hnil | hdb
    · obtain rfl : filterDb = [] := hnil
      rfl
    · have hdb : IsTableName filterDb := hdb
      rw [showText]
      dsimp only
      rw [if_neg hdb.nonempty]
      exact parseShow_tablesFrom hdb
  | tags =>
    obtain ⟨rfl, ⟨rfl, rfl⟩ | ⟨ht, hlike⟩⟩ := h
    · rfl
    · exact parseShow_tagsFrom ht hlike pattern

end Parse

/-! ## Statements -/

section Dispatch

variable {conv : Conversions} {fuel : Nat} {s : Bytes}

theorem dispatch_createDatabase (h : startsWith s (ascii "CREATE DATABASE") = true) :
    dispatch conv fuel s = parseCreateDatabase s := by
  simp (disch := decide) only [dispatch, startsWith_eq_false h, h, Bool.false_eq_true, if_false,
    if_true]

theorem dispatch_createTable (h : startsWith s (ascii "CREATE TABLE") = true) :
    dispatch conv fuel s = parseCreateTable fuel s := by
  simp (disch := decide) only [dispatch, startsWith_eq_false h, h, Bool.false_eq_true, if_false,
    if_true]

theorem dispatch_dropTable (h : startsWith s (ascii "DROP TABLE") = true) :
    dispatch conv fuel s = parseDropTable s := by
  simp (disch := decide) only [dispatch, startsWith_eq_false h, h, Bool.false_eq_true, if_false,
    if_true]

theorem dispatch_dropTag (h : startsWith s (ascii "DROP TAG") = true) :
    dispatch conv fuel s = parseDropTag s := by
  simp (disch := decide) only [dispatch, startsWith_eq_false h, h, Bool.false_eq_true, if_false,
    if_true]

theorem dispatch_dropAlarm (h : startsWith s (ascii "DROP ALARM") = true) :
    dispatch conv fuel s = parseDropAlarm s := by
  simp (disch := decide) only [dispatch, startsWith_eq_false h, h, Bool.false_eq_true, if_false,
    if_true]

theorem dispatch_dropUser (h : startsWith s (ascii "DROP USER") = true) :
    dispatch conv fuel s = parseDropUser s := by
  simp (disch := decide) only [dispatch, startsWith_eq_false h, h, Bool.false_eq_true, if_false,
    if_true]

theorem dispatch_dropDatabase (h : startsWith s (ascii "DROP DATABASE") = true) :
    dispatch conv fuel s = parseDropDatabase s := by
  simp (disch := decide) only [dispatch, startsWith_eq_false h, h, Bool.false_eq_true, if_false,
    if_true]

theorem dispatch_use (h : startsWith s (ascii "USE ") = true) :
    dispatch conv fuel s = parseUse s := by
  simp (disch := decide) only [dispatch, startsWith_eq_false h, h, true_or, Bool.false_eq_true,
    if_false, if_true]

theorem dispatch_show_ (h : startsWith s (ascii "SHOW") = true) :
    dispatch conv fuel s = parseShow s := by
  have hne : toUpper s ≠ ascii "USE" := by
    intro heq
    have hfront := startsWith_iff.mp h
    rw [heq] at hfront
    revert hfront
    decide
  simp (disch := decide) only [dispatch, startsWith_eq_false h, h, hne, or_false,
    Bool.false_eq_true, if_false, if_true]

end Dispatch

/-- A text with no blanks at its ends goes on as it is. -/
theorem parseSql_tight (conv : Conversions) {s : Bytes} (hbegins : Begins s) (hends : Ends s) :
    parseSql conv s = dispatch conv (s.length + 1) s := by
  have hsome : s.isEmpty = false := by
    obtain ⟨c, tail, rfl, -⟩ := hbegins
    rfl
  rw [parseSql, parse, trim_eq (hbegins.tight hends), hsome, if_neg (by decide)]

theorem ends_propertiesText (properties : List (Bytes × Bytes)) :
    Ends (propertiesText properties) :=
  (ends_concat (commaList (properties.map propertyText)) rfl).cons openParen

theorem ends_showText {stmt : ShowStmt} (h : stmt.Writable) : Ends (showText stmt) := by
  obtain ⟨type, filterDb, filterTable, pattern⟩ := stmt
  cases type with
  | databases => rfl
  | users => rfl
  | alarms => rfl
  | tables =>
    rw [showText]
    dsimp only
    split
    case isTrue => rfl
    case isFalse hne =>
      have hdb : IsTableName filterDb := h.1.resolve_left hne
      exact (hdb.ends.cons space).behind _
  | tags =>
    rw [showText]
    dsimp only
    split
    case isTrue => rfl
    case isFalse hne =>
      have ht : IsTableName filterTable := (h.2.resolve_left fun hnil => hne hnil.1).1
      split
      · exact (ht.ends.cons space).behind _
      · exact ((((((ends_concat pattern rfl).cons quote).behind (ascii " LIKE ")).behind
          filterTable).cons space).behind (ascii "SHOW TAGS FROM"))

theorem exists_showText (stmt : ShowStmt) : ∃ rest, showText stmt = ascii "SHOW" ++ rest := by
  obtain ⟨type, filterDb, filterTable, pattern⟩ := stmt
  cases type with
  | databases => exact ⟨ascii " DATABASES", rfl⟩
  | users => exact ⟨ascii " USERS", rfl⟩
  | alarms => exact ⟨ascii " ALARMS", rfl⟩
  | tables =>
    rw [showText]
    dsimp only
    split
    · exact ⟨ascii " TABLES", rfl⟩
    · exact ⟨ascii " TABLES FROM" ++ _, rfl⟩
  | tags =>
    rw [showText]
    dsimp only
    split
    · exact ⟨ascii " TAGS", rfl⟩
    · split
      · exact ⟨ascii " TAGS FROM" ++ _, rfl⟩
      · exact ⟨ascii " TAGS FROM" ++ _, rfl⟩

theorem startsWith_showText (stmt : ShowStmt) :
    startsWith (showText stmt) (ascii "SHOW") = true := by
  obtain ⟨rest, hrest⟩ := exists_showText stmt
  exact startsWith_text hrest rfl

/-- What is written begins and ends with no blank. -/
theorem statementText_tight {stmt : SQLStmt} (h : stmt.Writable) :
    Begins (statementText stmt) ∧ Ends (statementText stmt) := by
  cases stmt with
  | createDatabase name => exact ⟨⟨_, _, rfl, by decide, by decide⟩, (h.ends.cons space).behind _⟩
  | dropAlarm name => exact ⟨⟨_, _, rfl, by decide, by decide⟩, (h.ends.cons space).behind _⟩
  | dropUser name => exact ⟨⟨_, _, rfl, by decide, by decide⟩, (h.ends.cons space).behind _⟩
  | dropTable name => exact ⟨⟨_, _, rfl, by decide, by decide⟩, (h.ends.cons space).behind _⟩
  | dropDatabase name => exact ⟨⟨_, _, rfl, by decide, by decide⟩, (h.ends.cons space).behind _⟩
  | use name => exact ⟨⟨_, _, rfl, by decide, by decide⟩, (h.ends.cons space).behind _⟩
  | createTable stmt =>
    exact ⟨⟨_, _, rfl, by decide, by decide⟩,
      ((((ends_propertiesText _).cons space).behind stmt.tableName).cons space).behind _⟩
  | createTag stmt =>
    exact ⟨⟨_, _, rfl, by decide, by decide⟩,
      ((((ends_propertiesText _).cons space).behind stmt.tagName).cons space).behind _⟩
  | createTags stmt =>
    have hlist : Ends (commaList (stmt.tags.map tagDefText) ++ [closeParen]) := ends_concat _ rfl
    exact ⟨⟨_, _, rfl, by decide, by decide⟩,
      ((((((hlist.cons openParen).cons space).behind stmt.tableName).cons space).behind _).cons
        space).behind _⟩
  | createAlarm stmt =>
    have hlist : Ends (ascii "ACTION" ++ openParen :: (commaList (stmt.actions.map quoted)
        ++ [closeParen])) := ((ends_concat _ rfl).cons openParen).behind _
    exact ⟨⟨_, _, rfl, by decide, by decide⟩, ((((((((((((hlist.cons space).behind _).cons
      space).behind stmt.condition).cons space).behind _).cons space).behind stmt.tagName).cons
        space).behind _).cons space).behind stmt.alarmName).cons space |>.behind _⟩
  | createUser stmt =>
    exact ⟨⟨_, _, rfl, by decide, by decide⟩, ((((((((((ends_quoted stmt.role).cons
      space).behind _).cons space).behind (quoted stmt.password)).cons space).behind _).cons
        space).behind _).cons space).behind stmt.username |>.cons space |>.behind _⟩
  | alterSystem stmt =>
    exact ⟨⟨_, _, rfl, by decide, by decide⟩,
      ((((ends_quoted stmt.value).cons equals).behind stmt.key).cons space).behind _⟩
  | dropTag stmt =>
    have hname : Ends (if stmt.tableName = [] then stmt.tagName
        else stmt.tableName ++ dot :: stmt.tagName) := by
      split
      · exact h.2.ends
      · exact (h.2.ends.cons dot).behind _
    exact ⟨⟨_, _, rfl, by decide, by decide⟩, (hname.cons space).behind _⟩
  | alterTag stmt =>
    have hvalue : Ends (quote :: (stmt.value ++ [quote])) := (ends_concat _ rfl).cons quote
    exact ⟨⟨_, _, rfl, by decide, by decide⟩, ((((((hvalue.cons equals).behind
      stmt.property).behind _).behind stmt.tagName).cons dot).behind stmt.tableName).cons
        space |>.behind _⟩
  | alterAlarm stmt =>
    exact ⟨⟨_, _, rfl, by decide, by decide⟩, ((((ends_quoted stmt.value).cons equals).behind
      stmt.property).behind _).behind stmt.name |>.cons space |>.behind _⟩
  | alterUser stmt =>
    exact ⟨⟨_, _, rfl, by decide, by decide⟩, ((((ends_quoted stmt.value).cons space).behind
      stmt.property).behind _).behind stmt.name |>.cons space |>.behind _⟩
  | show_ stmt =>
    obtain ⟨rest, hrest⟩ := exists_showText stmt
    exact ⟨⟨_, _, hrest, by decide, by decide⟩, ends_showText h⟩
  | insert stmt => exact h.elim
  | select stmt => exact h.elim
  | delete stmt => exact h.elim
  | update stmt => exact h.elim

/-- An alarm with two actions, one with quotes of its own. -/
def hotAlarm : CreateAlarmStmt where
  alarmName := ascii "hot"
  tagName := ascii "BOILER-001"
  condition := ascii "value > 80"
  actions := [ascii "log", ascii "call 'ops'"]

theorem writable_hotAlarm : (SQLStmt.createAlarm hotAlarm).Writable := by
  refine ⟨⟨by decide, List.all_eq_true.mp rfl⟩, ⟨by decide, List.all_eq_true.mp rfl⟩,
    by decide, ⟨_, _, rfl, by decide, by decide⟩, ⟨rfl, rfl⟩, by decide, ?_⟩
  simp [hotAlarm, ascii]

end Sql
end MiniTSDB
