import MiniTSDB.Sql.Ast
import MiniTSDB.Sql.Text

/-!
# `SQLParser` (`parser.cpp`)

One function for each statement, on the text with its ends trimmed. A loop whose turns depend on
the text takes the number of turns it may make; all loops of a statement take the same number.

`std::stod` and the reading of a time are the parser's parameters: which double and which
timestamp they give does not decide how a statement is parsed.
-/

namespace MiniTSDB
namespace Sql

open Lib

/-- `std::stod`, `none` where it throws, and `ParseTimeString`. -/
structure Conversions where
  stod : Bytes → Option UInt64
  parseTimeString : Bytes → Timestamp

/-! ## INSERT -/

/-- The loop over the column names, from behind the `(`. -/
def insertColumns (sql : Bytes) : Nat → Nat → List Bytes → Parsing (List Bytes × Nat)
  | 0, _, _ => .error .outOfFuel
  | fuel + 1, pos, columns =>
    if goesOn sql pos closeParen then do
      let colStart := skipWhitespace sql pos
      let pos := skipUntil (fun c => c = comma || c = closeParen) sql colStart
      let column ← substrTo sql colStart pos
      insertColumns sql fuel (skipWhitespace sql pos) (columns ++ [trim column])
    else .ok (columns, pos)

/-- The loop over the values of a row, from behind its `(`. -/
def insertValues (sql : Bytes) : Nat → Nat → List Bytes → Parsing (List Bytes × Nat)
  | 0, _, _ => .error .outOfFuel
  | fuel + 1, pos, values =>
    if goesOn sql pos closeParen then do
      let pos := skipWhitespace sql pos
      let c ← charAt sql pos
      if isQuote c then
        let (value, pos) := extractQuoted sql pos
        insertValues sql fuel (skipWhitespace sql pos) (values ++ [value])
      else do
        let valStart := pos
        let pos := skipUntil (fun c => c = comma || c = closeParen) sql valStart
        let value ← substrTo sql valStart pos
        insertValues sql fuel (skipWhitespace sql pos) (values ++ [trim value])
    else .ok (values, pos)

/-- The loop over the rows. -/
def insertRows (sql : Bytes) : Nat → Nat → List (List Bytes) → Parsing (List (List Bytes))
  | 0, _, _ => .error .outOfFuel
  | fuel + 1, pos, rows =>
    if sql[pos]? = some openParen then do
      let (row, pos) ← insertValues sql fuel (pos + 1) []
      let pos := if pos < sql.length then pos + 1 else pos
      insertRows sql fuel (skipWhitespace sql pos) (rows ++ [row])
    else .ok rows

/-- `(col1, col2, ...)`, if it is there. -/
def insertColumnList (fuel : Nat) (sql : Bytes) (pos : Nat) : Parsing (List Bytes × Nat) :=
  if sql[pos]? = some openParen then do
    let (columns, pos) ← insertColumns sql fuel (pos + 1) []
    return (columns, if pos < sql.length then pos + 1 else pos)
  else .ok ([], pos)

def parseInsert (fuel : Nat) (sql : Bytes) : Parsing ParseResult := do
  let some pos := findKeyword sql (ascii "INSERT INTO") 0
    | return .fail (ascii "Expected INSERT INTO")
  let tableStart := skipWhitespace sql (pos + 11)
  let pos := skipUntil (fun c => c = openParen || c = space) sql tableStart
  let tableName ← substrTo sql tableStart pos
  let (columns, pos) ← insertColumnList fuel sql (skipWhitespace sql pos)
  let some pos := findKeyword sql (ascii "VALUES") pos
    | return .fail (ascii "Expected VALUES")
  let rows ← insertRows sql fuel (skipWhitespace sql (pos + 6)) []
  if rows.isEmpty then return .fail (ascii "No values provided")
  return .success (.insert { tableName := tableName, columns := columns, rows := rows })

/-! ## SELECT -/

/-- The aggregate functions, in the order in which they are looked for. -/
def aggNames : List (Bytes × AggType) :=
  [(ascii "AVG", .avg), (ascii "MAX", .max), (ascii "MIN", .min), (ascii "SUM", .sum),
    (ascii "COUNT", .count), (ascii "FIRST", .first), (ascii "LAST", .last),
    (ascii "STDDEV", .stddev)]

/-- The name behind the `AS` of a `TIME_BUCKET`. Its size is read here too, and not kept. -/
def bucketAlias (col : Bytes) : Parsing Bytes :=
  if (findChar col openParen 0).isSome then
    match findKeyword col (ascii "AS") 0 with
    | some asPos => do
      let rest ← substr col (asPos + 2)
      return trim rest
    | none => .ok []
  else .ok []

/-- One column. -/
def selectExpr (col : Bytes) : Parsing SelectExpr := do
  let timeBucket := (findKeyword col (ascii "TIME_BUCKET") 0).isSome
  let alias_ ← (if timeBucket then bucketAlias col else .ok [])
  match aggNames.find? fun agg => (findKeyword col agg.1 0).isSome with
  | some agg => pure { expr := col, alias_ := alias_, isAggregate := true, aggType := agg.2 }
  | none =>
    pure { expr := if timeBucket then [] else col, alias_ := alias_, isAggregate := timeBucket }

/-- The loop over the columns. -/
def selectColumns (cols : Bytes) : Nat → Nat → List SelectExpr → Parsing (List SelectExpr)
  | 0, _, _ => .error .outOfFuel
  | fuel + 1, colStart, columns =>
    if colStart < cols.length then
      let colStart := skipWhitespace cols colStart
      if colStart ≥ cols.length then .ok columns
      else
        match findChar cols comma colStart with
        | none => do
          let expr ← selectExpr (trim (← substr cols colStart))
          selectColumns cols fuel cols.length (columns ++ [expr])
        | some stop => do
          let expr ← selectExpr (trim (← substrTo cols colStart stop))
          selectColumns cols fuel (stop + 1) (columns ++ [expr])
    else .ok columns

/-- The `BETWEEN` of a condition, from behind the keyword. -/
def betweenRange (conv : Conversions) (clause : Bytes) (pos : Nat) : TimeRange :=
  let p := skipUntil isQuote clause (skipWhitespace clause pos)
  let (tsStart, p) := if p < clause.length then extractQuoted clause p else ([], p)
  let tsEnd :=
    match findKeyword clause (ascii "AND") p with
    | none => []
    | some andPos =>
      let p := skipWhitespace clause (andPos + 3)
      if p < clause.length then (extractQuoted clause p).1 else []
  { start := conv.parseTimeString tsStart, stop := conv.parseTimeString tsEnd }

/-- The interval of the clause is that of a `BETWEEN`. -/
def withBetween (conv : Conversions) (w : WhereClause) (clause : Bytes) : WhereClause :=
  match findKeyword clause (ascii "BETWEEN") 0 with
  | some betweenPos => { w with timeRange := betweenRange conv clause (betweenPos + 7) }
  | none => w

/-- A field, and the value behind the `=` or the `LIKE`, which is `len` characters long. -/
def fieldAndValue (clause : Bytes) (pos len : Nat) : Parsing (Bytes × Bytes) := do
  let field := trim (← substrTo clause 0 pos)
  let val := unquote (trim (← substr clause (pos + len)))
  pure (toUpper field, val)

/-- `ParseWhereCondition`. -/
def parseWhereCondition (conv : Conversions) (w : WhereClause) (clause : Bytes) :
    Parsing WhereClause := do
  let w := withBetween conv w clause
  match findChar clause equals 0, findKeyword clause (ascii "LIKE") 0 with
  | some eq, _ => do
    let (field, val) ← fieldAndValue clause eq 1
    pure (if field = ascii "TAG" then { w with tagFilter := val } else w)
  | none, some likeKw => do
    let (field, val) ← fieldAndValue clause likeKw 4
    pure (if field = ascii "TAG" then { w with tagPattern := val } else w)
  | none, none => pure w

/-- The loop over the conditions, which `AND` separates. -/
def whereConditions (conv : Conversions) (clause : Bytes) :
    Nat → Nat → WhereClause → Parsing WhereClause
  | 0, _, _ => .error .outOfFuel
  | fuel + 1, andP, w =>
    if andP < clause.length then
      match findKeyword clause (ascii "AND") andP with
      | none => do
        let w ← parseWhereCondition conv w (trim (← substr clause andP))
        whereConditions conv clause fuel clause.length w
      | some nextAnd => do
        let w ← parseWhereCondition conv w (trim (← substrTo clause andP nextAnd))
        whereConditions conv clause fuel (nextAnd + 3) w
    else .ok w

theorem whereConditions_succ (conv : Conversions) (clause : Bytes) (fuel andP : Nat)
    (w : WhereClause) : whereConditions conv clause (fuel + 1) andP w =
      if andP < clause.length then
        match findKeyword clause (ascii "AND") andP with
        | none => do
          let w ← parseWhereCondition conv w (trim (← substr clause andP))
          whereConditions conv clause fuel clause.length w
        | some nextAnd => do
          let w ← parseWhereCondition conv w (trim (← substrTo clause andP nextAnd))
          whereConditions conv clause fuel (nextAnd + 3) w
      else .ok w := rfl

/-- The earliest of what was found, and the end of the text. -/
def earliest (sql : Bytes) (found : List (Option Nat)) : Nat :=
  found.foldl (fun stop pos => min stop (pos.getD stop)) sql.length

/-- The conditions between the `WHERE` and where the clause ends. -/
def whereClause (conv : Conversions) (fuel : Nat) (sql : Bytes) (wherePos : Option Nat)
    (whereEnd : Nat) : Parsing WhereClause :=
  match wherePos with
  | none => .ok {}
  | some wherePos => do
    let clause ← substrTo sql (skipWhitespace sql (wherePos + 5)) whereEnd
    whereConditions conv (trim clause) fuel 0 {}

/-- The bucket behind a `GROUP BY`: what is quoted behind the next `(`. -/
def groupBucket (sql : Bytes) (groupPos : Nat) : Bytes :=
  match findChar sql openParen (skipWhitespace sql (groupPos + 8)) with
  | some p => (extractQuoted sql (p + 1)).1
  | none => []

def parseSelect (conv : Conversions) (fuel : Nat) (sql : Bytes) : Parsing ParseResult := do
  let pos := skipWhitespace sql (afterKeyword sql (ascii "SELECT"))
  let some fromPos := findKeyword sql (ascii "FROM") pos | return .fail (ascii "Expected FROM")
  let columns ← selectColumns (← substrTo sql pos fromPos) fuel 0 []
  let pos := skipWhitespace sql (fromPos + 4)
  let wherePos := findKeyword sql (ascii "WHERE") pos
  let latestPos := findKeyword sql (ascii "LATEST") pos
  let groupPos := findKeyword sql (ascii "GROUP BY") pos
  let orderPos := findKeyword sql (ascii "ORDER BY") pos
  let limitPos := findKeyword sql (ascii "LIMIT") pos
  let some nameEnd := wherePos <|> latestPos
    | return .success (.select { columns := columns, tableName := trim (← substr sql pos) })
  let tableName := trim (← substrTo sql pos nameEnd)
  let where_ ← whereClause conv fuel sql wherePos
    (earliest sql [latestPos, groupPos, orderPos, limitPos])
  return .success (.select
    { columns := columns
      tableName := tableName
      where_ := where_
      latest := toUpper tableName = ascii "SNAPSHOT" || latestPos.isSome
      groupBy := groupPos.map (groupBucket sql) })

/-! ## CREATE -/

/-- The loop over `key=value` pairs, from behind the `(`. What may quote a value differs, and
`CREATE TABLE` stops at a `=` that is behind the next `)`. -/
def parseProperties (quotes : UInt8 → Bool) (beforeParen : Bool) (sql : Bytes) :
    Nat → Nat → List (Bytes × Bytes) → Parsing (List (Bytes × Bytes) × Nat)
  | 0, _, _ => .error .outOfFuel
  | fuel + 1, pos, properties =>
    if goesOn sql pos closeParen then
      let pos := skipWhitespace sql pos
      match findChar sql equals pos with
      | none => .ok (properties, pos)
      | some eq =>
        if beforeParen && (findChar sql closeParen pos).any (· < eq) then .ok (properties, pos)
        else do
          let key := trim (← substrTo sql pos eq)
          let pos := skipWhitespace sql (eq + 1)
          let c ← charAt sql pos
          if quotes c then
            let (val, pos) := extractQuoted sql pos
            parseProperties quotes beforeParen sql fuel (skipWhitespace sql pos)
              (properties ++ [(key, val)])
          else do
            -- `npos` is behind the end as the end is: nothing more is read
            let valEnd := (findFirstOf sql [comma, closeParen] pos).getD sql.length
            let val := trim (← substrTo sql pos valEnd)
            parseProperties quotes beforeParen sql fuel (skipWhitespace sql valEnd)
              (properties ++ [(key, val)])
    else .ok (properties, pos)

/-- `(key=val, ...)`, if it is there. -/
def propertyList (quotes : UInt8 → Bool) (beforeParen : Bool) (fuel : Nat) (sql : Bytes)
    (pos : Nat) : Parsing (List (Bytes × Bytes)) :=
  if sql[pos]? = some openParen then do
    let (properties, _) ← parseProperties quotes beforeParen sql fuel (pos + 1) []
    return properties
  else .ok []

def parseCreateTag (fuel : Nat) (sql : Bytes) : Parsing ParseResult := do
  let nameStart := skipWhitespace sql (afterKeyword sql (ascii "CREATE TAG"))
  let pos := skipUntil (fun c => c = space || c = openParen) sql nameStart
  let tagName ← substrTo sql nameStart pos
  let properties ← propertyList isQuote false fuel sql (skipWhitespace sql pos)
  return .success (.createTag { tagName := tagName, properties := properties })

/-- The loop over the actions, from behind the `(`. -/
def alarmActions (sql : Bytes) : Nat → Nat → List Bytes → Parsing (List Bytes)
  | 0, _, _ => .error .outOfFuel
  | fuel + 1, pos, actions =>
    if goesOn sql pos closeParen then
      let (action, pos) := extractQuoted sql (skipWhitespace sql pos)
      alarmActions sql fuel (skipWhitespace sql pos)
        (if action.isEmpty then actions else actions ++ [action])
    else .ok actions

/-- `ACTION(...)`, behind the `THEN`. -/
def alarmActionList (fuel : Nat) (sql : Bytes) (thenPos : Nat) : Parsing (List Bytes) :=
  match findKeyword sql (ascii "ACTION") thenPos with
  | none => .ok []
  | some pos =>
    match findChar sql openParen pos with
    | none => .ok []
    | some pos => alarmActions sql fuel (pos + 1) []

def parseCreateAlarm (fuel : Nat) (sql : Bytes) : Parsing ParseResult := do
  let nameStart := skipWhitespace sql (afterKeyword sql (ascii "CREATE ALARM"))
  let pos := skipUntil (· = space) sql nameStart
  let alarmName ← substrTo sql nameStart pos
  let pos := skipWhitespace sql pos
  let some pos := findKeyword sql (ascii "ON") pos | return .fail (ascii "Expected ON")
  let pos := skipWhitespace sql (pos + 2)
  let onEnd := skipUntil (· = space) sql pos
  let tagName ← substrTo sql pos onEnd
  let some pos := findKeyword sql (ascii "WHEN") pos | return .fail (ascii "Expected WHEN")
  let pos := skipWhitespace sql (pos + 4)
  let some thenPos := findKeyword sql (ascii "THEN") pos | return .fail (ascii "Expected THEN")
  let condition := trim (← substrTo sql pos thenPos)
  let actions ← alarmActionList fuel sql thenPos
  return .success (.createAlarm
    { alarmName := alarmName, tagName := tagName, condition := condition, actions := actions })

/-- The role, in quotes or without. -/
def userRole (sql : Bytes) (pos : Nat) : Parsing Bytes :=
  match findKeyword sql (ascii "ROLE") pos with
  | none => .ok []
  | some rolePos =>
    let pos := skipWhitespace sql (rolePos + 4)
    if sql[pos]?.any isQuote then .ok (extractQuoted sql pos).1
    else substrTo sql pos (skipUntil (· = space) sql pos)

/-- The password, which is quoted, and the position behind it. -/
def userPassword (sql : Bytes) (pos : Nat) : Bytes × Nat :=
  match findKeyword sql (ascii "PASSWORD") pos with
  | none => ([], pos)
  | some pwPos =>
    let pos := skipWhitespace sql (pwPos + 8)
    if sql[pos]?.any isQuote then extractQuoted sql pos else ([], pos)

def parseCreateUser (sql : Bytes) : Parsing ParseResult := do
  let nameStart := skipWhitespace sql (afterKeyword sql (ascii "CREATE USER"))
  let pos := skipUntil (· = space) sql nameStart
  let username ← substrTo sql nameStart pos
  let (password, pos) := userPassword sql (skipWhitespace sql pos)
  let role ← userRole sql pos
  return .success (.createUser
    { username := username
      password := if password.isEmpty then ascii "default123" else password
      role := if role.isEmpty then ascii "viewer" else role })

def parseCreateTable (fuel : Nat) (sql : Bytes) : Parsing ParseResult := do
  let pos := skipWhitespace sql (afterKeyword sql (ascii "CREATE TABLE"))
  let nameEnd := skipUntil (fun c => c = space || c = openParen) sql pos
  let tableName := trim (← substrTo sql pos nameEnd)
  let properties ← propertyList (· = quote) true fuel sql (skipWhitespace sql nameEnd)
  return .success (.createTable { tableName := tableName, properties := properties })

/-- The properties of a tag, if they are there, and the position behind their `)`. -/
def tagProps (sql : Bytes) (fuel pos : Nat) : Parsing (List (Bytes × Bytes) × Nat) :=
  if sql[pos]? = some openParen then do
    let (props, pos) ← parseProperties (· = quote) false sql fuel (pos + 1) []
    return (props, if pos < sql.length then pos + 1 else pos)
  else .ok ([], pos)

/-- The loop over the tags, from behind the `(`. -/
def createTagsLoop (sql : Bytes) : Nat → Nat → List TagDef → Parsing (List TagDef)
  | 0, _, _ => .error .outOfFuel
  | fuel + 1, pos, tags =>
    if goesOn sql pos closeParen then do
      let tagStart := skipWhitespace sql pos
      let pos := skipUntil (fun c => c = openParen || c = comma || c = closeParen) sql tagStart
      let name := trim (← substrTo sql tagStart pos)
      let (props, pos) ← tagProps sql fuel (skipWhitespace sql pos)
      let pos := skipWhitespace sql pos
      let pos := if sql[pos]? = some comma then pos + 1 else pos
      createTagsLoop sql fuel pos (tags ++ [{ name := name, props := props }])
    else .ok tags

def parseCreateTags (fuel : Nat) (sql : Bytes) : Parsing ParseResult := do
  let pos := skipWhitespace sql (afterKeyword sql (ascii "CREATE TAGS"))
  let some inPos := findFrom (toUpper sql) (ascii "IN TABLE") pos
    | return .fail (ascii "CREATE TAGS requires IN TABLE")
  let pos := skipWhitespace sql (inPos + 8)
  let some nameEnd := findChar sql openParen pos
    | return .fail (ascii "CREATE TAGS needs tag list")
  let tableName := trim (← substrTo sql pos nameEnd)
  let tags ← createTagsLoop sql fuel (nameEnd + 1) []
  return .success (.createTags { tableName := tableName, tags := tags })

/-! ## Statements with a name -/

/-- All that is behind the keyword. -/
def nameBehind (sql kw : Bytes) : Parsing Bytes := do
  pure (trim (← substr sql (skipWhitespace sql (afterKeyword sql kw))))

def parseDropTag (sql : Bytes) : Parsing ParseResult := do
  let rest ← nameBehind sql (ascii "DROP TAG")
  match findChar rest dot 0 with
  | some pos => do
    let tableName := trim (← substrTo rest 0 pos)
    let tagName := trim (← substr rest (pos + 1))
    return .success (.dropTag { tableName := tableName, tagName := tagName })
  | none => return .success (.dropTag { tagName := rest })

def parseDropAlarm (sql : Bytes) : Parsing ParseResult := do
  return .success (.dropAlarm (← nameBehind sql (ascii "DROP ALARM")))

def parseDropUser (sql : Bytes) : Parsing ParseResult := do
  return .success (.dropUser (← nameBehind sql (ascii "DROP USER")))

def parseDropTable (sql : Bytes) : Parsing ParseResult := do
  return .success (.dropTable (← nameBehind sql (ascii "DROP TABLE")))

def parseDropDatabase (sql : Bytes) : Parsing ParseResult := do
  return .success (.dropDatabase (← nameBehind sql (ascii "DROP DATABASE")))

def parseCreateDatabase (sql : Bytes) : Parsing ParseResult := do
  return .success (.createDatabase (← nameBehind sql (ascii "CREATE DATABASE")))

def parseUse (sql : Bytes) : Parsing ParseResult := do
  return .success (.use (← nameBehind sql (ascii "USE")))

/-! ## ALTER -/

def parseAlterUser (sql : Bytes) : Parsing ParseResult := do
  let pos := skipWhitespace sql (afterKeyword sql (ascii "ALTER USER"))
  let some nameEnd := findFrom sql (ascii " SET ") pos
    | return .fail (ascii "Invalid ALTER USER syntax")
  let username := trim (← substrTo sql pos nameEnd)
  let pos := skipWhitespace sql (nameEnd + 5)
  match findChar sql quote pos with
  | none => do
    let property := trim (← substr sql pos)
    match findChar property space 0 with
    | some sp => do
      let value := trim (← substr property (sp + 1))
      let property := trim (← substrTo property 0 sp)
      return .success (.alterUser { name := username, property := property, value := value })
    | none => return .success (.alterUser { name := username, property := property })
  | some valPos => do
    let property := trim (← substrTo sql pos valPos)
    return .success (.alterUser
      { name := username, property := property, value := (extractQuoted sql valPos).1 })

/-- The value behind the `=`: quoted, or up to the next space or tab. -/
def alarmValue (sql : Bytes) (pos : Nat) : Parsing Bytes := do
  let c ← charAt sql pos
  if c = quote then return (extractQuoted sql pos).1
  else do
    let value ← substrTo sql pos ((findFirstOf sql [space, 9] pos).getD sql.length)
    return trim value

def parseAlterAlarm (sql : Bytes) : Parsing ParseResult := do
  let pos := skipWhitespace sql (afterKeyword sql (ascii "ALTER ALARM"))
  let some setPos := findFrom sql (ascii " SET ") pos
    | return .fail (ascii "Invalid ALTER ALARM syntax")
  let alarmName := trim (← substrTo sql pos setPos)
  let pos := skipWhitespace sql (setPos + 5)
  match findChar sql equals pos with
  | none =>
    match findChar sql space pos with
    | none => return .success (.alterAlarm { name := alarmName })
    | some sp => do
      let some q1 := findChar sql quote sp | return .fail (ascii "Invalid ALTER ALARM value")
      let property := trim (← substrTo sql pos sp)
      return .success (.alterAlarm
        { name := alarmName, property := property, value := (extractQuoted sql q1).1 })
  | some eq => do
    let property := trim (← substrTo sql pos eq)
    let value ← alarmValue sql (skipWhitespace sql (eq + 1))
    return .success (.alterAlarm { name := alarmName, property := property, value := value })

/-- `s.substr(1, s.size() - 2)`: without its first and its last character. -/
def innerPart (s : Bytes) : Parsing Bytes := do
  let rest ← substr s 1
  pure (if s.length < 2 then rest else rest.take (s.length - 2))

def parseAlterTag (sql : Bytes) : Parsing ParseResult := do
  let rest ← nameBehind sql (ascii "ALTER TAG")
  let some pos := findChar rest dot 0 | return .fail (ascii "ALTER TAG requires <table>.<tag>")
  let tableName := trim (← substrTo rest 0 pos)
  let after := trim (← substr rest (pos + 1))
  let some setPos := findFrom after (ascii " SET ") 0
    | return .fail (ascii "Invalid ALTER TAG syntax")
  let tagName := trim (← substrTo after 0 setPos)
  let propPart := trim (← substr after (setPos + 5))
  let some eq := findChar propPart equals 0 | return .fail (ascii "Invalid ALTER TAG property")
  let property := trim (← substrTo propPart 0 eq)
  let valPart := trim (← substr propPart (eq + 1))
  let value ← (if valPart.head? = some quote then innerPart valPart else .ok valPart)
  return .success (.alterTag
    { tableName := tableName, tagName := tagName, property := property, value := value })

def parseAlterSystem (sql : Bytes) : Parsing ParseResult := do
  let some pos := findKeyword sql (ascii "SET") 0 | return .fail (ascii "Expected SET")
  let pos := skipWhitespace sql (pos + 3)
  let some eq := findChar sql equals pos | return .fail (ascii "Expected key=value")
  let key := trim (← substrTo sql pos eq)
  let value := unquote (trim (← substr sql (eq + 1)))
  return .success (.alterSystem { key := key, value := value })

/-! ## DELETE and UPDATE -/

/-- The value behind `tag=`, if a quote follows it. -/
def tagFilterFrom (sql : Bytes) (pos : Nat) : Parsing Bytes :=
  match findFrom sql (ascii "tag=") pos with
  | none => .ok []
  | some tagEq => do
    let tagEq := skipWhitespace sql (tagEq + 4)
    let c ← charAt sql tagEq
    return (if c = quote then (extractQuoted sql tagEq).1 else [])

/-- The lambda `clean` of `ParseDelete`. -/
def cleanQuotes (s : Bytes) : Parsing Bytes :=
  if s.length ≥ 2 ∧ s.head? = some quote then innerPart s else pure s

/-- The interval behind the `BETWEEN`; `{0, 0}` if the keyword or its `AND` is missing. -/
def deleteRange (conv : Conversions) (sql : Bytes) (pos : Nat) : Parsing TimeRange :=
  match findFrom (toUpper sql) (ascii "BETWEEN") pos with
  | none => .ok { start := 0, stop := 0 }
  | some betweenPos =>
    match findFrom (toUpper sql) (ascii "AND") (betweenPos + 7) with
    | none => .ok { start := 0, stop := 0 }
    | some andPos => do
      let startStr ← cleanQuotes (trim (← substrTo sql (betweenPos + 7) andPos))
      let endStr ← cleanQuotes (trim (← substr sql (andPos + 3)))
      return { start := conv.parseTimeString startStr, stop := conv.parseTimeString endStr }

def parseDelete (conv : Conversions) (sql : Bytes) : Parsing ParseResult := do
  let pos := skipWhitespace sql (afterKeyword sql (ascii "DELETE"))
  let some fromPos := findFrom (toUpper sql) (ascii "FROM") pos
    | return .fail (ascii "DELETE requires FROM")
  let pos := skipWhitespace sql (fromPos + 4)
  let some wherePos := findFrom (toUpper sql) (ascii "WHERE") pos
    | return .fail (ascii "DELETE requires WHERE")
  let tableName := trim (← substrTo sql pos wherePos)
  let tagFilter ← tagFilterFrom sql (wherePos + 5)
  let timeRange ← deleteRange conv sql (wherePos + 5)
  return .success (.delete
    { tableName := tableName, tagFilter := tagFilter, timeRange := timeRange })

/-- The value behind the first `=`, if it is before the `WHERE`; zero if it is no number. -/
def updateValue (conv : Conversions) (sql : Bytes) (pos wherePos : Nat) : Parsing UInt64 :=
  match findChar sql equals pos with
  | none => .ok 0
  | some eq =>
    if eq < wherePos then do
      let valStr ← substrTo sql (eq + 1) wherePos
      return (conv.stod (trim valStr)).getD 0
    else .ok 0

/-- The time behind `timestamp=` or `timestamp =`, if it is quoted. -/
def updateTime (conv : Conversions) (sql : Bytes) (pos : Nat) : Parsing Timestamp :=
  match findFrom sql (ascii "timestamp=") pos <|> findFrom sql (ascii "timestamp =") pos with
  | none => .ok 0
  | some tsEq => do
    let tsEq := skipWhitespace sql (((findChar sql equals tsEq).getD npos + 1) % 2 ^ 64)
    let c ← charAt sql tsEq
    return if c = quote then conv.parseTimeString (extractQuoted sql tsEq).1 else 0

def parseUpdate (conv : Conversions) (sql : Bytes) : Parsing ParseResult := do
  let pos := skipWhitespace sql (afterKeyword sql (ascii "UPDATE"))
  let some setPos := findFrom (toUpper sql) (ascii "SET") pos
    | return .fail (ascii "UPDATE requires SET")
  let tableName := trim (← substrTo sql pos setPos)
  let pos := skipWhitespace sql (setPos + 3)
  let some wherePos := findFrom (toUpper sql) (ascii "WHERE") pos
    | return .fail (ascii "UPDATE requires WHERE")
  let newValue ← updateValue conv sql pos wherePos
  let tagFilter ← tagFilterFrom sql (wherePos + 5)
  let exactTime ← updateTime conv sql (wherePos + 5)
  return .success (.update
    { tableName := tableName, tagFilter := tagFilter, exactTime := exactTime,
      newValue := newValue })

/-! ## SHOW -/

/-- `upper.find("FROM") + 4`. -/
def afterFrom (sql : Bytes) : Nat :=
  ((findFrom (toUpper sql) (ascii "FROM") 0).getD npos + 4) % 2 ^ 64

def parseShow (sql : Bytes) : Parsing ParseResult := do
  if startsWith sql (ascii "SHOW DATABASES") then
    return .success (.show_ { type := .databases })
  else if startsWith sql (ascii "SHOW TABLES FROM") then do
    let filterDb := trim (← substr sql (afterFrom sql))
    return .success (.show_ { type := .tables, filterDb := filterDb })
  else if startsWith sql (ascii "SHOW TABLES") then
    return .success (.show_ { type := .tables })
  else if startsWith sql (ascii "SHOW TAGS FROM") then do
    let pos := afterFrom sql
    match findFrom (toUpper sql) (ascii "LIKE") pos with
    | some likePos => do
      let filterTable := trim (← substrTo sql pos likePos)
      let pattern ← cleanQuotes (trim (← substr sql (likePos + 4)))
      return .success (.show_ { type := .tags, filterTable := filterTable, pattern := pattern })
    | none => do
      let filterTable := trim (← substr sql pos)
      return .success (.show_ { type := .tags, filterTable := filterTable })
  else if startsWith sql (ascii "SHOW TAGS") then
    return .success (.show_ { type := .tags })
  else if startsWith sql (ascii "SHOW USERS") then
    return .success (.show_ { type := .users })
  else if startsWith sql (ascii "SHOW ALARMS") then
    return .success (.show_ { type := .alarms })
  else return .fail (ascii "Unknown SHOW type")

/-! ## The statement -/

/-- `SQLParser::Parse` behind `Trim`: what the text starts with, in this order. -/
def dispatch (conv : Conversions) (fuel : Nat) (trimmed : Bytes) : Parsing ParseResult :=
  if startsWith trimmed (ascii "SELECT") then parseSelect conv fuel trimmed
  else if startsWith trimmed (ascii "CREATE DATABASE") then parseCreateDatabase trimmed
  else if startsWith trimmed (ascii "CREATE TABLE") then parseCreateTable fuel trimmed
  else if startsWith trimmed (ascii "CREATE TAGS") then parseCreateTags fuel trimmed
  else if startsWith trimmed (ascii "CREATE TAG") then parseCreateTag fuel trimmed
  else if startsWith trimmed (ascii "CREATE ALARM") then parseCreateAlarm fuel trimmed
  else if startsWith trimmed (ascii "CREATE USER") then parseCreateUser trimmed
  else if startsWith trimmed (ascii "DROP TABLE") then parseDropTable trimmed
  else if startsWith trimmed (ascii "DROP TAG") then parseDropTag trimmed
  else if startsWith trimmed (ascii "DROP ALARM") then parseDropAlarm trimmed
  else if startsWith trimmed (ascii "DROP USER") then parseDropUser trimmed
  else if startsWith trimmed (ascii "DROP DATABASE") then parseDropDatabase trimmed
  else if startsWith trimmed (ascii "ALTER TAG") then parseAlterTag trimmed
  else if startsWith trimmed (ascii "ALTER ALARM") then parseAlterAlarm trimmed
  else if startsWith trimmed (ascii "ALTER USER") then parseAlterUser trimmed
  else if startsWith trimmed (ascii "ALTER SYSTEM") then parseAlterSystem trimmed
  else if startsWith trimmed (ascii "ALTER") then .ok (.fail (ascii "Unknown ALTER type"))
  else if startsWith trimmed (ascii "INSERT") then parseInsert fuel trimmed
  else if startsWith trimmed (ascii "DELETE") then parseDelete conv trimmed
  else if startsWith trimmed (ascii "UPDATE") then parseUpdate conv trimmed
  else if startsWith trimmed (ascii "USE ") ∨ toUpper trimmed = ascii "USE" then parseUse trimmed
  else if startsWith trimmed (ascii "SHOW") then parseShow trimmed
  else .ok (.fail (ascii "Unknown statement type: " ++ trimmed.take 30))

/-- `SQLParser::Parse`. -/
def parse (conv : Conversions) (fuel : Nat) (sql : Bytes) : Parsing ParseResult :=
  let trimmed := trim sql
  if trimmed.isEmpty then .ok (.fail (ascii "Empty SQL statement"))
  else dispatch conv fuel trimmed

end Sql
end MiniTSDB
