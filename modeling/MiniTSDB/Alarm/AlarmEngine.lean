import MiniTSDB.Sql.Insert

/-!
# The rules of `AlarmEngine` (`alarm_engine.cpp`)

A rule keeps its condition as a text and as what was read from it, an operator and a threshold. A
double is its bit pattern, as in `Value`; `std::stod` is a parameter, `none` where it throws.
-/

namespace MiniTSDB
namespace Alarm

open Lib Sql

structure AlarmRule where
  name : Bytes
  tagName : Bytes
  condition : Bytes
  threshold : UInt64 := 0
  op : Bytes := []
  actions : List Bytes
  deriving DecidableEq, Repr

/-- The operators, in the order in which they are looked for. -/
def conditionOps : List Bytes :=
  [ascii ">=", ascii "<=", ascii "!=", ascii "==", ascii ">", ascii "<"]

/-- `ParseCondition`: the first operator that the condition has, and what is behind it. -/
def parseCondition (stod : Bytes → Option UInt64) (condition : Bytes) : Option (Bytes × UInt64) := do
  let expr := condition.filter fun c => !isSpaceChar c
  let (op, pos) ← conditionOps.findSome? fun op => (find op expr).map fun pos => (op, pos)
  let threshold ← stod (expr.drop (pos + op.length))
  return (op, threshold)

/-- A token without the spaces around it. -/
def trimSpaces (token : Bytes) : Bytes :=
  ((token.dropWhile (· = space)).reverse.dropWhile (· = space)).reverse

/-- The actions that commas separate; what is empty is left out. -/
def splitActions (value : Bytes) : List Bytes :=
  ((value.splitOn comma).map trimSpaces).filter fun token => !token.isEmpty

/-- What `AlterRule` makes of the rule. -/
def AlarmRule.alter (stod : Bytes → Option UInt64) (r : AlarmRule) (property value : Bytes) :
    Option AlarmRule :=
  if property = ascii "condition" then
    (parseCondition stod value).map fun parsed =>
      { r with condition := value, op := parsed.1, threshold := parsed.2 }
  else if property = ascii "action" then some { r with actions := splitActions value }
  else none

/-- `AlterRule`: the first rule of the name. -/
def alterRule (stod : Bytes → Option UInt64) (name property value : Bytes) :
    List AlarmRule → Bool × List AlarmRule
  | [] => (false, [])
  | r :: rules =>
    if r.name = name then
      match r.alter stod property value with
      | some r => (true, r :: rules)
      | none => (false, r :: rules)
    else
      let (altered, rules) := alterRule stod name property value rules
      (altered, r :: rules)

end Alarm
end MiniTSDB
