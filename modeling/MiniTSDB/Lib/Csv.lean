import Mathlib.Data.List.Basic

/-!
# Reading CSV

Records are lines, and their fields stand between commas. A field in quotes may have anything in it,
with its quotes doubled; one without them has neither quotes nor commas nor line ends. A line with
nothing on it is a record without fields.
-/

namespace MiniTSDB
namespace Lib

namespace Csv

abbrev quote : UInt8 := 34
abbrev separator : UInt8 := 44
abbrev lineEnd : UInt8 := 10

/-- Where the reader is in a field: at its beginning, within it, or behind a quote in it that either
ends it or is the first of two. -/
inductive Place
  | fresh
  | bare (field : List UInt8)
  | quoted (field : List UInt8)
  | closed (field : List UInt8)
  deriving DecidableEq, Repr

/-- The records so far, and the fields so far of the one being read. -/
structure State where
  records : List (List (List UInt8))
  fields : List (List UInt8)
  place : Place
  deriving DecidableEq, Repr

/-- The field is over, and another one comes. -/
def State.nextField (s : State) (field : List UInt8) : State :=
  { s with fields := s.fields ++ [field], place := .fresh }

/-- The record is over. -/
def State.nextRecord (s : State) (fields : List (List UInt8)) : State :=
  { records := s.records ++ [fields], fields := [], place := .fresh }

/-- One character; `none` where it may not stand. -/
def State.step (s : State) (c : UInt8) : Option State :=
  match s.place with
  | .fresh =>
    if c = quote then some { s with place := .quoted [] }
    else if c = separator then some (s.nextField [])
    else if c = lineEnd then
      some (s.nextRecord (if s.fields.isEmpty then [] else s.fields ++ [[]]))
    else some { s with place := .bare [c] }
  | .bare field =>
    if c = quote then none
    else if c = separator then some (s.nextField field)
    else if c = lineEnd then some (s.nextRecord (s.fields ++ [field]))
    else some { s with place := .bare (field ++ [c]) }
  | .quoted field =>
    if c = quote then some { s with place := .closed field }
    else some { s with place := .quoted (field ++ [c]) }
  | .closed field =>
    if c = quote then some { s with place := .quoted (field ++ [quote]) }
    else if c = separator then some (s.nextField field)
    else if c = lineEnd then some (s.nextRecord (s.fields ++ [field]))
    else none

/-- The last line may lack its end. -/
def State.finish (s : State) : Option (List (List (List UInt8))) :=
  match s.place with
  | .fresh => some (if s.fields.isEmpty then s.records else s.records ++ [s.fields ++ [[]]])
  | .bare field => some (s.records ++ [s.fields ++ [field]])
  | .quoted _ => none
  | .closed field => some (s.records ++ [s.fields ++ [field]])

/-- The records of a text. -/
def read (text : List UInt8) : Option (List (List (List UInt8))) :=
  (text.foldlM State.step { records := [], fields := [], place := .fresh }).bind State.finish

/-! ## Fields in quotes -/

/-- A field in quotes. -/
def inQuotes (field : List UInt8) : List UInt8 :=
  quote :: (field.flatMap fun c => if c = quote then [quote, quote] else [c]) ++ [quote]

/-- A record of them. -/
def line (fields : List (List UInt8)) : List UInt8 :=
  [separator].intercalate (fields.map inQuotes) ++ [lineEnd]

variable (records : List (List (List UInt8))) (fields : List (List UInt8))

/-- Within the quotes everything is read, the doubled quotes as one. -/
theorem step_doubled (field front : List UInt8) :
    (field.flatMap fun c => if c = quote then [quote, quote] else [c]).foldlM State.step
        { records := records, fields := fields, place := .quoted front }
      = some { records := records, fields := fields, place := .quoted (front ++ field) } := by
  induction field generalizing front with
  | nil => simp
  | cons c field ih =>
    have hfront : front ++ c :: field = (front ++ [c]) ++ field := by simp
    rw [List.flatMap_cons, List.foldlM_append, hfront, ← ih (front ++ [c])]
    by_cases hc : c = quote
    · subst hc
      rfl
    · rw [if_neg hc]
      simp [State.step, hc]

theorem step_inQuotes (field : List UInt8) :
    (inQuotes field).foldlM State.step { records := records, fields := fields, place := .fresh }
      = some { records := records, fields := fields, place := .closed field } := by
  have hopen : (State.mk records fields .fresh).step quote
      = some { records := records, fields := fields, place := .quoted [] } := rfl
  rw [inQuotes, List.cons_append, List.foldlM_cons, hopen, Option.bind_eq_bind, Option.bind_some,
    List.foldlM_append, step_doubled, Option.bind_eq_bind, Option.bind_some]
  rfl

/-- The fields of a line, the last of them not yet over. -/
theorem step_fields (field : List UInt8) (rest : List (List UInt8)) :
    ([separator].intercalate ((field :: rest).map inQuotes)).foldlM State.step
        { records := records, fields := fields, place := .fresh }
      = some { records := records, fields := fields ++ (field :: rest).dropLast
               place := .closed ((field :: rest).getLast (List.cons_ne_nil field rest)) } := by
  induction rest generalizing field fields with
  | nil =>
    rw [List.map_singleton, List.intercalate_singleton, step_inQuotes]
    simp
  | cons next rest ih =>
    have hnext : (State.mk records fields (.closed field)).step separator
        = some { records := records, fields := fields ++ [field], place := .fresh } := rfl
    have hlist : [separator].intercalate ((field :: next :: rest).map inQuotes)
        = inQuotes field ++ separator :: [separator].intercalate ((next :: rest).map inQuotes) := by
      simp [List.intercalate]
    rw [hlist, List.foldlM_append, step_inQuotes, Option.bind_eq_bind, Option.bind_some,
      List.foldlM_cons, hnext, Option.bind_eq_bind, Option.bind_some, ih]
    simp

/-- **A line of fields in quotes is the record of these fields.** -/
theorem step_line :
    (line fields).foldlM State.step { records := records, fields := [], place := .fresh }
      = some { records := records ++ [fields], fields := [], place := .fresh } := by
  cases fields with
  | nil => rfl
  | cons field rest =>
    rw [line, List.foldlM_append, step_fields, Option.bind_eq_bind, Option.bind_some]
    have hends : (State.mk records ((field :: rest).dropLast)
        (.closed ((field :: rest).getLast (List.cons_ne_nil field rest)))).step lineEnd
          = some { records := records ++ [(field :: rest).dropLast
                     ++ [(field :: rest).getLast (List.cons_ne_nil field rest)]]
                   fields := [], place := .fresh } := rfl
    rw [List.nil_append, List.foldlM_cons, hends, List.dropLast_append_getLast]
    rfl

theorem step_lines (lines : List (List (List UInt8))) :
    (lines.flatMap line).foldlM State.step { records := records, fields := [], place := .fresh }
      = some { records := records ++ lines, fields := [], place := .fresh } := by
  induction lines generalizing records with
  | nil => simp
  | cons fields lines ih =>
    rw [List.flatMap_cons, List.foldlM_append, step_line, Option.bind_eq_bind, Option.bind_some, ih]
    simp

/-- **Lines of fields in quotes are read back.** -/
theorem read_lines (lines : List (List (List UInt8))) : read (lines.flatMap line) = some lines := by
  rw [read, step_lines]
  rfl

end Csv

end Lib
end MiniTSDB
