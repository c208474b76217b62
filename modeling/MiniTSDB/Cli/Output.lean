import MiniTSDB.Lib.Csv
import MiniTSDB.Lib.Json
import MiniTSDB.Server.Rectangular

/-!
# What the client prints (`cli/main.cpp`)

A result is printed as CSV, as JSON or as a table. From the CSV every result is read back
(`read_printCSV`). The JSON has an object for each row, and it denotes the result unless some text
of it has a control character that `EscapeJSON` leaves as it is (`json_of_query`). The service sends
no row that has more or fewer values than there are columns (`rectangular_of_serve`), so the client
does not ask for a column that is not there, and the lines of a table are of one length
(`lines_of_table`).
-/

namespace MiniTSDB
namespace Cli

open Lib Os Storage Sql Auth Alarm Snapshot Server

/-- `OutputFormat`. -/
inductive OutputFormat
  | table
  | csv
  | json
  deriving DecidableEq, Repr

/-! ## CSV -/

/-- `EscapeCSV`. -/
def escapeCSV (s : Bytes) : Bytes := s.flatMap fun c => if c = 34 then [34, 34] else [c]

/-- A line of `PrintCSV`. -/
def csvLine (cells : List Bytes) : Bytes :=
  [44].intercalate (cells.map fun cell => 34 :: escapeCSV cell ++ [34]) ++ [10]

/-- `PrintCSV`. -/
def printCSV (res : QueryResponse) : Bytes := csvLine res.columns ++ res.rows.flatMap csvLine

/-- **What is printed as CSV is read back**: the columns and then the rows. -/
theorem read_printCSV (res : QueryResponse) :
    Csv.read (printCSV res) = some (res.columns :: res.rows) :=
  Csv.read_lines (res.columns :: res.rows)

/-! ## JSON -/

/-- `EscapeJSON`. -/
def escapeJSON (s : Bytes) : Bytes :=
  s.flatMap fun c =>
    if c = 34 then [92, 34]
    else if c = 92 then [92, 92]
    else if c = 10 then [92, 110]
    else if c = 13 then [92, 114]
    else if c = 9 then [92, 116]
    else [c]

/-- A text in quotes. -/
def jsonString (s : Bytes) : Bytes := 34 :: escapeJSON s ++ [34]

/-- A column with its value. -/
def jsonMember (m : Bytes × Bytes) : Bytes := jsonString m.1 ++ (ascii ": " ++ jsonString m.2)

/-- An object of `PrintJSON`; `none` where a value has no column. -/
def jsonRow (columns row : List Bytes) : Option Bytes :=
  if row.length ≤ columns.length then
    some (ascii "    \x7b" ++ ((ascii ", ").intercalate ((columns.zip row).map jsonMember)
      ++ ascii "\x7d"))
  else none

/-- `PrintJSON`. -/
def printJSON (res : QueryResponse) : Option Bytes :=
  (res.rows.mapM (jsonRow res.columns)).map fun rows =>
    ascii "\x7b\n  \"columns\": [" ++ ((ascii ", ").intercalate (res.columns.map jsonString)
      ++ (ascii "],\n  \"rows\": [\n" ++ ((ascii ",\n").intercalate rows ++ ascii "\n  ]\n\x7d\n")))

/-- The result as a value: the names of the columns, and an object for each row. -/
def document (res : QueryResponse) : Json :=
  .obj [(ascii "columns", .arr (res.columns.map .str)),
    (ascii "rows", .arr (res.rows.map fun row =>
      .obj ((res.columns.zip row).map fun m => (m.1, .str m.2))))]

/-- No text has a control character but line ends and tabs. -/
def isClean (res : QueryResponse) : Bool :=
  (res.columns.all fun s => s.all Json.isClean) &&
    res.rows.all fun row => (res.columns.zip row).all fun m =>
      m.1.all Json.isClean && m.2.all Json.isClean

/-! ### The pieces of the JSON -/

/-- The text of an object. -/
def rowText (columns row : List Bytes) : Bytes :=
  ascii "    \x7b" ++ ((ascii ", ").intercalate ((columns.zip row).map jsonMember) ++ ascii "\x7d")

theorem mapM_jsonRow {columns : List Bytes} {rows : List (List Bytes)}
    (h : ∀ row ∈ rows, row.length ≤ columns.length) :
    rows.mapM (jsonRow columns) = some (rows.map (rowText columns)) := by
  induction rows with
  | nil => rfl
  | cons row rows ih =>
    obtain ⟨hrow, hrest⟩ := List.forall_mem_cons.mp h
    rw [List.mapM_cons, jsonRow, if_pos hrow, ih hrest]
    rfl

theorem writes_jsonString (s : Bytes) :
    Json.Writes (jsonString s) (s.all Json.isClean) [.str s] := Json.writes_string s

theorem writes_comma : Json.Writes (ascii ", ") true [.mark Json.comma] :=
  Json.writes_punctuation rfl

theorem writes_jsonMember (m : Bytes × Bytes) :
    Json.Writes (jsonMember m) (m.1.all Json.isClean && m.2.all Json.isClean)
      (.str m.1 :: .mark Json.colon :: (Json.str m.2).tokens) := by
  have hcolon : Json.Writes (ascii ": ") true [.mark Json.colon] :=
    Json.writes_punctuation rfl
  have h := (writes_jsonString m.1).append (hcolon.append (writes_jsonString m.2))
  rw [Bool.true_and] at h
  rw [Json.tokens]
  exact h

theorem writes_rowText (columns row : List Bytes) :
    Json.Writes (rowText columns row)
      ((columns.zip row).all fun m => m.1.all Json.isClean && m.2.all Json.isClean)
      (Json.obj ((columns.zip row).map fun m => (m.1, .str m.2))).tokens := by
  have hopen : Json.Writes (ascii "    \x7b") true [.mark Json.openObj] :=
    Json.writes_punctuation rfl
  have hclose : Json.Writes (ascii "\x7d") true [.mark Json.closeObj] :=
    Json.writes_punctuation rfl
  have hmembers := Json.writes_pieces writes_comma writes_jsonMember (columns.zip row)
  have h := hopen.append (hmembers.append hclose)
  rw [Bool.true_and, Bool.and_true] at h
  rw [Json.tokens, Json.memberTokens_eq, List.map_map]
  exact h

/-- What stands before a name of the document, the name, and what stands behind it. -/
theorem writes_name {text front name behind : Bytes} {ts : List Json.Token}
    (htext : text = front ++ (jsonString name ++ behind)) (hname : name.all Json.isClean = true)
    (hfront : (front.all fun c => Json.isSpace c || Json.isMark c) = true)
    (hbehind : (behind.all fun c => Json.isSpace c || Json.isMark c) = true)
    (hts : ts = (front.filter fun c => !Json.isSpace c).map .mark
      ++ ([.str name] ++ (behind.filter fun c => !Json.isSpace c).map .mark)) :
    Json.Writes text true ts := by
  have h := (Json.writes_punctuation hfront).append
    ((writes_jsonString name).append (Json.writes_punctuation hbehind))
  rw [hname] at h
  rw [htext, hts]
  exact h

/-- The document begins with the name of its columns. -/
theorem writes_columns : Json.Writes (ascii "\x7b\n  \"columns\": [") true
    [.mark Json.openObj, .str (ascii "columns"), .mark Json.colon, .mark Json.openArr] := by
  have htext : ascii "\x7b\n  \"columns\": ["
      = ascii "\x7b\n  " ++ (jsonString (ascii "columns") ++ ascii ": [") := rfl
  exact writes_name htext rfl rfl rfl rfl

theorem writes_rows : Json.Writes (ascii "],\n  \"rows\": [\n") true
    [.mark Json.closeArr, .mark Json.comma, .str (ascii "rows"), .mark Json.colon,
      .mark Json.openArr] := by
  have htext : ascii "],\n  \"rows\": [\n"
      = ascii "],\n  " ++ (jsonString (ascii "rows") ++ ascii ": [\n") := rfl
  exact writes_name htext rfl rfl rfl rfl

/-- The tokens of a document. -/
theorem tokens_document (res : QueryResponse) : (document res).tokens =
    [.mark Json.openObj, .str (ascii "columns"), .mark Json.colon, .mark Json.openArr]
      ++ ([Json.Token.mark Json.comma].intercalate (res.columns.map fun s => [.str s])
        ++ ([.mark Json.closeArr, .mark Json.comma, .str (ascii "rows"), .mark Json.colon,
          .mark Json.openArr]
          ++ ([Json.Token.mark Json.comma].intercalate (res.rows.map fun row =>
              (Json.obj ((res.columns.zip row).map fun m => (m.1, .str m.2))).tokens)
            ++ [.mark Json.closeArr, .mark Json.closeObj]))) := by
  simp only [document, Json.tokens, Json.memberTokens, Json.moreMembers, Json.itemTokens_eq,
    List.map_map, List.append_assoc, List.cons_append, List.nil_append, Function.comp_def]

/-- **What is printed as JSON is the result, if it is anything.** -/
theorem writes_printJSON {res : QueryResponse}
    (h : ∀ row ∈ res.rows, row.length ≤ res.columns.length) :
    ∃ out, printJSON res = some out ∧ Json.Writes out (isClean res) (document res).tokens := by
  refine ⟨_, by rw [printJSON, mapM_jsonRow h]; rfl, ?_⟩
  have hcolumns := Json.writes_pieces writes_comma writes_jsonString res.columns
  have hbetween : Json.Writes (ascii ",\n") true [.mark Json.comma] :=
    Json.writes_punctuation rfl
  have hrows := Json.writes_pieces hbetween (writes_rowText res.columns) res.rows
  have hlast : Json.Writes (ascii "\n  ]\n\x7d\n") true
      [.mark Json.closeArr, .mark Json.closeObj] := Json.writes_punctuation rfl
  have hall := writes_columns.append (hcolumns.append (writes_rows.append (hrows.append hlast)))
  rw [Bool.true_and, Bool.true_and, Bool.and_true] at hall
  rw [tokens_document]
  exact hall

/-- The document has all of a result. -/
theorem document_injective {res res' : QueryResponse} (h : Rectangular res.columns res.rows)
    (h' : Rectangular res'.columns res'.rows) (heq : document res = document res') :
    res.columns = res'.columns ∧ res.rows = res'.rows := by
  unfold document at heq
  simp only [Json.obj.injEq, List.cons.injEq, Prod.mk.injEq, Json.arr.injEq, true_and,
    and_true] at heq
  obtain ⟨hcolumns, hrows⟩ := heq
  have hcolumns : res.columns = res'.columns :=
    List.map_injective_iff.mpr (fun _ _ h => Json.str.inj h) hcolumns
  refine ⟨hcolumns, ?_⟩
  -- a row is the second half of what its object is made of
  have hback : ∀ res : QueryResponse, Rectangular res.columns res.rows →
      res.rows = (res.rows.map fun row => res.columns.zip row).map fun row => row.map Prod.snd := by
    intro res h
    rw [List.map_map]
    conv => lhs; rw [← List.map_id res.rows]
    apply List.map_congr_left
    intro row hrow
    exact (List.map_snd_zip (h row hrow).le).symm
  have hzips : (res.rows.map fun row => res.columns.zip row)
      = res'.rows.map fun row => res'.columns.zip row := by
    have hmembers : Function.Injective fun row : List (Bytes × Bytes) =>
        Json.obj (row.map fun m => (m.1, Json.str m.2)) := by
      intro row row' h
      refine List.map_injective_iff.mpr ?_ (Json.obj.inj h)
      rintro ⟨name, value⟩ ⟨name', value'⟩ h
      simp only [Prod.mk.injEq, Json.str.injEq] at h
      rw [h.1, h.2]
    apply List.map_injective_iff.mpr hmembers
    rw [List.map_map, List.map_map]
    exact hrows
  rw [hback res h, hback res' h', hzips]

/-! ## Tables -/

/-- The widths of the columns, with a row more. -/
def widen : List Nat → List Bytes → List Nat
  | [], _ => []
  | w :: widths, [] => w :: widths
  | w :: widths, cell :: cells => max w cell.length :: widen widths cells

/-- The widths that `PrintTable` computes. -/
def tableWidths (res : QueryResponse) : List Nat :=
  res.rows.foldl widen (res.columns.map List.length)

/-- `std::setw`, to the left. -/
def padded (cell : Bytes) (w : Nat) : Bytes := cell ++ List.replicate (w - cell.length) 32

/-- `PrintRow`. -/
def tableRow (widths : List Nat) (cells : List Bytes) : Bytes :=
  ascii "| " ++ ((ascii " | ").intercalate (cells.zipWith padded widths) ++ ascii " |\n")

/-- `PrintSeparator`. -/
def tableSeparator (widths : List Nat) : Bytes :=
  ascii "+" ++ ((widths.flatMap fun w => List.replicate (w + 2) 45 ++ ascii "+") ++ ascii "\n")

/-- The lines of `PrintTable`, but for the last. -/
def tableLines (res : QueryResponse) : List Bytes :=
  let widths := tableWidths res
  tableSeparator widths :: tableRow widths res.columns :: tableSeparator widths ::
    res.rows.map (tableRow widths) ++ [tableSeparator widths]

/-- `PrintTable`. -/
def printTable (res : QueryResponse) : Bytes :=
  if res.columns.length = 0 then []
  else (tableLines res).flatten ++ (ascii "(" ++ natDecimal res.rows.length ++ ascii " rows)\n")

/-- How long a line is. -/
def lineLength : List Nat → Nat
  | [] => 2
  | w :: widths => w + 3 + lineLength widths

/-- Where a column begins. -/
def columnStart : List Nat → Nat → Nat
  | w :: widths, i + 1 => w + 3 + columnStart widths i
  | _, _ => 2

theorem columnStart_zero (widths : List Nat) : columnStart widths 0 = 2 := by
  cases widths with
  | nil => rfl
  | cons w widths => rfl

/-- The cells have room in their columns. -/
def Fits : List Nat → List Bytes → Prop := List.Forall₂ fun w cell => cell.length ≤ w

theorem length_padded {cell : Bytes} {w : Nat} (h : cell.length ≤ w) :
    (padded cell w).length = w := by
  rw [padded, List.length_append, List.length_replicate]
  omega

theorem widen_length (widths : List Nat) (cells : List Bytes) :
    (widen widths cells).length = widths.length := by
  induction widths generalizing cells with
  | nil => rfl
  | cons w widths ih =>
    cases cells with
    | nil => rfl
    | cons cell cells => rw [widen, List.length_cons, ih, List.length_cons]

/-- A row fits when its cells have been looked at, -/
theorem fits_widen {widths : List Nat} {cells : List Bytes} (h : cells.length = widths.length) :
    Fits (widen widths cells) cells := by
  induction widths generalizing cells with
  | nil =>
    rw [List.length_eq_zero_iff.mp h]
    exact .nil
  | cons w widths ih =>
    cases cells with
    | nil => cases h
    | cons cell cells => exact .cons (le_max_right _ _) (ih (Nat.succ.inj h))

/-- and goes on fitting. -/
theorem Fits.widen {widths : List Nat} {cells : List Bytes} (h : Fits widths cells)
    (other : List Bytes) : Fits (widen widths other) cells := by
  induction h generalizing other with
  | nil => exact .nil
  | cons hfirst hrest ih =>
    cases other with
    | nil => exact .cons hfirst hrest
    | cons cell other => exact .cons (hfirst.trans (le_max_left _ _)) (ih other)

theorem fits_foldl {rows : List (List Bytes)} {widths : List Nat} {cells : List Bytes}
    (h : Fits widths cells) : Fits (rows.foldl Cli.widen widths) cells := by
  induction rows generalizing widths with
  | nil => exact h
  | cons row rows ih => exact ih (h.widen row)

theorem fits_rows {rows : List (List Bytes)} {widths : List Nat}
    (hrect : ∀ row ∈ rows, row.length = widths.length) :
    ∀ row ∈ rows, Fits (rows.foldl Cli.widen widths) row := by
  induction rows generalizing widths with
  | nil => exact fun row hrow => absurd hrow List.not_mem_nil
  | cons first rows ih =>
    obtain ⟨hfirst, hrest⟩ := List.forall_mem_cons.mp hrect
    intro row hrow
    rcases List.mem_cons.mp hrow with rfl | hrow
    · show Fits (rows.foldl Cli.widen (Cli.widen widths row)) row
      exact fits_foldl (fits_widen hfirst)
    · refine ih (fun row hrow => ?_) row hrow
      rw [widen_length]
      exact hrest row hrow

/-- **Every line of a table has room for its cells.** -/
theorem fits_tableWidths {res : QueryResponse} (h : Rectangular res.columns res.rows) :
    ∀ cells ∈ res.columns :: res.rows, Fits (tableWidths res) cells := by
  intro cells hcells
  rcases List.mem_cons.mp hcells with rfl | hcells
  · apply fits_foldl
    exact List.forall₂_map_left_iff.mpr (List.forall₂_same.mpr fun cell _ => le_refl cell.length)
  · apply fits_rows _ cells hcells
    intro row hrow
    rw [List.length_map]
    exact h row hrow

/-- What comes behind a cell of a line. -/
def behindCell (widths : List Nat) (cells : List Bytes) : Bytes :=
  ((cells.zipWith padded widths).flatMap fun cell => ascii " | " ++ cell) ++ ascii " |\n"

theorem behindCell_cons (w : Nat) (widths : List Nat) (cell : Bytes) (cells : List Bytes) :
    behindCell (w :: widths) (cell :: cells)
      = ascii " | " ++ (padded cell w ++ behindCell widths cells) := by
  unfold behindCell
  rw [List.zipWith_cons_cons, List.flatMap_cons]
  simp only [List.append_assoc]

theorem tableRow_cons (w : Nat) (widths : List Nat) (cell : Bytes) (cells : List Bytes) :
    tableRow (w :: widths) (cell :: cells)
      = ascii "| " ++ (padded cell w ++ behindCell widths cells) := by
  unfold tableRow behindCell
  rw [List.zipWith_cons_cons, Json.intercalate_cons_flatMap]
  simp only [List.append_assoc]

theorem length_comesNext : (ascii " | ").length = 3 := rfl

theorem length_comesFirst : (ascii "| ").length = 2 := rfl

theorem length_behindCell {widths : List Nat} {cells : List Bytes} (h : Fits widths cells) :
    (behindCell widths cells).length = lineLength widths + 1 := by
  induction h with
  | nil => rfl
  | cons hfirst hrest ih =>
    rw [behindCell_cons, List.length_append, List.length_append, length_padded hfirst, ih,
      lineLength, length_comesNext]
    omega

theorem drop_past {front rest : Bytes} {n : Nat} (h : front.length = n) (k : Nat) :
    (front ++ rest).drop (n + k) = rest.drop k := by
  rw [← h, List.drop_length_add_append]

/-- A cell stands at the beginning of its column, -/
theorem cell_behindCell {widths : List Nat} {cells : List Bytes} (h : Fits widths cells) {i w : Nat}
    {cell : Bytes} (hw : widths[i]? = some w) (hcell : cells[i]? = some cell) :
    ((behindCell widths cells).drop (columnStart widths i + 1)).take w = padded cell w := by
  induction h generalizing i with
  | nil => cases hw
  | @cons w₀ cell₀ widths cells hfirst hrest ih =>
    have hstart := length_padded hfirst
    rw [behindCell_cons]
    cases i with
    | zero =>
      cases hw
      cases hcell
      rw [columnStart_zero, List.drop_left' length_comesNext, List.take_left' hstart]
    | succ i =>
      have hsplit : columnStart (w₀ :: widths) (i + 1) + 1
          = 3 + (w₀ + (columnStart widths i + 1)) := by
        rw [columnStart]
        omega
      rw [hsplit, drop_past length_comesNext, drop_past hstart]
      exact ih hw hcell

/-- with spaces behind it. -/
theorem cell_tableRow {widths : List Nat} {cells : List Bytes} (h : Fits widths cells) {i w : Nat}
    {cell : Bytes} (hw : widths[i]? = some w) (hcell : cells[i]? = some cell) :
    ((tableRow widths cells).drop (columnStart widths i)).take w = padded cell w := by
  cases h with
  | nil => cases hw
  | @cons w₀ cell₀ widths cells hfirst hrest =>
    have hstart := length_padded hfirst
    rw [tableRow_cons]
    cases i with
    | zero =>
      cases hw
      cases hcell
      rw [columnStart_zero, List.drop_left' length_comesFirst, List.take_left' hstart]
    | succ i =>
      have hsplit : columnStart (w₀ :: widths) (i + 1)
          = 2 + (w₀ + (columnStart widths i + 1)) := by
        rw [columnStart]
        omega
      rw [hsplit, drop_past length_comesFirst, drop_past hstart]
      exact cell_behindCell hrest hw hcell

theorem length_tableRow {widths : List Nat} {cells : List Bytes} (h : Fits widths cells)
    (hne : cells ≠ []) : (tableRow widths cells).length = lineLength widths := by
  cases h with
  | nil => exact absurd rfl hne
  | cons hfirst hrest =>
    rw [tableRow_cons, List.length_append, List.length_append, length_padded hfirst,
      length_behindCell hrest, lineLength, length_comesFirst]
    omega

theorem length_tableSeparator (widths : List Nat) :
    (tableSeparator widths).length = lineLength widths := by
  unfold tableSeparator
  induction widths with
  | nil => rfl
  | cons w widths ih =>
    rw [List.length_append, List.length_append] at ih
    rw [List.flatMap_cons, List.length_append, List.length_append, List.length_append,
      List.length_append, List.length_replicate, lineLength]
    have hplus : (ascii "+").length = 1 := rfl
    omega

/-! ## What the service sends is printed -/

/-- `PrintResult`. -/
def printResult (res : QueryResponse) : OutputFormat → Option Bytes
  | .table => some (printTable res)
  | .csv => some (printCSV res)
  | .json => printJSON res

section

variable {Loc V : Type} [DecidableEq Loc]
variable [LinearOrder V] [Zero V] [Add V] [Mul V] [Div V] [NatCast V] [Sub V]

/-- **The JSON of what the service sends** is printed, and it denotes the document of the result if
no text in it has a control character but line ends and tabs; otherwise it denotes nothing. The
document has all of the result. -/
theorem json_of_serve {w : World Loc V} {s : Service Loc} {call : CallEnv × Request}
    {res : QueryResponse} (h : (serve w s call).1 = .query res) :
    ∃ out, printJSON res = some out ∧
      (∀ value, Json.Denotes out value ↔ isClean res = true ∧ value = document res) ∧
      ∀ res', Rectangular res'.columns res'.rows → document res' = document res →
        res'.columns = res.columns ∧ res'.rows = res.rows := by
  have hrect := rectangular_of_serve h
  obtain ⟨out, hout, hwrites⟩ := writes_printJSON fun row hrow => (hrect row hrow).le
  exact ⟨out, hout, fun value => hwrites.denotes_iff,
    fun res' hrect' heq => document_injective hrect' hrect heq⟩

/-- Whatever the service sends can be printed in each format. -/
theorem isSome_printResult {w : World Loc V} {s : Service Loc} {call : CallEnv × Request}
    {res : QueryResponse} (h : (serve w s call).1 = .query res) (fmt : OutputFormat) :
    (printResult res fmt).isSome = true := by
  cases fmt with
  | table => rfl
  | csv => rfl
  | json =>
    obtain ⟨out, hout, -⟩ := writes_printJSON fun row hrow => (rectangular_of_serve h row hrow).le
    rw [printResult, hout]
    rfl

/-- **The table of what the service sends**: its lines are of one length, and in each of them, that
of the columns too, a cell stands where its column begins, with spaces up to the width of it. -/
theorem table_of_serve {w : World Loc V} {s : Service Loc} {call : CallEnv × Request}
    {res : QueryResponse} (h : (serve w s call).1 = .query res) (hcolumns : res.columns ≠ []) :
    (∀ line ∈ tableLines res, line.length = lineLength (tableWidths res)) ∧
      ∀ cells ∈ res.columns :: res.rows, ∀ i cell, cells[i]? = some cell →
        ∃ width, (tableWidths res)[i]? = some width ∧ cell.length ≤ width ∧
          ((tableRow (tableWidths res) cells).drop (columnStart (tableWidths res) i)).take width
            = cell ++ List.replicate (width - cell.length) 32 := by
  have hrect := rectangular_of_serve h
  have hfits := fits_tableWidths hrect
  have hne : ∀ cells ∈ res.columns :: res.rows, cells ≠ [] := by
    intro cells hcells hnil
    rcases List.mem_cons.mp hcells with rfl | hcells
    · exact hcolumns hnil
    · have hlen := hrect cells hcells
      rw [hnil] at hlen
      exact hcolumns (List.length_eq_zero_iff.mp hlen.symm)
  have hrow : ∀ cells ∈ res.columns :: res.rows,
      (tableRow (tableWidths res) cells).length = lineLength (tableWidths res) :=
    fun cells hcells => length_tableRow (hfits cells hcells) (hne cells hcells)
  constructor
  · intro line hline
    unfold tableLines at hline
    simp only [List.mem_cons, List.mem_append, List.mem_map, List.not_mem_nil, or_false] at hline
    rcases hline with (rfl | rfl | rfl | ⟨row, hmem, rfl⟩) | rfl
    · exact length_tableSeparator _
    · exact hrow _ List.mem_cons_self
    · exact length_tableSeparator _
    · exact hrow row (List.mem_cons_of_mem _ hmem)
    · exact length_tableSeparator _
  · intro cells hcells i cell hcell
    have hfit := hfits cells hcells
    obtain ⟨hi, hget⟩ := List.getElem?_eq_some_iff.mp hcell
    have hi' : i < (tableWidths res).length := by rw [hfit.length_eq]; exact hi
    have hwidth : (tableWidths res)[i]? = some (tableWidths res)[i] := List.getElem?_eq_getElem hi'
    refine ⟨_, hwidth, ?_, cell_tableRow hfit hwidth hcell⟩
    have hle := hfit.get hi' hi
    rw [List.get_eq_getElem, List.get_eq_getElem, hget] at hle
    exact hle

end

/-- The administrator has logged in, and asks for the tables. -/
def loggedIn : Service Bytes :=
  (serve plainWorld plainService
    (callAt 1 (ascii "t"), .auth (ascii "admin") (ascii "admin123"))).2

def tablesCall : CallEnv × Request :=
  ({ callAt 2 [] with
      listing := some [{ name := ascii "a", isDirectory := true, fileSize := 0 }] },
    .query (ascii "t") (ascii "SHOW TABLES"))

def tablesResponse : QueryResponse :=
  { ok := true, columns := [ascii "Table"], rows := [[ascii "a"]] }

theorem json_of_tablesCall : ∃ out, printJSON tablesResponse = some out ∧
    (∀ value, Json.Denotes out value ↔
      isClean tablesResponse = true ∧ value = document tablesResponse) ∧
    ∀ res', Rectangular res'.columns res'.rows → document res' = document tablesResponse →
      res'.columns = tablesResponse.columns ∧ res'.rows = tablesResponse.rows :=
  have h : (serve plainWorld loggedIn tablesCall).1 = .query tablesResponse := by decide
  json_of_serve h

theorem table_of_tablesCall :
    (∀ line ∈ tableLines tablesResponse, line.length = lineLength (tableWidths tablesResponse)) ∧
      ∀ cells ∈ tablesResponse.columns :: tablesResponse.rows, ∀ i cell, cells[i]? = some cell →
        ∃ width, (tableWidths tablesResponse)[i]? = some width ∧ cell.length ≤ width ∧
          ((tableRow (tableWidths tablesResponse) cells).drop
              (columnStart (tableWidths tablesResponse) i)).take width
            = cell ++ List.replicate (width - cell.length) 32 :=
  have h : (serve plainWorld loggedIn tablesCall).1 = .query tablesResponse := by decide
  table_of_serve h (List.cons_ne_nil _ _)

end Cli
end MiniTSDB
