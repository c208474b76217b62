import MiniTSDB.Sql.DeleteFrame

/-!
# The text of an `INSERT`

An `INSERT` whose values are quoted, their quotes doubled, is parsed to the table, the columns and
the rows that it was written from. The loops over columns and values find the end of an item by
its first character behind it, so both are one induction over a list with commas in between.
-/

namespace MiniTSDB
namespace Sql

open Lib

/-! ## Texts with commas in between -/

/-- The items, with a comma and a space between any two. -/
def commaList : List Bytes → Bytes
  | [] => []
  | [x] => x
  | x :: y :: rest => x ++ (ascii ", " ++ commaList (y :: rest))

/-- `'...'`, every quote doubled. -/
def quoted (x : Bytes) : Bytes := quote :: (doubleQuotes x ++ [quote])

/-- `('v1', 'v2', ...)` -/
def rowText (row : List Bytes) : Bytes := openParen :: (commaList (row.map quoted) ++ [closeParen])

/-- `INSERT INTO t (c1, ..., ck) VALUES ('v11', ...), ...` -/
def insertText (t : Bytes) (columns : List Bytes) (rows : List (List Bytes)) : Bytes :=
  ascii "INSERT INTO " ++ (t ++ (ascii " (" ++ (commaList columns ++ (ascii ") VALUES "
    ++ commaList (rows.map rowText)))))

/-- A character that `SkipWhitespace` does not skip. -/
def Stays (c : UInt8) : Prop := isBlank c = false ∧ c ≠ comma

theorem stays_iff {c : UInt8} : Stays c ↔ (!(isBlank c || c = comma)) = true := by
  simp [Stays]

/-- **`SkipWhitespace` goes to the first character that is none.** -/
theorem skipWhitespace_append {before : Bytes} (skipped after : Bytes) {pos : Nat}
    (hpos : before.length = pos) (hskipped : skipped.all (fun c => isBlank c || c = comma) = true)
    (hafter : after = [] ∨ ∃ c rest, after = c :: rest ∧ Stays c) :
    skipWhitespace (before ++ (skipped ++ after)) pos = pos + skipped.length := by
  have hnone : after.takeWhile (fun c => !(!(isBlank c || c = comma))) = [] := by
    rcases hafter with rfl | ⟨c, rest, rfl, hc⟩
    · rfl
    · rw [List.takeWhile_cons, if_neg]
      rw [stays_iff.mp hc]
      decide
  rw [skipWhitespace, skipUntil_append hpos, List.takeWhile_append_of_pos, hnone, List.append_nil]
  intro c hc
  rw [Bool.not_not]
  exact List.all_eq_true.mp hskipped c hc

theorem skipWhitespace_stays {before rest : Bytes} {c : UInt8} {pos : Nat}
    (hpos : before.length = pos) (hc : Stays c) : skipWhitespace (before ++ c :: rest) pos = pos :=
  skipWhitespace_append [] (c :: rest) hpos (by simp) (.inr ⟨c, rest, rfl, hc⟩)

/-- The text behind an item: a comma, or the end of the list. -/
def EndsItem (after : Bytes) : Prop := ∃ c rest, after = c :: rest ∧ (c = comma ∨ c = closeParen)

/-- A loop over the items of a list, from a position in the text on. -/
abbrev ItemLoop := Bytes → Nat → Nat → List Bytes → Parsing (List Bytes × Nat)

/-- What the two loops have in common, for the items and the way to write them. -/
structure ReadsItems (loop : ItemLoop) (Item : Bytes → Prop) (write : Bytes → Bytes) : Prop where
  /-- the loop ends at a closing parenthesis -/
  stop : ∀ {sql fuel pos items}, sql[pos]? = some closeParen →
    loop sql (fuel + 1) pos items = .ok (items, pos)
  /-- what is written of an item starts with no blank -/
  starts : ∀ {x}, Item x → ∃ c rest, write x = c :: rest ∧ Stays c
  /-- an item is read, and what separates it from the next one skipped -/
  item : ∀ {before after x fuel items}, Item x → EndsItem after →
    loop (before ++ (write x ++ after)) (fuel + 1) before.length items
      = loop (before ++ (write x ++ after)) fuel
        (skipWhitespace (before ++ (write x ++ after)) (before.length + (write x).length))
        (items ++ [x])

theorem getElem?_append_length (before rest : Bytes) (c : UInt8) :
    (before ++ c :: rest)[before.length]? = some c := by
  rw [List.getElem?_append_right (Nat.le_refl _), Nat.sub_self]
  rfl

/-- **A list of items is read back**, up to the parenthesis behind it. -/
theorem ReadsItems.commaList {loop : ItemLoop} {Item : Bytes → Prop} {write : Bytes → Bytes}
    (h : ReadsItems loop Item write) {xs : List Bytes} (hxs : ∀ x ∈ xs, Item x)
    (before after : Bytes) (items : List Bytes) {fuel : Nat} (hfuel : xs.length < fuel) :
    loop (before ++ (commaList (xs.map write) ++ closeParen :: after)) fuel before.length items
      = .ok (items ++ xs, before.length + (Sql.commaList (xs.map write)).length) := by
  induction xs generalizing before items fuel with
  | nil =>
    obtain ⟨fuel, rfl⟩ := Nat.exists_eq_succ_of_ne_zero (Nat.ne_of_gt hfuel)
    rw [List.append_nil]
    exact h.stop (getElem?_append_length before after closeParen)
  | cons x xs ih =>
    rw [List.length_cons] at hfuel
    obtain ⟨fuel, rfl⟩ := Nat.exists_eq_succ_of_ne_zero (Nat.ne_of_gt (Nat.zero_lt_of_lt hfuel))
    have hrest : xs.length < fuel := Nat.lt_of_succ_lt_succ hfuel
    have hx := hxs x List.mem_cons_self
    rcases xs with _ | ⟨y, rest⟩
    · -- The last item: the parenthesis is next.
      show loop (before ++ (write x ++ closeParen :: after)) _ _ _ = _
      have hend : EndsItem (closeParen :: after) := ⟨closeParen, after, rfl, .inr rfl⟩
      have hlen : (before ++ write x).length = before.length + (write x).length :=
        List.length_append
      have hat := getElem?_append_length (before ++ write x) after closeParen
      obtain ⟨fuel, rfl⟩ := Nat.exists_eq_succ_of_ne_zero (Nat.ne_of_gt hrest)
      rw [h.item hx hend, ← List.append_assoc, skipWhitespace_stays hlen ⟨by decide, by decide⟩,
        ← hlen, h.stop hat, hlen]
      rfl
    · have hy := hxs y (List.mem_cons_of_mem x List.mem_cons_self)
      obtain ⟨c, tail, hwrite, hc⟩ := h.starts hy
      have hnext : ∃ c' tail', Sql.commaList ((y :: rest).map write) ++ closeParen :: after
          = c' :: tail' ∧ Stays c' := by
        rcases rest with _ | ⟨z, rest⟩
        · exact ⟨c, _, by show write y ++ _ = _; rw [hwrite]; rfl, hc⟩
        · exact ⟨c, _, by show (write y ++ _) ++ _ = _; rw [hwrite]; rfl, hc⟩
      have hsplit : before ++ (Sql.commaList ((x :: y :: rest).map write) ++ closeParen :: after)
          = before ++ (write x ++ (ascii ", "
            ++ (Sql.commaList ((y :: rest).map write) ++ closeParen :: after))) := by
        show before ++ ((write x ++ (ascii ", " ++ _)) ++ _) = _
        simp only [List.append_assoc]
        rfl
      have hsplit' : before ++ (write x ++ (ascii ", "
            ++ (Sql.commaList ((y :: rest).map write) ++ closeParen :: after)))
          = (before ++ (write x ++ ascii ", "))
            ++ (Sql.commaList ((y :: rest).map write) ++ closeParen :: after) := by
        simp only [List.append_assoc]
      have hskip : skipWhitespace (before ++ (write x ++ (ascii ", "
            ++ (Sql.commaList ((y :: rest).map write) ++ closeParen :: after))))
            (before.length + (write x).length)
          = (before ++ (write x ++ ascii ", ")).length := by
        rw [← List.append_assoc, skipWhitespace_append _ _ List.length_append rfl
          (.inr hnext)]
        simp only [List.length_append, Nat.add_assoc]
      have hend : EndsItem (ascii ", "
          ++ (Sql.commaList ((y :: rest).map write) ++ closeParen :: after)) :=
        ⟨comma, _, rfl, .inl rfl⟩
      rw [hsplit, h.item hx hend, hskip, hsplit',
        ih (fun z hz => hxs z (List.mem_cons_of_mem x hz)) _ _ hrest]
      have hlen : (before ++ (write x ++ ascii ", ")).length
          + (Sql.commaList ((y :: rest).map write)).length
            = before.length + (Sql.commaList ((x :: y :: rest).map write)).length := by
        show _ = before.length + (write x ++ (ascii ", " ++ _)).length
        simp only [List.length_append, Nat.add_assoc]
        rfl
      rw [hlen, List.append_assoc]
      rfl

/-! ## The columns and the values -/

theorem stays_of_isNameChar {c : UInt8} (hc : isNameChar c = true) : Stays c :=
  ⟨not_isBlank_of_isNameChar hc, ne_of_isNameChar hc (by decide)⟩

theorem goesOn_append {before rest : Bytes} {c stop : UInt8} (hc : c ≠ stop) :
    goesOn (before ++ c :: rest) before.length stop = true :=
  goesOn_iff.mpr ⟨c, getElem?_append_length before rest c, hc⟩

/-- A name is cut out of the text at what ends it. -/
theorem skipUntil_name {stop : UInt8 → Bool} (before : Bytes) {x after : Bytes}
    (hx : ∀ c ∈ x, stop c = false) (hafter : ∃ c rest, after = c :: rest ∧ stop c = true) :
    skipUntil stop (before ++ (x ++ after)) before.length = before.length + x.length := by
  obtain ⟨c, rest, rfl, hc⟩ := hafter
  rw [skipUntil_append rfl, List.takeWhile_append_of_pos, List.takeWhile_cons, if_neg,
    List.append_nil]
  · rw [hc]
    decide
  · intro c hc
    rw [hx c hc]
    rfl

theorem insertColumns_reads : ReadsItems insertColumns IsTableName id where
  stop h := by
    rw [insertColumns, goesOn, h]
    rfl
  starts hx := by
    obtain ⟨c, rest, rfl⟩ := List.exists_cons_of_ne_nil hx.nonempty
    exact ⟨c, rest, rfl, stays_of_isNameChar (hx.chars c List.mem_cons_self)⟩
  item := by
    intro before after x fuel items hx hend
    have hnot : ∀ c ∈ x, (decide (c = comma) || decide (c = closeParen)) = false := by
      intro c hc
      have hcomma : c ≠ comma := ne_of_isNameChar (hx.chars c hc) (by decide)
      have hclose : c ≠ closeParen := ne_of_isNameChar (hx.chars c hc) (by decide)
      simp [hcomma, hclose]
    have hstop : ∃ c rest, after = c :: rest ∧
        (decide (c = comma) || decide (c = closeParen)) = true := by
      obtain ⟨c, rest, rfl, hc⟩ := hend
      exact ⟨c, rest, rfl, by rcases hc with rfl | rfl <;> decide⟩
    have hskip := skipUntil_name before hnot hstop
    obtain ⟨c, rest, hcons⟩ := List.exists_cons_of_ne_nil hx.nonempty
    have hname : isNameChar c = true := hx.chars c (by rw [hcons]; exact List.mem_cons_self)
    have hstart : skipWhitespace (before ++ (x ++ after)) before.length = before.length := by
      rw [hcons]
      exact skipWhitespace_stays rfl (stays_of_isNameChar hname)
    have hgoes : goesOn (before ++ (x ++ after)) before.length closeParen = true := by
      rw [hcons]
      exact goesOn_append (ne_of_isNameChar hname (by decide))
    rw [id, insertColumns, if_pos hgoes]
    simp only [hstart, hskip]
    rw [substrTo_append rfl rfl]
    show insertColumns _ fuel _ (items ++ [trim x]) = _
    rw [trim_eq hx.tight]

theorem insertValues_reads : ReadsItems insertValues (fun _ => True) quoted where
  stop h := by
    rw [insertValues, goesOn, h]
    rfl
  starts {x} _ := ⟨quote, doubleQuotes x ++ [quote], rfl, by decide, by decide⟩
  item := by
    intro before after x fuel items _ hend
    have hquote : after.head? ≠ some quote := by
      obtain ⟨c, rest, rfl, hc⟩ := hend
      rw [List.head?_cons]
      rcases hc with rfl | rfl <;> decide
    have htext : quoted x ++ after = quote :: (doubleQuotes x ++ quote :: after) := by
      simp only [quoted, List.cons_append, List.append_assoc, List.nil_append]
    have hlen : (quoted x).length = (doubleQuotes x).length + 2 := by
      simp only [quoted, List.length_cons, List.length_append, List.length_nil]
    rw [htext, hlen]
    have hstart : skipWhitespace (before ++ quote :: (doubleQuotes x ++ quote :: after))
        before.length = before.length := skipWhitespace_stays rfl ⟨by decide, by decide⟩
    have hchar : charAt (before ++ quote :: (doubleQuotes x ++ quote :: after)) before.length
        = .ok quote := by
      rw [charAt_ok (by rw [List.length_append]; omega), List.getD_eq_getElem?_getD,
        getElem?_append_length, Option.getD_some]
    rw [insertValues, if_pos (goesOn_append (by decide))]
    simp only [hstart, hchar]
    rw [extractQuoted_append rfl, extractQuoted_doubleQuotes x hquote, Nat.add_comm _ before.length]
    rfl

/-! ## The rows -/

/-- Every item takes at least a character. -/
theorem length_le_commaList {xs : List Bytes} (h : ∀ x ∈ xs, x ≠ []) :
    xs.length ≤ (commaList xs).length := by
  induction xs with
  | nil => exact Nat.le_refl 0
  | cons x xs ih =>
    have hx := List.length_pos_iff.mpr (h x List.mem_cons_self)
    have hrest := ih fun y hy => h y (List.mem_cons_of_mem x hy)
    rcases xs with _ | ⟨y, rest⟩
    · exact hx
    · show _ ≤ (x ++ (ascii ", " ++ commaList (y :: rest))).length
      rw [List.length_append, List.length_append, List.length_cons]
      omega

theorem length_lt_rowText (row : List Bytes) : row.length + 1 < (rowText row).length := by
  have hle : (row.map quoted).length ≤ (commaList (row.map quoted)).length := by
    refine length_le_commaList fun x hx => ?_
    obtain ⟨v, -, rfl⟩ := List.mem_map.mp hx
    exact List.cons_ne_nil _ _
  rw [List.length_map] at hle
  rw [rowText, List.length_cons, List.length_append, List.length_singleton]
  omega

/-- One row, from its opening parenthesis on. -/
theorem insertRows_row (before after : Bytes) (row : List Bytes) (rows : List (List Bytes))
    {fuel : Nat} (hfuel : row.length < fuel) :
    insertRows (before ++ (rowText row ++ after)) (fuel + 1) before.length rows
      = insertRows (before ++ (rowText row ++ after)) fuel
        (skipWhitespace (before ++ (rowText row ++ after)) (before.length + (rowText row).length))
        (rows ++ [row]) := by
  have htext : before ++ (rowText row ++ after)
      = (before ++ [openParen]) ++ (commaList (row.map quoted) ++ closeParen :: after) := by
    simp only [rowText, List.cons_append, List.append_assoc, List.nil_append]
  have hopen : (before ++ (rowText row ++ after))[before.length]? = some openParen :=
    getElem?_append_length before _ openParen
  have hvalues := insertValues_reads.commaList (fun x _ => trivial) (before ++ [openParen]) after
    [] hfuel
  rw [← htext, List.nil_append, List.length_append, List.length_singleton] at hvalues
  have hlen : (rowText row).length = 1 + (commaList (row.map quoted)).length + 1 := by
    rw [rowText, List.length_cons, List.length_append, List.length_singleton]
    omega
  have hlt : before.length + 1 + (commaList (row.map quoted)).length
      < (before ++ (rowText row ++ after)).length := by
    rw [List.length_append, List.length_append]
    omega
  rw [insertRows, if_pos hopen, hvalues]
  show insertRows _ fuel (skipWhitespace _ (if _ < _ then _ else _)) _ = _
  rw [if_pos hlt, hlen]
  simp only [Nat.add_assoc]

/-- **The rows are read back**, up to the end of the text. -/
theorem insertRows_eq (rows : List (List Bytes)) (before : Bytes) (read : List (List Bytes))
    {fuel : Nat} (hfuel : (commaList (rows.map rowText)).length < fuel) :
    insertRows (before ++ commaList (rows.map rowText)) fuel before.length read
      = .ok (read ++ rows) := by
  have hend : ∀ (text : Bytes) (fuel : Nat) (rows : List (List Bytes)),
      insertRows text (fuel + 1) text.length rows = .ok rows := by
    intro text fuel rows
    rw [insertRows, List.getElem?_eq_none (Nat.le_refl _), if_neg (by simp)]
  induction rows generalizing before read fuel with
  | nil =>
    obtain ⟨fuel, rfl⟩ := Nat.exists_eq_succ_of_ne_zero (Nat.ne_of_gt (Nat.zero_lt_of_lt hfuel))
    show insertRows (before ++ []) (fuel + 1) before.length read = _
    rw [List.append_nil, List.append_nil]
    exact hend before fuel read
  | cons row rows ih =>
    obtain ⟨fuel, rfl⟩ := Nat.exists_eq_succ_of_ne_zero (Nat.ne_of_gt (Nat.zero_lt_of_lt hfuel))
    have hrow := length_lt_rowText row
    rcases rows with _ | ⟨row', rest⟩
    · -- The last row ends the text.
      have hlong : (rowText row).length < fuel + 1 := hfuel
      obtain ⟨fuel, rfl⟩ := Nat.exists_eq_succ_of_ne_zero
        (show fuel ≠ 0 by omega)
      have hstep := insertRows_row before [] row read (show row.length < fuel + 1 by omega)
      rw [List.append_nil] at hstep
      have hskip : skipWhitespace (before ++ rowText row) (before.length + (rowText row).length)
          = (before ++ rowText row).length := by
        have hlen : (before ++ rowText row).length = before.length + (rowText row).length :=
          List.length_append
        have hskip := skipWhitespace_append [] [] hlen (by simp) (.inl rfl)
        rw [List.append_nil, List.append_nil] at hskip
        rw [hskip, List.length_append]
        rfl
      show insertRows (before ++ rowText row) _ _ _ = _
      rw [hstep, hskip, hend]
    · have hlong : (rowText row ++ (ascii ", " ++ commaList ((row' :: rest).map rowText))).length
          < fuel + 1 := hfuel
      rw [List.length_append, List.length_append] at hlong
      have hskip : skipWhitespace (before ++ (rowText row ++ (ascii ", "
            ++ commaList ((row' :: rest).map rowText)))) (before.length + (rowText row).length)
          = (before ++ (rowText row ++ ascii ", ")).length := by
        have hnext : ∃ c tail, commaList ((row' :: rest).map rowText) = c :: tail ∧ Stays c := by
          rcases rest with _ | ⟨row'', rest⟩
          · exact ⟨openParen, _, rfl, by decide, by decide⟩
          · exact ⟨openParen, _, rfl, by decide, by decide⟩
        rw [← List.append_assoc, skipWhitespace_append _ _ List.length_append rfl
          (.inr hnext)]
        simp only [List.length_append, Nat.add_assoc]
      have hsplit : before ++ (rowText row ++ (ascii ", " ++ commaList ((row' :: rest).map rowText)))
          = (before ++ (rowText row ++ ascii ", ")) ++ commaList ((row' :: rest).map rowText) := by
        simp only [List.append_assoc]
      show insertRows (before ++ (rowText row ++ (ascii ", "
        ++ commaList ((row' :: rest).map rowText)))) _ _ _ = _
      rw [insertRows_row _ _ _ _ (by omega), hskip, hsplit, ih _ _ (by omega), List.append_assoc]
      rfl

/-! ## The statement -/

theorem dispatch_insert {conv : Conversions} {fuel : Nat} {trimmed : Bytes}
    (h : startsWith trimmed (ascii "INSERT") = true) :
    dispatch conv fuel trimmed = parseInsert fuel trimmed := by
  simp (disch := decide) only [dispatch, startsWith_eq_false h, h, Bool.false_eq_true, if_false,
    if_true]

/-- The rows of a text end it with a parenthesis. -/
theorem getLast?_rows {rows : List (List Bytes)} (hrows : rows ≠ []) :
    (commaList (rows.map rowText)).getLast? = some closeParen := by
  induction rows with
  | nil => exact absurd rfl hrows
  | cons row rows ih =>
    rcases rows with _ | ⟨row', rest⟩
    · show (openParen :: (_ ++ [closeParen])).getLast? = _
      rw [← List.cons_append, List.getLast?_concat]
    · show (rowText row ++ (ascii ", " ++ commaList ((row' :: rest).map rowText))).getLast? = _
      rw [List.getLast?_append, List.getLast?_append, ih (List.cons_ne_nil _ _)]
      rfl

theorem tight_insertText (t : Bytes) (columns : List Bytes) {rows : List (List Bytes)}
    (hrows : rows ≠ []) : Tight (insertText t columns rows) := by
  refine tight_append (by decide) ?_
  rw [List.getLast?_append, List.getLast?_append, List.getLast?_append, List.getLast?_append,
    getLast?_rows hrows]
  rfl

/-- The position behind the list of the columns. -/
def columnsEnd (t : Bytes) (columns : List Bytes) : Nat :=
  12 + t.length + 2 + (commaList columns).length + 1

section
variable {t : Bytes} {columns : List Bytes} {rows : List (List Bytes)}

theorem insertText_eq (t : Bytes) (columns : List Bytes) (rows : List (List Bytes)) :
    insertText t columns rows
      = (ascii "INSERT INTO " ++ (t ++ ascii " (")) ++ (commaList columns
        ++ closeParen :: (space :: (ascii "VALUES " ++ commaList (rows.map rowText)))) := by
  simp only [insertText, List.append_assoc]
  rfl

/-- The text, cut behind the list of the columns. -/
theorem exists_columnsEnd (t : Bytes) (columns : List Bytes) (rows : List (List Bytes)) :
    ∃ before : Bytes, before.length = columnsEnd t columns ∧ insertText t columns rows
      = before ++ (space :: (ascii "VALUES " ++ commaList (rows.map rowText))) := by
  refine ⟨(ascii "INSERT INTO " ++ (t ++ ascii " (")) ++ (commaList columns ++ [closeParen]),
    ?_, ?_⟩
  · rw [columnsEnd]
    simp only [List.length_append, List.length_singleton, Nat.add_assoc]
    rfl
  · rw [insertText_eq]
    simp only [List.append_assoc, List.cons_append, List.nil_append]

theorem tableName_insertText (columns : List Bytes) (rows : List (List Bytes))
    (ht : IsTableName t) :
    skipWhitespace (insertText t columns rows) 11 = 12 ∧
      skipUntil (fun c => c = openParen || c = space) (insertText t columns rows) 12
        = 12 + t.length ∧
      substrTo (insertText t columns rows) 12 (12 + t.length) = .ok t := by
  have hlen : (ascii "INSERT INTO").length = 11 := rfl
  refine ⟨ht.skipWhitespace_space hlen, ?_,
    substrTo_append (s := ascii "INSERT INTO ") rfl rfl⟩
  have hnot : ∀ c ∈ t, (decide (c = openParen) || decide (c = space)) = false := by
    intro c hc
    have hopen : c ≠ openParen := ne_of_isNameChar (ht.chars c hc) (by decide)
    have hspace : c ≠ space := ne_of_isNameChar (ht.chars c hc) (by decide)
    simp [hopen, hspace]
  exact skipUntil_name (ascii "INSERT INTO ") hnot ⟨space, _, rfl, by decide⟩

/-- The columns, in any text that goes on from there. -/
theorem insertColumnList_insertText {fuel : Nat} (hnames : ∀ c ∈ columns, IsTableName c)
    (hfuel : columns.length < fuel) :
    insertColumnList fuel (insertText t columns rows)
      (skipWhitespace (insertText t columns rows) (12 + t.length))
        = .ok (columns, columnsEnd t columns) := by
  have hbefore : (ascii "INSERT INTO " ++ (t ++ ascii " (")).length = 12 + t.length + 2 := by
    rw [List.length_append, List.length_append]
    exact (Nat.add_assoc 12 t.length 2).symm
  have hsplit : insertText t columns rows = (ascii "INSERT INTO " ++ t) ++ (ascii " "
      ++ (openParen :: (commaList columns ++ (ascii ") VALUES "
        ++ commaList (rows.map rowText))))) := by
    simp only [insertText, List.append_assoc]
    rfl
  have hopen : skipWhitespace (insertText t columns rows) (12 + t.length)
      = 12 + t.length + 1 := by
    rw [hsplit]
    exact skipWhitespace_append _ _ List.length_append rfl
      (.inr ⟨openParen, _, rfl, by decide, by decide⟩)
  have hat : (insertText t columns rows)[12 + t.length + 1]? = some openParen := by
    have hget := getElem?_append_length ((ascii "INSERT INTO " ++ t) ++ ascii " ")
      (commaList columns ++ (ascii ") VALUES " ++ commaList (rows.map rowText))) openParen
    rw [List.append_assoc _ (ascii " "), List.length_append, List.length_append] at hget
    rw [hsplit]
    exact hget
  have hloop := insertColumns_reads.commaList hnames (ascii "INSERT INTO " ++ (t ++ ascii " ("))
    (space :: (ascii "VALUES " ++ commaList (rows.map rowText))) [] hfuel
  rw [List.map_id, ← insertText_eq, hbefore, List.nil_append] at hloop
  have hlt : 12 + t.length + 2 + (commaList columns).length
      < (insertText t columns rows).length := by
    rw [insertText_eq, List.length_append, hbefore, List.length_append, List.length_cons]
    omega
  rw [hopen, insertColumnList, if_pos hat, hloop, ok_bind]
  show Except.ok (columns, if _ < _ then _ else _) = _
  rw [if_pos hlt, columnsEnd]

/-- The keyword is looked for behind every name of the text. -/
theorem findValues_insertText : findKeyword (insertText t columns rows) (ascii "VALUES")
    (columnsEnd t columns) = some (1 + columnsEnd t columns) := by
  obtain ⟨before, hlen, hsplit⟩ := exists_columnsEnd t columns rows
  have hstarts : ascii "VALUES" <+: toUpper (ascii "VALUES " ++ commaList (rows.map rowText)) := by
    rw [toUpper_append]
    exact (by decide : ascii "VALUES" <+: toUpper (ascii "VALUES ")).trans (List.prefix_append _ _)
  have hfind := find_behind_name (t := []) (by decide) (by decide) (by decide) hstarts
  rw [hsplit, findKeyword_append hlen]
  exact congrArg (Option.map (· + columnsEnd t columns)) hfind

theorem insertRows_insertText (hrows : rows ≠ []) :
    insertRows (insertText t columns rows) ((insertText t columns rows).length + 1)
      (skipWhitespace (insertText t columns rows) (1 + columnsEnd t columns + 6)) []
        = .ok rows := by
  obtain ⟨before, hlen, hsplit⟩ := exists_columnsEnd t columns rows
  have hfirst : ∃ c tail, commaList (rows.map rowText) = c :: tail ∧ Stays c := by
    obtain ⟨row, more, rfl⟩ := List.exists_cons_of_ne_nil hrows
    rcases more with _ | ⟨row', more⟩
    · exact ⟨openParen, _, rfl, by decide, by decide⟩
    · exact ⟨openParen, _, rfl, by decide, by decide⟩
  have hto : insertText t columns rows
      = (before ++ ascii " VALUES ") ++ commaList (rows.map rowText) := by
    rw [hsplit, List.append_assoc]
    rfl
  have hskip : skipWhitespace (insertText t columns rows) (1 + columnsEnd t columns + 6)
      = (before ++ ascii " VALUES ").length := by
    have hblank : insertText t columns rows
        = (before ++ ascii " VALUES") ++ (ascii " " ++ commaList (rows.map rowText)) := by
      rw [hsplit]
      simp only [List.append_assoc]
      rfl
    have hpos : (before ++ ascii " VALUES").length = 1 + columnsEnd t columns + 6 := by
      rw [List.length_append, hlen]
      show _ + 7 = _
      omega
    rw [hblank, skipWhitespace_append _ _ hpos rfl (.inr hfirst), List.length_append, hlen]
    show _ + 1 = _ + 8
    omega
  have hlong : (commaList (rows.map rowText)).length
      < (insertText t columns rows).length + 1 := by
    rw [hto, List.length_append]
    omega
  rw [hskip]
  conv => lhs; arg 1; rw [hto]
  exact insertRows_eq rows _ [] hlong

/-- **What an `INSERT` was written from is what it is parsed to.** -/
theorem parseSql_insertText (conv : Conversions) {n : Nat} (ht : isValidName t n = true)
    (hcolumns : ∀ c ∈ columns, ∃ n, isValidName c n = true) (hrows : rows ≠ []) :
    parseSql conv (insertText t columns rows)
      = .ok (.success (.insert { tableName := t, columns := columns, rows := rows })) := by
  have hnames : ∀ c ∈ columns, IsTableName c := by
    intro c hc
    obtain ⟨n, hvalid⟩ := hcolumns c hc
    exact isTableName_of_isValidName hvalid
  have hstarts : ascii "INSERT" <+: toUpper (insertText t columns rows) := by
    rw [insertText, toUpper_append]
    exact (by decide : ascii "INSERT" <+: toUpper (ascii "INSERT INTO ")).trans
      (List.prefix_append _ _)
  have hinto : findKeyword (insertText t columns rows) (ascii "INSERT INTO") 0 = some 0 := by
    rw [findKeyword, findFrom, List.drop_zero, find_at_front]
    · rfl
    · rw [insertText, toUpper_append]
      exact (by decide : toUpper (ascii "INSERT INTO") <+: toUpper (ascii "INSERT INTO ")).trans
        (List.prefix_append _ _)
  obtain ⟨htstart, htstop, hname⟩ := tableName_insertText columns rows
    (isTableName_of_isValidName ht)
  have hcount : columns.length < (insertText t columns rows).length + 1 := by
    have hle := length_le_commaList fun c hc => (hnames c hc).nonempty
    have hlong : (commaList columns).length ≤ (insertText t columns rows).length := by
      rw [insertText_eq]
      exact ((List.prefix_append _ _).isInfix.trans (List.suffix_append _ _).isInfix).length_le
    omega
  have hnotEmpty : (insertText t columns rows).isEmpty = false := rfl
  have hsome : rows.isEmpty = false := List.isEmpty_eq_false_iff.mpr hrows
  rw [parseSql, parse, trim_eq (tight_insertText t columns hrows), hnotEmpty,
    if_neg (by decide), dispatch_insert (startsWith_iff.mpr hstarts), parseInsert]
  simp only [hinto, Nat.zero_add, htstart, htstop, hname, ok_bind, findValues_insertText,
    insertColumnList_insertText hnames hcount, insertRows_insertText hrows, hsome]
  rfl

end

theorem parseSql_insertText_keywords :
    parseSql { stod := fun _ => none, parseTimeString := fun _ => 0 }
      (insertText (ascii "VALUES") [ascii "tag", ascii "value"]
        [[ascii "it's (VALUES), ", []], [], [ascii "'"]])
      = .ok (.success (.insert
        { tableName := ascii "VALUES", columns := [ascii "tag", ascii "value"],
          rows := [[ascii "it's (VALUES), ", []], [], [ascii "'"]] })) :=
  parseSql_insertText _ (n := 64) (by decide)
    (fun c hc => ⟨64, by
      rcases List.mem_cons.mp hc with rfl | hc
      · decide
      · rw [List.mem_singleton.mp hc]
        decide⟩)
    (List.cons_ne_nil _ _)

end Sql
end MiniTSDB
