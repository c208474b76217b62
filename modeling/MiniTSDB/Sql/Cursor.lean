import MiniTSDB.Sql.InsertText

/-!
# Reading on from a position

The parser keeps a position in the text. `At sql pos rest` says what is left of the text from there,
and each way in which the parser goes on is a rule about what is left.

Its loops over lists in parentheses differ in what an item is and in what they answer. What they
have in common is `ReadsList`, and that a list is read as it is written is one induction for all of
them (`ReadsList.read`).
-/

namespace MiniTSDB
namespace Sql

open Lib

/-- What is left of the text from the position on. -/
def At (sql : Bytes) (pos : Nat) (rest : Bytes) : Prop :=
  ∃ before : Bytes, before.length = pos ∧ sql = before ++ rest

/-- The text begins with a character that `SkipWhitespace` does not skip. -/
def Begins (rest : Bytes) : Prop := ∃ c tail, rest = c :: tail ∧ Stays c

theorem begins_cons {c : UInt8} {tail : Bytes} (h : Stays c) : Begins (c :: tail) :=
  ⟨c, tail, rfl, h⟩

theorem IsTableName.begins {t : Bytes} (ht : IsTableName t) (rest : Bytes) :
    Begins (t ++ rest) := by
  obtain ⟨c, tail, rfl⟩ := List.exists_cons_of_ne_nil ht.nonempty
  exact begins_cons (stays_of_isNameChar (ht.chars c List.mem_cons_self))

theorem begins_quoted (x rest : Bytes) : Begins (quoted x ++ rest) :=
  begins_cons ⟨by decide, by decide⟩

namespace At

variable {sql rest x pat : Bytes} {pos : Nat} {c : UInt8}

theorem start (sql : Bytes) : At sql 0 sql := ⟨[], rfl, rfl⟩

theorem behind (h : At sql pos (x ++ rest)) : At sql (pos + x.length) rest := by
  obtain ⟨before, rfl, rfl⟩ := h
  exact ⟨before ++ x, List.length_append, (List.append_assoc ..).symm⟩

theorem next (h : At sql pos (c :: rest)) : At sql (pos + 1) rest := behind (x := [c]) h

theorem length_le (h : At sql pos rest) : rest.length ≤ sql.length := by
  obtain ⟨before, rfl, rfl⟩ := h
  rw [List.length_append]
  exact Nat.le_add_left _ _

theorem lt_length (h : At sql pos (c :: rest)) : pos < sql.length := by
  obtain ⟨before, rfl, rfl⟩ := h
  rw [List.length_append, List.length_cons]
  omega

theorem getElem? (h : At sql pos (c :: rest)) : sql[pos]? = some c := by
  obtain ⟨before, rfl, rfl⟩ := h
  exact getElem?_append_length before rest c

theorem charAt (h : At sql pos (c :: rest)) : charAt sql pos = .ok c := by
  rw [charAt_ok (Nat.le_of_lt h.lt_length), List.getD_eq_getElem?_getD, h.getElem?,
    Option.getD_some]

theorem goesOn {stop : UInt8} (h : At sql pos (c :: rest)) (hc : c ≠ stop) :
    goesOn sql pos stop = true := goesOn_iff.mpr ⟨c, h.getElem?, hc⟩

theorem substr (h : At sql pos rest) : substr sql pos = .ok rest := by
  obtain ⟨before, rfl, rfl⟩ := h
  exact substr_append rfl

theorem substrTo (h : At sql pos (x ++ rest)) : substrTo sql pos (pos + x.length) = .ok x := by
  obtain ⟨before, rfl, rfl⟩ := h
  exact substrTo_append rfl rfl

/-- Blanks and commas are skipped. -/
theorem skipWhitespace (h : At sql pos (x ++ rest))
    (hx : x.all (fun c => isBlank c || c = comma) = true) (hrest : Begins rest) :
    skipWhitespace sql pos = pos + x.length := by
  obtain ⟨before, rfl, rfl⟩ := h
  exact skipWhitespace_append x rest rfl hx (.inr hrest)

theorem skipSpace (h : At sql pos (space :: rest)) (hrest : Begins rest) :
    Sql.skipWhitespace sql pos = pos + 1 := skipWhitespace (x := [space]) h rfl hrest

theorem skipNothing (h : At sql pos rest) (hrest : Begins rest) :
    Sql.skipWhitespace sql pos = pos := skipWhitespace (x := []) h rfl hrest

/-- What does not end a name is passed. -/
theorem skipUntil {stop : UInt8 → Bool} (h : At sql pos (x ++ c :: rest))
    (hx : ∀ c ∈ x, stop c = false) (hc : stop c = true) :
    skipUntil stop sql pos = pos + x.length := by
  obtain ⟨before, rfl, rfl⟩ := h
  exact skipUntil_name before hx ⟨c, rest, rfl, hc⟩

theorem findFrom (h : At sql pos (x ++ rest)) (hfind : find pat (x ++ rest) = some x.length) :
    findFrom sql pat pos = some (pos + x.length) := by
  obtain ⟨before, rfl, rfl⟩ := h
  rw [findFrom_append rfl, hfind, Option.map_some, Nat.add_comm]

/-- The next such character. -/
theorem findChar (h : At sql pos (x ++ c :: rest)) (hx : c ∉ x) :
    findChar sql c pos = some (pos + x.length) := h.findFrom (find_char rest hx)

/-- One that is not in the way is found behind it, if at all. -/
theorem le_of_findChar {i : Nat} (h : At sql pos (x ++ rest)) (hx : c ∉ x)
    (hi : Sql.findChar sql c pos = some i) : pos + x.length ≤ i := by
  obtain ⟨before, rfl, rfl⟩ := h
  rw [Sql.findChar, findFrom_append rfl] at hi
  obtain ⟨j, hj, rfl⟩ := Option.map_eq_some_iff.mp hi
  have hat : [c] <+: (x ++ rest).drop j := (find_eq_some hj).1
  by_contra hlt
  have hjx : j < x.length := by omega
  rw [List.drop_append_of_le_length hjx.le, List.drop_eq_getElem_cons hjx] at hat
  have hc : c = x[j] := (List.cons_prefix_cons.mp hat).1
  rw [hc] at hx
  exact hx (List.getElem_mem hjx)

theorem findKeyword (h : At sql pos (x ++ rest))
    (hfind : find (toUpper pat) (toUpper (x ++ rest)) = some x.length) :
    findKeyword sql pat pos = some (pos + x.length) := by
  obtain ⟨before, rfl, rfl⟩ := h
  rw [findKeyword_append rfl, hfind, Option.map_some, Nat.add_comm]

/-- A keyword that comes next. -/
theorem findKeyword_next (h : At sql pos (pat ++ rest)) :
    Sql.findKeyword sql pat pos = some pos := by
  have hfront : toUpper pat <+: toUpper (pat ++ rest) := by
    rw [toUpper_append]
    exact List.prefix_append _ _
  exact findKeyword (x := []) h (find_at_front hfront)

/-- A keyword behind the next word. -/
theorem findKeyword_behind {t : Bytes} (h : At sql pos (t ++ space :: rest)) (hsep : space ∉ pat)
    (hne : pat ≠ []) (hupper : toUpper pat = pat) (ht : ¬ Mentions t pat)
    (hrest : pat <+: toUpper rest) : Sql.findKeyword sql pat pos = some (pos + t.length + 1) := by
  have hat : At sql pos ((t ++ [space]) ++ rest) := by simpa using h
  rw [hat.findKeyword, List.length_append, List.length_singleton, ← Nat.add_assoc]
  rw [hupper, List.append_assoc, List.length_append, List.length_singleton]
  exact find_behind_name hsep hne ht hrest

theorem findKeyword_front {t kw : Bytes} (h : At sql pos (t ++ space :: (kw ++ rest)))
    (hsep : space ∉ kw) (hne : kw ≠ []) (hupper : toUpper kw = kw) (ht : ¬ Mentions t kw) :
    Sql.findKeyword sql kw pos = some (pos + t.length + 1) := by
  refine h.findKeyword_behind hsep hne hupper ht ?_
  rw [toUpper_append, hupper]
  exact List.prefix_append _ _

/-- A literal with its quotes doubled. -/
theorem extractQuoted (h : At sql pos (quoted x ++ rest)) (hrest : rest.head? ≠ some quote) :
    extractQuoted sql pos = (x, pos + (quoted x).length) := by
  obtain ⟨before, rfl, rfl⟩ := h
  have htext : quoted x ++ rest = quote :: (doubleQuotes x ++ quote :: rest) := by
    simp only [quoted, List.cons_append, List.append_assoc, List.nil_append]
  have hlen : (quoted x).length = (doubleQuotes x).length + 2 := by
    simp only [quoted, List.length_cons, List.length_append, List.length_nil]
  rw [htext, extractQuoted_append rfl, extractQuoted_doubleQuotes x hrest, hlen]
  exact congrArg (Prod.mk x) (Nat.add_comm _ _)

/-- Behind the keyword that the text begins with. -/
theorem afterKeyword {kw : Bytes} (hupper : toUpper kw = kw) (hlen : kw.length < 2 ^ 64)
    (rest : Bytes) : At (kw ++ rest) (afterKeyword (kw ++ rest) kw) rest := by
  have hfront : kw <+: toUpper (kw ++ rest) := by
    rw [toUpper_append, hupper]
    exact List.prefix_append _ _
  rw [afterKeyword_eq hfront hupper hlen]
  exact ⟨kw, rfl, rfl⟩

end At

/-- `SkipWhitespace` leaves no comma. -/
theorem ne_comma_skipWhitespace (sql : Bytes) (pos : Nat) :
    sql[skipWhitespace sql pos]? ≠ some comma := by
  intro hcomma
  unfold skipWhitespace skipUntil at hcomma
  rw [← List.getElem?_drop] at hcomma
  generalize sql.drop pos = rest at hcomma
  induction rest with
  | nil => simp at hcomma
  | cons c rest ih =>
    rw [List.takeWhile_cons] at hcomma
    split at hcomma
    case isTrue hskipped => exact ih (by simpa using hcomma)
    case isFalse hstays =>
      obtain rfl : c = comma := by simpa using hcomma
      exact hstays (by decide)

/-! ## Lists -/

/-- What the loops have in common, for the items and the way to write them. -/
structure ReadsList {α β : Type} (loop : Bytes → Nat → Nat → List α → Parsing β)
    (finish : List α → Nat → β) (Item : α → Prop) (write : α → Bytes) : Prop where
  /-- the loop ends at a closing parenthesis -/
  stop : ∀ {sql rest fuel pos items}, At sql pos (closeParen :: rest) →
    loop sql (fuel + 1) pos items = .ok (finish items pos)
  /-- what is written of an item starts with no blank -/
  begins : ∀ {x}, Item x → ∀ rest, Begins (write x ++ rest)
  /-- an item is read, and what separates it from the next one skipped -/
  item : ∀ {sql rest x fuel pos items}, Item x → (write x).length ≤ fuel →
    At sql pos (write x ++ rest) → EndsItem rest →
      loop sql (fuel + 1) pos items
        = loop sql fuel (skipWhitespace sql (pos + (write x).length)) (items ++ [x])

/-- **A list of items is read back**, up to the parenthesis behind it. -/
theorem ReadsList.read {α β : Type} {loop : Bytes → Nat → Nat → List α → Parsing β}
    {finish : List α → Nat → β} {Item : α → Prop} {write : α → Bytes}
    (h : ReadsList loop finish Item write) {sql rest : Bytes} {xs items : List α} {fuel pos : Nat}
    (hxs : ∀ x ∈ xs, Item x) (hfuel : (commaList (xs.map write)).length < fuel)
    (hat : At sql pos (commaList (xs.map write) ++ closeParen :: rest)) :
    loop sql fuel pos items
      = .ok (finish (items ++ xs) (pos + (commaList (xs.map write)).length)) := by
  have hclose : Begins (closeParen :: rest) := begins_cons ⟨by decide, by decide⟩
  induction xs generalizing items fuel pos with
  | nil =>
    obtain ⟨fuel, rfl⟩ := Nat.exists_eq_succ_of_ne_zero (Nat.ne_of_gt hfuel)
    rw [List.append_nil]
    exact h.stop hat
  | cons x xs ih =>
    have hx := hxs x List.mem_cons_self
    obtain ⟨fuel, rfl⟩ := Nat.exists_eq_succ_of_ne_zero (Nat.ne_of_gt (Nat.zero_lt_of_lt hfuel))
    rcases xs with _ | ⟨y, more⟩
    · -- the last item: the parenthesis is next
      have hat : At sql pos (write x ++ closeParen :: rest) := hat
      have hlong : (write x).length < fuel + 1 := hfuel
      have hpos : 0 < (write x).length := by
        obtain ⟨c, tail, hwrite, -⟩ := h.begins hx []
        rw [List.append_nil] at hwrite
        rw [hwrite]
        exact Nat.zero_lt_succ _
      obtain ⟨fuel, rfl⟩ := Nat.exists_eq_succ_of_ne_zero (show fuel ≠ 0 by omega)
      rw [h.item hx (Nat.le_of_lt_succ hlong) hat ⟨closeParen, rest, rfl, .inr rfl⟩,
        hat.behind.skipNothing hclose, h.stop hat.behind]
      rfl
    · have hy := hxs y (List.mem_cons_of_mem x List.mem_cons_self)
      have hlong : (write x ++ (ascii ", " ++ commaList ((y :: more).map write))).length
          < fuel + 1 := hfuel
      have hsep : (ascii ", ").length = 2 := rfl
      rw [List.length_append, List.length_append, hsep] at hlong
      have hat : At sql pos (write x ++ (ascii ", "
          ++ (commaList ((y :: more).map write) ++ closeParen :: rest))) := by
        have hsplit : commaList ((x :: y :: more).map write)
            = write x ++ (ascii ", " ++ commaList ((y :: more).map write)) := rfl
        rw [hsplit, List.append_assoc, List.append_assoc] at hat
        exact hat
      have hnext : Begins (commaList ((y :: more).map write) ++ closeParen :: rest) := by
        rcases more with _ | ⟨z, more⟩
        · exact h.begins hy _
        · show Begins ((write y ++ _) ++ _)
          rw [List.append_assoc]
          exact h.begins hy _
      rw [h.item hx (by omega) hat ⟨comma, _, rfl, .inl rfl⟩,
        hat.behind.skipWhitespace rfl hnext, ih (fun z hz => hxs z (List.mem_cons_of_mem x hz))
          (by omega) hat.behind.behind, List.append_assoc]
      show Except.ok (finish _ _) = Except.ok (finish _
        (pos + (write x ++ (ascii ", " ++ commaList ((y :: more).map write))).length))
      rw [List.length_append, List.length_append, Nat.add_assoc, Nat.add_assoc]
      rfl

end Sql
end MiniTSDB
