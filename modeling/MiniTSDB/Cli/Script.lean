import MiniTSDB.Cli.ScriptLoop

/-!
# Scripts (`cli/main.cpp`)

A script is a sequence of comment lines and statements. The loop of `-f` knows of no lines and of
no quotes: a comment lasts until the next `;`, and a `;` in a literal cuts the statement in two. It
executes a script as it reads exactly where neither happens (`executesScript_iff`).
-/

namespace MiniTSDB
namespace Cli

open Lib Sql

variable {σ : Type}

/-! ## Scripts -/

abbrev newline : UInt8 := 10

/-- A line with a comment; lines with nothing on them may come before it. -/
structure CommentLine where
  indent : Bytes
  body : Bytes
  blank : ∀ c ∈ indent, isBlank c = true
  oneLine : newline ∉ body

def CommentLine.text (line : CommentLine) : Bytes := line.indent ++ hash :: line.body ++ [newline]

/-- A statement read from outside of its literals, or from within one, ends outside of them, and
has no `;` and no `#` there. A doubled quote leaves a literal and enters it again. -/
def endsOutside : Option UInt8 → Bytes → Bool
  | none, [] => true
  | some _, [] => false
  | none, c :: rest =>
    if c = semicolon || c = hash then false
    else endsOutside (if isQuote c then some c else none) rest
  | some q, c :: rest => endsOutside (if c = q then none else some q) rest

/-- The text of a statement, in front of its `;`. -/
structure SqlStatement where
  text : Bytes
  reads : endsOutside none text = true
  nonBlank : ∃ c ∈ text, isBlank c = false

inductive ScriptItem
  | comment (line : CommentLine)
  | statement (stmt : SqlStatement)

def ScriptItem.text : ScriptItem → Bytes
  | .comment line => line.text
  | .statement stmt => stmt.text ++ [semicolon]

/-- What may stand behind the last line: blanks, or a comment that no newline ends. -/
def IsClosing (tail : Bytes) : Prop :=
  (∀ c ∈ tail, isBlank c = true) ∨ ∃ indent body : Bytes, (∀ c ∈ indent, isBlank c = true) ∧
    newline ∉ body ∧ tail = indent ++ hash :: body

structure Script where
  items : List ScriptItem
  tail : Bytes
  closing : IsClosing tail

def textOf (items : List ScriptItem) (tail : Bytes) : Bytes := items.flatMap ScriptItem.text ++ tail

def Script.text (script : Script) : Bytes := textOf script.items script.tail

/-- The statements without the blanks around them, each with its place in the file. -/
def statementsFrom : Nat → List ScriptItem → List (Nat × Bytes)
  | _, [] => []
  | pos, .comment line :: items => statementsFrom (pos + line.text.length) items
  | pos, .statement stmt :: items =>
    (pos + lead stmt.text, trim stmt.text) :: statementsFrom (pos + stmt.text.length + 1) items

def Script.statements (script : Script) : List (Nat × Bytes) := statementsFrom 0 script.items

/-- The loop comes to its end, and executes exactly the statements. -/
structure ExecutesScript (executeSQL : σ → Bytes → Bool × σ) (client : σ) (script : Script) :
    Prop where
  ends : script.text.length ≤ (runScript executeSQL client script.text).pos
  executed : (runScript executeSQL client script.text).executed = script.statements
  result : ((runScript executeSQL client script.text).allOk,
      (runScript executeSQL client script.text).client)
    = executeAll executeSQL (script.statements.map Prod.snd) (true, client)

/-! ## Where it does -/

/-- Cut at its `;`s, the text has only pieces that are passed over, and a blank one at its end. -/
def Clears (gap : Bytes) : Prop :=
  ∃ pieces last, gap.splitOn semicolon = pieces ++ [last] ∧
    (∀ piece ∈ pieces, isSkipped piece = true) ∧ ∀ c ∈ last, isBlank c = true

/-- No statement has a `;`, the comments in front of each clear, and those behind the last are
passed over. The comments met since the last statement are in the second argument. -/
def CutsAtEnds (tail : Bytes) : Bytes → List ScriptItem → Prop
  | gap, [] => ∀ piece ∈ (gap ++ tail).splitOn semicolon, isSkipped piece = true
  | gap, .comment line :: items => CutsAtEnds tail (gap ++ line.text) items
  | gap, .statement stmt :: items =>
    semicolon ∉ stmt.text ∧ Clears gap ∧ CutsAtEnds tail [] items

def Script.CutsAtEnds (script : Script) : Prop := Cli.CutsAtEnds script.tail [] script.items

/-! ## One statement, and the comments in front of it -/

/-- A statement is not passed over. -/
theorem isSkipped_statement {text : Bytes} (hreads : endsOutside none text = true)
    (h : ∃ c ∈ text, isBlank c = false) : isSkipped text = false := by
  induction text with
  | nil =>
    obtain ⟨c, hc, -⟩ := h
    cases hc
  | cons c rest ih =>
    rw [endsOutside] at hreads
    split at hreads
    · cases hreads
    case isFalse hplain =>
      rw [isSkipped, List.find?_cons]
      cases hc : isBlank c with
      | false =>
        show decide (c = hash) = false
        rw [decide_eq_false_iff_not]
        rintro rfl
        exact hplain rfl
      | true =>
        -- a blank opens no literal
        have hquote : isQuote c = false := by
          simp only [isBlank, Bool.or_eq_true, decide_eq_true_eq] at hc
          rcases hc with ((rfl | rfl) | rfl) | rfl <;> rfl
        rw [hquote] at hreads
        exact ih hreads (exists_behind_blank hc h)

theorem executedIn_eq_nil_iff {pos : Nat} {pieces : List Bytes} :
    executedIn pos pieces = [] ↔ ∀ piece ∈ pieces, isSkipped piece = true := by
  rw [executedIn, List.filterMap_eq_nil_iff, ← forall_placed_iff pos pieces]
  refine forall₂_congr fun x _ => ?_
  rw [executes]
  split
  case isTrue hskip => simp [hskip]
  case isFalse hskip => simp [hskip]

/-- What is executed stands in its piece, and has no `;`. -/
theorem mem_executedIn {x : Nat × Bytes} {pos : Nat} {pieces : List Bytes}
    (h : x ∈ executedIn pos pieces) : pos ≤ x.1 ∧ x.1 < pos + width pieces ∧
      ∃ piece ∈ pieces, x.2 = trim piece := by
  obtain ⟨⟨i, piece⟩, hplaced, hexec⟩ := List.mem_filterMap.mp h
  obtain ⟨hle, hlt⟩ := mem_placed hplaced
  have hmem : piece ∈ pieces := by
    rw [← map_snd_placed pos pieces]
    exact List.mem_map_of_mem hplaced
  have hlead := lead_le piece
  rw [executes] at hexec
  split at hexec
  · cases hexec
  · cases hexec
    dsimp only at hle hlt ⊢
    exact ⟨by omega, by omega, piece, hmem, rfl⟩

/-- Behind what is not blank a statement is not executed at its place. -/
theorem executes_append_iff {last text : Bytes} (pos : Nat) (htext : isSkipped text = false) :
    executes (pos, last ++ text) = some (pos + last.length + lead text, trim text) ↔
      ∀ c ∈ last, isBlank c = true := by
  constructor
  · intro h
    by_contra hblank
    have hshort : lead (last ++ text) < last.length := by
      have hne : (last.takeWhile isBlank).length ≠ last.length := by
        intro hlen
        rw [(List.takeWhile_prefix _).eq_of_length hlen |>.symm] at hblank
        exact hblank fun c hc => List.mem_takeWhile_imp hc
      rw [lead, List.takeWhile_append, if_neg hne]
      exact Nat.lt_of_le_of_ne (lead_le last) hne
    rw [executes] at h
    split at h
    · cases h
    · have hplace := congrArg Prod.fst (Option.some.inj h)
      dsimp only at hplace
      omega
  · intro hblank
    have hskip : isSkipped (last ++ text) = false := by
      rw [isSkipped, List.find?_append, find?_of_blank hblank, Option.none_or]
      exact htext
    have htrim : trim (last ++ text) = trim text := by
      rw [trim, List.dropWhile_append_of_pos hblank, trim]
    rw [executes]
    dsimp only
    rw [hskip, lead_append hblank, htrim, Nat.add_assoc]
    rfl

theorem clears_iff {gap last : Bytes} {pieces : List Bytes}
    (hgap : gap.splitOn semicolon = pieces ++ [last]) :
    Clears gap ↔ (∀ piece ∈ pieces, isSkipped piece = true) ∧ ∀ c ∈ last, isBlank c = true := by
  constructor
  · rintro ⟨pieces', last', hgap', hall⟩
    obtain ⟨rfl, hlast⟩ := List.append_inj' (hgap.symm.trans hgap') rfl
    cases hlast
    exact hall
  · intro hall
    exact ⟨pieces, last, hgap, hall⟩

/-- What is executed up to the end of a statement, from the pieces of what is in front of it. -/
theorem executedIn_behind_iff (pos : Nat) (pieces : List Bytes) (last : Bytes) {text : Bytes}
    (htext : isSkipped text = false) :
    executedIn pos (pieces ++ [last ++ text])
        = [(pos + width pieces + last.length + lead text, trim text)] ↔
      (∀ piece ∈ pieces, isSkipped piece = true) ∧ ∀ c ∈ last, isBlank c = true := by
  have hfront : ∀ x ∈ executedIn pos pieces, x.1 < pos + width pieces :=
    fun x hx => (mem_executedIn hx).2.1
  have hback : ∀ x ∈ executedIn (pos + width pieces) [last ++ text], ¬ x.1 < pos + width pieces :=
    fun x hx => Nat.not_lt.mpr (mem_executedIn hx).1
  have hat : ∀ x ∈ [(pos + width pieces + last.length + lead text, trim text)],
      ¬ x.1 < pos + width pieces := by
    intro x hx
    rw [List.mem_singleton.mp hx]
    dsimp only
    omega
  have hlast : executedIn (pos + width pieces) [last ++ text]
        = [(pos + width pieces + last.length + lead text, trim text)] ↔
      ∀ c ∈ last, isBlank c = true := by
    rw [executedIn_cons, ← executes_append_iff _ htext]
    show _ ++ [] = _ ↔ _
    rw [List.append_nil, Option.toList_eq_singleton_iff]
  have hapart := append_eq_append_iff_of_apart hfront (List.forall_mem_nil _) hback hat
  rw [List.nil_append] at hapart
  rw [executedIn_append, hapart, executedIn_eq_nil_iff, hlast]

/-- **A statement behind comments is executed as it is exactly where nothing cuts it**, and the
comments clear. -/
theorem executedIn_statement_iff (pos : Nat) (gap : Bytes) (stmt : SqlStatement) :
    executedIn pos ((gap ++ stmt.text).splitOn semicolon)
        = [(pos + gap.length + lead stmt.text, trim stmt.text)] ↔
      semicolon ∉ stmt.text ∧ Clears gap := by
  have hstmt := isSkipped_statement stmt.reads stmt.nonBlank
  by_cases hcut : semicolon ∈ stmt.text
  · simp only [hcut, not_true_eq_false, false_and, iff_false]
    intro h
    -- what is executed has no `;`
    obtain ⟨-, -, piece, hpiece, htrim⟩ := mem_executedIn (h ▸ List.mem_cons_self)
    have hmem : semicolon ∈ trim piece := by
      rw [← htrim]
      exact mem_trim rfl hcut
    exact not_mem_of_mem_splitOn hpiece ((trim_sublist piece).subset hmem)
  · obtain ⟨pieces, last, hgap, hwhole⟩ := exists_splitOn_append hcut gap
    have hlen : width pieces + last.length = gap.length := width_add_of_splitOn hgap
    have hplace : pos + gap.length = pos + width pieces + last.length := by
      rw [← hlen, Nat.add_assoc]
    rw [hwhole, hplace, executedIn_behind_iff pos pieces last hstmt, clears_iff hgap]
    simp [hcut]

/-! ## What is sent -/

theorem executesScript_iff_executedIn {executeSQL : σ → Bytes → Bool × σ} {client : σ}
    {script : Script} :
    ExecutesScript executeSQL client script ↔
      executedIn 0 (script.text.splitOn semicolon) = script.statements := by
  obtain ⟨pos, hpos, hrun⟩ := exists_runScript executeSQL client script.text
  constructor
  · intro h
    have hexecuted := h.executed
    rw [hrun] at hexecuted
    simpa using hexecuted
  · intro h
    refine ⟨?_, ?_, ?_⟩
    · rw [hrun]
      exact hpos
    · rw [hrun, ← h]
      simp
    · rw [hrun, ← h]
      exact result_sendAll executeSQL _ _

/-! ## The whole script -/

theorem le_of_mem_statementsFrom {x : Nat × Bytes} {pos : Nat} {items : List ScriptItem}
    (h : x ∈ statementsFrom pos items) : pos ≤ x.1 := by
  induction items generalizing pos with
  | nil => cases h
  | cons item items ih =>
    cases item with
    | comment line => exact Nat.le_trans (Nat.le_add_right _ _) (ih h)
    | statement stmt =>
      rcases List.mem_cons.mp h with rfl | hrest
      · exact Nat.le_add_right _ _
      · have hle := ih hrest
        omega

/-- **Behind some comments, the items**: the comments before a statement are cut with it, and what
follows its `;` is cut by itself. -/
theorem executedIn_items_iff (tail gap : Bytes) (items : List ScriptItem) (pos : Nat) :
    executedIn pos ((gap ++ textOf items tail).splitOn semicolon)
        = statementsFrom (pos + gap.length) items ↔
      CutsAtEnds tail gap items := by
  induction items generalizing gap pos with
  | nil => exact executedIn_eq_nil_iff
  | cons item items ih =>
    cases item with
    | comment line =>
      have htext : gap ++ textOf (.comment line :: items) tail
          = (gap ++ line.text) ++ textOf items tail := by
        simp only [textOf, List.flatMap_cons, ScriptItem.text, List.append_assoc]
      have hnext := ih (gap ++ line.text) pos
      rw [htext, statementsFrom, CutsAtEnds, ← hnext, List.length_append, Nat.add_assoc]
    | statement stmt =>
      have htext : gap ++ textOf (.statement stmt :: items) tail
          = (gap ++ stmt.text) ++ semicolon :: textOf items tail := by
        simp only [textOf, List.flatMap_cons, ScriptItem.text, List.append_assoc, List.nil_append,
          List.cons_append]
      have hnext := ih [] (pos + gap.length + stmt.text.length + 1)
      rw [List.nil_append, List.length_nil, Nat.add_zero] at hnext
      have hwidth : pos + width ((gap ++ stmt.text).splitOn semicolon)
          = pos + gap.length + stmt.text.length + 1 := by
        rw [width_splitOn, List.length_append]
        omega
      -- what is executed up to the `;` stands before it, and the rest behind
      have hfront : ∀ x ∈ executedIn pos ((gap ++ stmt.text).splitOn semicolon),
          x.1 < pos + gap.length + stmt.text.length + 1 :=
        fun x hx => hwidth ▸ (mem_executedIn hx).2.1
      have hat : ∀ x ∈ [(pos + gap.length + lead stmt.text, trim stmt.text)],
          x.1 < pos + gap.length + stmt.text.length + 1 := by
        intro x hx
        have hlead := lead_le stmt.text
        rw [List.mem_singleton.mp hx]
        dsimp only
        omega
      have hback : ∀ x ∈ executedIn (pos + gap.length + stmt.text.length + 1)
          ((textOf items tail).splitOn semicolon),
          ¬ x.1 < pos + gap.length + stmt.text.length + 1 :=
        fun x hx => Nat.not_lt.mpr (mem_executedIn hx).1
      have hrest : ∀ x ∈ statementsFrom (pos + gap.length + stmt.text.length + 1) items,
          ¬ x.1 < pos + gap.length + stmt.text.length + 1 :=
        fun x hx => Nat.not_lt.mpr (le_of_mem_statementsFrom hx)
      have hapart := append_eq_append_iff_of_apart hfront hat hback hrest
      rw [htext, List.splitOn_append_cons_self, executedIn_append, hwidth, statementsFrom,
        ← List.singleton_append, hapart, executedIn_statement_iff, hnext, CutsAtEnds, and_assoc]

/-- **A script is executed as it reads exactly where each `;` ends a statement**, or ends a comment
and nothing of it is left behind. -/
theorem executesScript_iff (executeSQL : σ → Bytes → Bool × σ) (client : σ) (script : Script) :
    ExecutesScript executeSQL client script ↔ script.CutsAtEnds := by
  have hitems := executedIn_items_iff script.tail [] script.items 0
  rw [executesScript_iff_executedIn, Script.CutsAtEnds, ← hitems]
  rfl

/-- The exit code is then that of the statements. -/
theorem ExecutesScript.exitCode {executeSQL : σ → Bytes → Bool × σ} {client : σ} {script : Script}
    (h : ExecutesScript executeSQL client script) :
    (runScript executeSQL client script.text).exitCode
      = if (executeAll executeSQL (script.statements.map Prod.snd) (true, client)).1 then 0
        else 1 := by
  rw [← h.result]
  rfl

/-- `# c`, and `SELECT 1;` on the next line. -/
def commentedScript : Script where
  items :=
    [.comment { indent := [], body := ascii " c", blank := List.forall_mem_nil _,
                oneLine := of_decide_eq_true rfl },
     .statement { text := ascii "SELECT 1", reads := rfl,
                  nonBlank := ⟨83, List.mem_cons_self, rfl⟩ }]
  tail := []
  closing := .inl (List.forall_mem_nil _)

/-- The comment takes the statement with it; here a statement is counted when it is executed. -/
theorem comment_takes_statement :
    ¬ ExecutesScript (fun (n : Nat) _ => (true, n + 1)) 0 commentedScript := by
  intro h
  have hnone : (runScript (fun (n : Nat) _ => (true, n + 1)) 0 commentedScript.text).executed
      = [] := by decide
  have hone : commentedScript.statements = [(4, ascii "SELECT 1")] := by decide
  have hexecuted := h.executed
  rw [hnone, hone] at hexecuted
  cases hexecuted

end Cli
end MiniTSDB
