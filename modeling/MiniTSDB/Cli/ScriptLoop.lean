import MiniTSDB.Lib.Pieces
import MiniTSDB.Sql.Text

/-!
# The loop of `-f` (`cli/main.cpp`)

The loop cuts the file at every `;` and sends what is between two of them, without the blanks
around it, unless it is blank or begins with `#`. What it sends, and from where in the file, is
told by the pieces alone (`scriptLoop_eq`).
-/

namespace MiniTSDB
namespace Cli

open Lib Sql

abbrev semicolon : UInt8 := 59

abbrev hash : UInt8 := 35

/-! ## The loop -/

/-- `s.find_first_not_of(" \t\r\n")`. -/
def findFirstNotBlank (s : Bytes) : Option Nat := s.findIdx? (! isBlank ·)

/-- `s.find_last_not_of(" \t\r\n")`. -/
def findLastNotBlank (s : Bytes) : Option Nat :=
  (s.reverse.findIdx? (! isBlank ·)).map (s.length - 1 - ·)

/-- The variables of the loop, and what it has executed: each statement with its place in the
file. -/
structure ScriptRun (σ : Type) where
  pos : Nat := 0
  allOk : Bool := true
  client : σ
  executed : List (Nat × Bytes) := []

variable {σ : Type}

/-- `if (!ExecuteSQL(client, stmt, opts.format)) all_ok = false`. -/
def ScriptRun.send (executeSQL : σ → Bytes → Bool × σ) (run : ScriptRun σ) (place : Nat)
    (stmt : Bytes) : ScriptRun σ where
  pos := run.pos
  allOk := run.allOk && (executeSQL run.client stmt).1
  client := (executeSQL run.client stmt).2
  executed := run.executed ++ [(place, stmt)]

/-- `while (pos < content.size())`. -/
def scriptLoop (executeSQL : σ → Bytes → Bool × σ) (content : Bytes) :
    Nat → ScriptRun σ → ScriptRun σ
  | 0, run => run
  | fuel + 1, run =>
    if run.pos < content.length then
      let semi := (findChar content semicolon run.pos).getD content.length
      let stmt := (content.drop run.pos).take (semi - run.pos)
      let next := { run with pos := semi + 1 }
      match findFirstNotBlank stmt with
      | none => scriptLoop executeSQL content fuel next
      | some start =>
        if stmt[start]? = some hash then scriptLoop executeSQL content fuel next
        else
          let stop := (findLastNotBlank stmt).getD npos
          let stmt := (stmt.drop start).take (stop - start + 1)
          scriptLoop executeSQL content fuel (next.send executeSQL (run.pos + start) stmt)
    else run

/-- The file is in `content`; the loop moves on with each turn. -/
def runScript (executeSQL : σ → Bytes → Bool × σ) (client : σ) (content : Bytes) : ScriptRun σ :=
  scriptLoop executeSQL content (content.length + 1) { client := client }

/-- `return all_ok ? 0 : 1`. -/
def ScriptRun.exitCode (run : ScriptRun σ) : Nat := if run.allOk then 0 else 1

/-! ## Pieces -/

/-- The blanks in front of a text. -/
def lead (s : Bytes) : Nat := (s.takeWhile isBlank).length

/-- The loop passes over the piece: it is blank, or its first character that is not is a `#`. -/
def isSkipped (piece : Bytes) : Bool := (piece.find? (! isBlank ·)).all (· = hash)

/-- One statement after the other, and whether all went well. -/
def executeAll (executeSQL : σ → Bytes → Bool × σ) (stmts : List Bytes) (r : Bool × σ) :
    Bool × σ :=
  stmts.foldl (fun r stmt => (r.1 && (executeSQL r.2 stmt).1, (executeSQL r.2 stmt).2)) r

/-! ## One turn -/

/-- What is executed of a piece, and its place. -/
def executes (x : Nat × Bytes) : Option (Nat × Bytes) :=
  if isSkipped x.2 then none else some (x.1 + lead x.2, trim x.2)

def executedIn (pos : Nat) (pieces : List Bytes) : List (Nat × Bytes) :=
  (placed pos pieces).filterMap executes

def ScriptRun.sendAll (executeSQL : σ → Bytes → Bool × σ) (run : ScriptRun σ)
    (stmts : List (Nat × Bytes)) : ScriptRun σ :=
  stmts.foldl (fun run x => run.send executeSQL x.1 x.2) run

theorem find?_of_blank {s : Bytes} (h : ∀ c ∈ s, isBlank c = true) :
    s.find? (! isBlank ·) = none := by
  rw [List.find?_eq_none]
  intro c hc
  simp [h c hc]

theorem isSkipped_of_blank {s : Bytes} (h : ∀ c ∈ s, isBlank c = true) : isSkipped s = true := by
  rw [isSkipped, find?_of_blank h]
  rfl

/-- What is not blank stands behind a blank in front. -/
theorem exists_behind_blank {c : UInt8} {s : Bytes} (hc : isBlank c = true)
    (h : ∃ d ∈ c :: s, isBlank d = false) : ∃ d ∈ s, isBlank d = false := by
  obtain ⟨d, hd, hblank⟩ := h
  rcases List.mem_cons.mp hd with rfl | hd
  · rw [hc] at hblank
    cases hblank
  · exact ⟨d, hd, hblank⟩

theorem findFirstNotBlank_eq_none_iff {s : Bytes} :
    findFirstNotBlank s = none ↔ ∀ c ∈ s, isBlank c = true := by
  rw [findFirstNotBlank, List.findIdx?_eq_none_iff]
  simp

/-- The first character that is no blank stands behind the blanks in front. -/
theorem findFirstNotBlank_eq {s : Bytes} (h : ∃ c ∈ s, isBlank c = false) :
    findFirstNotBlank s = some (lead s) := by
  induction s with
  | nil =>
    obtain ⟨c, hc, -⟩ := h
    cases hc
  | cons c s ih =>
    rw [findFirstNotBlank, List.findIdx?_cons, lead, List.takeWhile_cons]
    cases hc : isBlank c with
    | false => rfl
    | true =>
      show ((findFirstNotBlank s).map (· + 1)) = _
      rw [ih (exists_behind_blank hc h)]
      rfl

theorem getElem?_lead {s : Bytes} : s[lead s]? = s.find? (! isBlank ·) := by
  induction s with
  | nil => rfl
  | cons c s ih =>
    rw [lead, List.takeWhile_cons, List.find?_cons]
    cases hc : isBlank c with
    | false => rfl
    | true => exact ih

theorem lead_le (s : Bytes) : lead s ≤ s.length := (List.takeWhile_prefix _).length_le

theorem lead_append {b : Bytes} (hb : ∀ c ∈ b, isBlank c = true) (s : Bytes) :
    lead (b ++ s) = b.length + lead s := by
  rw [lead, List.takeWhile_append_of_pos hb, List.length_append, lead]

theorem findLastNotBlank_eq {s : Bytes} (h : ∃ c ∈ s, isBlank c = false) :
    findLastNotBlank s = some (s.length - 1 - lead s.reverse) := by
  have hrev : ∃ c ∈ s.reverse, isBlank c = false := by
    obtain ⟨c, hc, hblank⟩ := h
    exact ⟨c, List.mem_reverse.mpr hc, hblank⟩
  show (findFirstNotBlank s.reverse).map _ = _
  rw [findFirstNotBlank_eq hrev]
  rfl

/-- **What `substr(start, end - start + 1)` cuts out is the piece without the blanks around it.** -/
theorem take_drop_eq_trim {s : Bytes} (h : ∃ c ∈ s, isBlank c = false) :
    (s.drop (lead s)).take ((findLastNotBlank s).getD npos - lead s + 1) = trim s := by
  have hfront : s = s.takeWhile isBlank ++ s.dropWhile isBlank :=
    List.takeWhile_append_dropWhile.symm
  have hdrop : s.drop (lead s) = s.dropWhile isBlank := by
    have hleft : (s.takeWhile isBlank ++ s.dropWhile isBlank).drop (lead s)
        = s.dropWhile isBlank := List.drop_left
    rwa [← hfront] at hleft
  generalize hu : s.dropWhile isBlank = u at hfront hdrop
  have hback : u = trim s ++ (u.reverse.takeWhile isBlank).reverse := by
    rw [trim, hu, ← List.reverse_append, List.takeWhile_append_dropWhile, List.reverse_reverse]
  have hne : u.reverse.dropWhile isBlank ≠ [] := by
    rw [ne_eq, List.dropWhile_eq_nil_iff]
    intro hall
    obtain ⟨c, hc, hblank⟩ := h
    rw [hfront, List.mem_append] at hc
    have htrue : isBlank c = true := by
      rcases hc with hc | hc
      · exact List.mem_takeWhile_imp hc
      · exact hall c (List.mem_reverse.mpr hc)
    rw [htrue] at hblank
    cases hblank
  have hlast : lead s.reverse = (u.reverse.takeWhile isBlank).length := by
    have hsplit : s.reverse = u.reverse.takeWhile isBlank
        ++ (u.reverse.dropWhile isBlank ++ (s.takeWhile isBlank).reverse) := by
      rw [← List.append_assoc, List.takeWhile_append_dropWhile, ← List.reverse_append, ← hfront]
    have hstop := List.head?_dropWhile_not isBlank u.reverse
    rw [hsplit, lead_append fun c hc => List.mem_takeWhile_imp hc]
    cases hcons : u.reverse.dropWhile isBlank with
    | nil => exact absurd hcons hne
    | cons c rest =>
      rw [hcons, List.head?_cons] at hstop
      rw [List.cons_append, lead, List.takeWhile_cons_of_neg (by simpa using hstop)]
      rfl
  have htrim : 0 < (trim s).length := by
    rw [trim, hu, List.length_reverse]
    exact List.length_pos_iff.mpr hne
  have hlen : s.length = lead s + ((trim s).length + lead s.reverse) := by
    have hback' := congrArg List.length hback
    rw [List.length_append, List.length_reverse, ← hlast] at hback'
    rw [← hback']
    exact (congrArg List.length hfront).trans (List.length_append ..)
  have hcount : s.length - 1 - lead s.reverse - lead s + 1 = (trim s).length := by omega
  rw [findLastNotBlank_eq h, Option.getD_some, hcount, hdrop, hback]
  exact List.take_left

/-- What the loop sends of one piece. -/
theorem executes_of_hash {pos : Nat} {s : Bytes} (h : s[lead s]? = some hash) :
    executes (pos, s) = none := by
  have hskip : isSkipped s = true := by
    rw [isSkipped, ← getElem?_lead, h]
    rfl
  rw [executes, if_pos hskip]

theorem isSkipped_eq_false {s : Bytes} (h : ∃ c ∈ s, isBlank c = false)
    (hhash : s[lead s]? ≠ some hash) : isSkipped s = false := by
  rw [getElem?_lead] at hhash
  rw [isSkipped]
  cases hfind : s.find? (! isBlank ·) with
  | none =>
    obtain ⟨c, hc, hblank⟩ := h
    have hnot := List.find?_eq_none.mp hfind c hc
    rw [hblank] at hnot
    exact absurd rfl hnot
  | some c =>
    rw [hfind] at hhash
    rw [Option.all_some, decide_eq_false_iff_not]
    intro hc
    exact hhash (congrArg some hc)

/-- **One turn** moves behind the next `;`, and sends what there is to execute in the piece. -/
theorem scriptLoop_succ (executeSQL : σ → Bytes → Bool × σ) {content : Bytes} (fuel : Nat)
    {run : ScriptRun σ} {semi : Nat} {stmt : Bytes} (hrun : run.pos < content.length)
    (hsemi : (findChar content semicolon run.pos).getD content.length = semi)
    (hstmt : (content.drop run.pos).take (semi - run.pos) = stmt) :
    scriptLoop executeSQL content (fuel + 1) run
      = scriptLoop executeSQL content fuel
          (({ run with pos := semi + 1 } : ScriptRun σ).sendAll executeSQL
            (executes (run.pos, stmt)).toList) := by
  rw [scriptLoop, if_pos hrun]
  simp only [hsemi, hstmt]
  by_cases hblank : ∀ c ∈ stmt, isBlank c = true
  · rw [findFirstNotBlank_eq_none_iff.mpr hblank, executes, if_pos (isSkipped_of_blank hblank)]
    rfl
  · have hfull : ∃ c ∈ stmt, isBlank c = false := by simpa using hblank
    rw [findFirstNotBlank_eq hfull]
    by_cases hhash : stmt[lead stmt]? = some hash
    · rw [executes_of_hash hhash]
      simp only [hhash, if_true]
      rfl
    · have hexec : executes (run.pos, stmt) = some (run.pos + lead stmt, trim stmt) := by
        rw [executes, isSkipped_eq_false hfull hhash]
        rfl
      simp only [hhash, if_false, take_drop_eq_trim hfull, hexec]
      rfl

/-! ## The whole run -/

theorem executedIn_cons (pos : Nat) (piece : Bytes) (pieces : List Bytes) :
    executedIn pos (piece :: pieces)
      = (executes (pos, piece)).toList ++ executedIn (pos + piece.length + 1) pieces := by
  rw [executedIn, placed, List.filterMap_cons, executedIn]
  cases executes (pos, piece) with
  | none => rfl
  | some x => rfl

theorem executedIn_append (pos : Nat) (pieces pieces' : List Bytes) :
    executedIn pos (pieces ++ pieces')
      = executedIn pos pieces ++ executedIn (pos + width pieces) pieces' := by
  rw [executedIn, placed_append, List.filterMap_append, executedIn, executedIn]

theorem executedIn_nil (pos : Nat) : executedIn pos (([] : Bytes).splitOn semicolon) = [] := by
  rw [List.splitOn_nil]
  rfl

/-- The piece that the loop takes is the first, and it goes on with the others. -/
theorem exists_piece {content : Bytes} {pos : Nat} (hpos : pos < content.length) :
    ∃ semi stmt, (findChar content semicolon pos).getD content.length = semi ∧
      (content.drop pos).take (semi - pos) = stmt ∧ pos ≤ semi ∧
      executedIn pos ((content.drop pos).splitOn semicolon) = (executes (pos, stmt)).toList
        ++ executedIn (semi + 1) ((content.drop (semi + 1)).splitOn semicolon) := by
  by_cases hmem : semicolon ∈ content.drop pos
  · obtain ⟨stmt, rest, hsplit, hstmt⟩ := List.eq_append_cons_of_mem hmem
    refine ⟨stmt.length + pos, stmt, ?_, ?_, Nat.le_add_left _ _, ?_⟩
    · rw [findChar, findFrom, hsplit, find_char rest hstmt]
      rfl
    · rw [hsplit, Nat.add_sub_cancel, List.take_left]
    · have hrest : content.drop (stmt.length + pos + 1) = rest := by
        rw [show stmt.length + pos + 1 = pos + (stmt.length + 1) by omega, ← List.drop_drop,
          hsplit, ← List.drop_drop, List.drop_left]
        rfl
      rw [hsplit, List.splitOn_append_cons_self_of_not_mem hstmt, executedIn_cons, hrest,
        Nat.add_comm stmt.length pos]
  · have hnone : findChar content semicolon pos = none := by
      rw [findChar, findFrom, Option.map_eq_none_iff, find_eq_none_iff]
      intro hoccurs
      exact hmem (hoccurs.subset List.mem_cons_self)
    refine ⟨content.length, content.drop pos, ?_, ?_, Nat.le_of_lt hpos, ?_⟩
    · rw [hnone]
      rfl
    · exact List.take_of_length_le (by rw [List.length_drop])
    · have hrest : content.drop (content.length + 1) = [] :=
        List.drop_of_length_le (Nat.le_succ _)
      rw [List.splitOn_eq_singleton hmem, executedIn_cons, hrest, executedIn_nil]
      rfl

theorem sendAll_at (executeSQL : σ → Bytes → Bool × σ) (run : ScriptRun σ) (pos : Nat)
    (stmts : List (Nat × Bytes)) :
    ({ run with pos := pos } : ScriptRun σ).sendAll executeSQL stmts
      = { run.sendAll executeSQL stmts with pos := pos } := by
  induction stmts generalizing run with
  | nil => rfl
  | cons x stmts ih => exact ih (run.send executeSQL x.1 x.2)

theorem sendAll_append (executeSQL : σ → Bytes → Bool × σ) (run : ScriptRun σ)
    (stmts stmts' : List (Nat × Bytes)) :
    run.sendAll executeSQL (stmts ++ stmts')
      = (run.sendAll executeSQL stmts).sendAll executeSQL stmts' := List.foldl_append

@[simp] theorem executed_sendAll (executeSQL : σ → Bytes → Bool × σ) (run : ScriptRun σ)
    (stmts : List (Nat × Bytes)) :
    (run.sendAll executeSQL stmts).executed = run.executed ++ stmts := by
  induction stmts generalizing run with
  | nil => simp [ScriptRun.sendAll]
  | cons x stmts ih =>
    show ((run.send executeSQL x.1 x.2).sendAll executeSQL stmts).executed = _
    rw [ih, ScriptRun.send, List.append_assoc]
    rfl

theorem result_sendAll (executeSQL : σ → Bytes → Bool × σ) (run : ScriptRun σ)
    (stmts : List (Nat × Bytes)) :
    ((run.sendAll executeSQL stmts).allOk, (run.sendAll executeSQL stmts).client)
      = executeAll executeSQL (stmts.map Prod.snd) (run.allOk, run.client) := by
  induction stmts generalizing run with
  | nil => rfl
  | cons x stmts ih => exact ih (run.send executeSQL x.1 x.2)

/-- **The loop sends what there is to execute in the pieces, in their order**, and comes to the end
of the text. -/
theorem scriptLoop_eq (executeSQL : σ → Bytes → Bool × σ) (content : Bytes) {fuel : Nat}
    (run : ScriptRun σ) (hfuel : content.length - run.pos < fuel) :
    ∃ pos, content.length ≤ pos ∧ scriptLoop executeSQL content fuel run
      = { run.sendAll executeSQL
          (executedIn run.pos ((content.drop run.pos).splitOn semicolon)) with pos := pos } := by
  induction fuel generalizing run with
  | zero => cases hfuel
  | succ fuel ih =>
    by_cases hrun : run.pos < content.length
    · obtain ⟨semi, stmt, hsemi, hstmt, hle, hpieces⟩ := exists_piece hrun
      rw [scriptLoop_succ executeSQL fuel hrun hsemi hstmt, sendAll_at]
      have hfuel' : content.length - (semi + 1) < fuel := by omega
      obtain ⟨pos, hpos, hloop⟩ := ih
        { run.sendAll executeSQL (executes (run.pos, stmt)).toList with pos := semi + 1 } hfuel'
      refine ⟨pos, hpos, ?_⟩
      rw [hloop, sendAll_at, hpieces, sendAll_append]
    · have hdrop : content.drop run.pos = [] := List.drop_of_length_le (by omega)
      refine ⟨run.pos, by omega, ?_⟩
      rw [scriptLoop, if_neg hrun, hdrop, executedIn_nil]
      rfl

/-- The whole run, of any file. -/
theorem exists_runScript (executeSQL : σ → Bytes → Bool × σ) (client : σ) (content : Bytes) :
    ∃ pos, content.length ≤ pos ∧ runScript executeSQL client content
      = { ScriptRun.sendAll executeSQL { client := client }
          (executedIn 0 (content.splitOn semicolon)) with pos := pos } :=
  scriptLoop_eq executeSQL content { client := client } (Nat.lt_succ_of_le (Nat.sub_le _ _))

end Cli
end MiniTSDB
