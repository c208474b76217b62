import MiniTSDB.Lib.Decimal
import MiniTSDB.Sql.InsertLiterals

/-!
# The configuration file (`common/config.cpp`)

A file is read line by line: a comment, the heading of a section, or a key with its value. What is
filed is what was written last under the name of the section and the key (`load_render`), but for one
thing: of a value in double quotes, single quotes around the rest are taken off as well.
-/

namespace MiniTSDB
namespace Common

open Lib Sql

abbrev newline : UInt8 := 10
abbrev equals : UInt8 := 61
abbrev hash : UInt8 := 35
abbrev openBracket : UInt8 := 91
abbrev closeBracket : UInt8 := 93
abbrev single : UInt8 := 39
abbrev double : UInt8 := 34

/-! ## `Config` -/

/-- `config_`. -/
abbrev Settings := AList fun _ : Bytes => Bytes

/-- A space or a tab. -/
def isGap (c : UInt8) : Bool := c = 32 || c = 9

/-- The text without these characters at its ends. -/
def strip (taken : UInt8 → Bool) (s : Bytes) : Bytes :=
  ((s.dropWhile taken).reverse.dropWhile taken).reverse

/-- The value without this quote at both ends. -/
def unquote (q : UInt8) (value : Bytes) : Bytes :=
  if value.length ≥ 2 ∧ value.head? = some q ∧ value.getLast? = some q then
    (value.drop 1).dropLast
  else value

def fullKey (section_ key : Bytes) : Bytes :=
  if section_ = [] then key else section_ ++ ascii "." ++ key

/-- What the loop of `Load` has read. -/
structure Loading where
  section_ : Bytes
  settings : Settings

/-- One line. -/
def Loading.line (s : Loading) (raw : Bytes) : Loading :=
  let line := strip isBlank raw
  if line = [] ∨ line.head? = some hash then s
  else if line.head? = some openBracket ∧ line.getLast? = some closeBracket then
    { s with section_ := (line.drop 1).dropLast }
  else match line.dropWhile (· ≠ equals) with
    | [] => s
    | _ :: value =>
      let key := strip isGap (line.takeWhile (· ≠ equals))
      let value := unquote single (unquote double (strip isGap value))
      { s with settings := s.settings.insert (fullKey s.section_ key) value }

/-- The lines that `getline` gives: behind the last line end there is none. -/
def getLines (content : Bytes) : List Bytes :=
  let pieces := content.splitOn newline
  if pieces.getLast? = some [] then pieces.dropLast else pieces

/-- `Load`; there is no content where the file cannot be read. -/
def load (settings : Settings) : Option Bytes → Bool × Settings
  | none => (false, settings)
  | some content =>
    if content = [] then (false, settings)
    else (true, ((getLines content).foldl Loading.line { section_ := [], settings }).settings)

/-- `Get`. -/
def Settings.get (settings : Settings) (key defaultVal : Bytes) : Bytes :=
  (settings.lookup key).getD defaultVal

/-- `std::stoi`; `none` where it throws. -/
def stoi (text : Bytes) : Option Int :=
  (stoll text).bind fun i => if -2 ^ 31 ≤ i.toInt ∧ i.toInt < 2 ^ 31 then some i.toInt else none

/-- `GetInt`. -/
def Settings.getInt (settings : Settings) (key : Bytes) (defaultVal : Int) : Int :=
  ((settings.lookup key).bind stoi).getD defaultVal

/-! ## Files -/

/-- A line of a file, each with the values in double quotes. -/
inductive ConfigItem
  | blank (text : Bytes) (blank : ∀ c ∈ text, isGap c = true)
  | comment (text : Bytes) (oneLine : newline ∉ text)
  | heading (name : Bytes) (oneLine : newline ∉ name)
  | entry (key value : Bytes) (keyOneLine : newline ∉ key) (oneLine : newline ∉ value)
      (noEquals : equals ∉ key) (starts : ∃ c, key.head? = some c ∧ isBlank c = false ∧ c ≠ hash)
      (ends : ∀ c ∈ key.getLast?, isGap c = false)

namespace ConfigItem

/-- The line. -/
def text : ConfigItem → Bytes
  | blank text _ => text
  | comment text _ => hash :: text
  | heading name _ => openBracket :: name ++ [closeBracket]
  | entry key value _ _ _ _ _ => key ++ ascii " = " ++ (double :: value ++ [double])

/-- What the file assigns, under the names of the sections. -/
def assigned : Bytes → List ConfigItem → List (Bytes × Bytes)
  | _, [] => []
  | section_, blank _ _ :: items => assigned section_ items
  | section_, comment _ _ :: items => assigned section_ items
  | _, heading name _ :: items => assigned name items
  | section_, entry key value _ _ _ _ _ :: items =>
    (fullKey section_ key, value) :: assigned section_ items

end ConfigItem

/-- The file. -/
def render (items : List ConfigItem) : Bytes := items.flatMap fun item => item.text ++ [newline]

/-! ## Texts without their ends -/

section Strip

variable {taken : UInt8 → Bool} {c d : UInt8} {s : Bytes}

theorem strip_cons (h : taken c = false) :
    strip taken (c :: s) = c :: (s.reverse.dropWhile taken).reverse := by
  have hdrop : (s.reverse ++ [c]).dropWhile taken = s.reverse.dropWhile taken ++ [c] := by
    rw [List.dropWhile_append]
    split
    case isTrue hall =>
      rw [List.isEmpty_iff.mp hall, List.nil_append, List.dropWhile_cons_of_neg (by rw [h]; decide)]
    case isFalse => rfl
  rw [strip, List.dropWhile_cons_of_neg (by rw [h]; decide), List.reverse_cons, hdrop,
    List.reverse_append]
  rfl

/-- A text that neither begins nor ends with one of them stays as it is. -/
theorem strip_ends (hc : taken c = false) (hd : taken d = false) :
    strip taken (c :: s ++ [d]) = c :: s ++ [d] := by
  rw [List.cons_append, strip_cons hc, List.reverse_append, List.reverse_singleton,
    List.singleton_append, List.dropWhile_cons_of_neg (by rw [hd]; decide), List.reverse_cons,
    List.reverse_reverse]

theorem strip_all (h : ∀ c ∈ s, taken c = true) : strip taken s = [] := by
  rw [strip, List.dropWhile_eq_nil_iff.mpr h]
  rfl

/-- What is taken off in front, -/
theorem strip_front (h : taken c = true) : strip taken (c :: s) = strip taken s := by
  rw [strip, List.dropWhile_cons_of_pos h, strip]

/-- and behind. -/
theorem strip_behind (hs : ∃ c, s.head? = some c ∧ taken c = false)
    (hlast : ∀ c ∈ s.getLast?, taken c = false) (hd : taken d = true) :
    strip taken (s ++ [d]) = s := by
  obtain ⟨c, hc, htaken⟩ := hs
  obtain ⟨rest, rfl⟩ : ∃ rest, s = c :: rest := by
    cases s with
    | nil => cases hc
    | cons c' rest =>
      cases hc
      exact ⟨rest, rfl⟩
  rw [List.cons_append, strip_cons htaken, List.reverse_append, List.reverse_singleton,
    List.singleton_append, List.dropWhile_cons_of_pos hd]
  induction rest using List.reverseRecOn with
  | nil => rfl
  | append_singleton front last _ =>
    have hkept : taken last = false :=
      hlast last (by rw [← List.cons_append, List.getLast?_concat]; rfl)
    rw [List.reverse_append, List.reverse_singleton, List.singleton_append,
      List.dropWhile_cons_of_neg (by rw [hkept]; decide), List.reverse_cons, List.reverse_reverse]

theorem unquote_quoted (q : UInt8) (value : Bytes) : unquote q (q :: value ++ [q]) = value := by
  unfold unquote
  rw [if_pos]
  · simp
  · refine ⟨by simp, rfl, ?_⟩
    rw [List.getLast?_concat]

end Strip

/-! ## Lines -/

section Lines

variable (s : Loading)

theorem isGap_of_isBlank {c : UInt8} (h : isBlank c = false) : isGap c = false := by
  unfold isBlank at h
  unfold isGap
  simp only [Bool.or_eq_false_iff] at h ⊢
  exact h.1.1

theorem line_blank {text : Bytes} (h : ∀ c ∈ text, isGap c = true) : s.line text = s := by
  have hblank : strip isBlank text = [] := by
    apply strip_all
    intro c hc
    have hgap := h c hc
    unfold isGap at hgap
    rw [Bool.or_eq_true, decide_eq_true_eq, decide_eq_true_eq] at hgap
    rcases hgap with rfl | rfl
    · rfl
    · rfl
  unfold Loading.line
  dsimp only
  rw [hblank, if_pos (.inl rfl)]

theorem line_comment (text : Bytes) : s.line (hash :: text) = s := by
  unfold Loading.line
  dsimp only
  rw [strip_cons (by decide), if_pos (.inr rfl)]

theorem line_heading (name : Bytes) :
    s.line (openBracket :: name ++ [closeBracket]) = { s with section_ := name } := by
  unfold Loading.line
  dsimp only
  rw [strip_ends (by decide) (by decide), if_neg, if_pos]
  · simp
  · exact ⟨rfl, List.getLast?_concat⟩
  · rintro (hnil | hhash)
    · cases hnil
    · exact absurd (Option.some.inj hhash) (by decide)

/-- A text is cut at its first `=`. -/
theorem cut_at_equals {front : Bytes} (h : equals ∉ front) (behind : Bytes) :
    (front ++ equals :: behind).dropWhile (fun c => decide (c ≠ equals)) = equals :: behind ∧
      (front ++ equals :: behind).takeWhile (fun c => decide (c ≠ equals)) = front := by
  have hfront : ∀ c ∈ front, decide (c ≠ equals) = true := by
    intro c hc
    rw [decide_eq_true_eq]
    rintro rfl
    exact h hc
  rw [List.dropWhile_append_of_pos hfront, List.takeWhile_append_of_pos hfront]
  simp

theorem line_entry {key value : Bytes} (noEquals : equals ∉ key)
    (starts : ∃ c, key.head? = some c ∧ isBlank c = false ∧ c ≠ hash)
    (ends : ∀ c ∈ key.getLast?, isGap c = false) :
    s.line (key ++ ascii " = " ++ (double :: value ++ [double])) =
      { s with settings := s.settings.insert (fullKey s.section_ key) (unquote single value) } := by
  obtain ⟨c, hc, hblank, hhash⟩ := starts
  have hgap : isGap c = false := isGap_of_isBlank hblank
  obtain ⟨rest, rfl⟩ : ∃ rest, key = c :: rest := by
    cases key with
    | nil => cases hc
    | cons c' rest =>
      cases hc
      exact ⟨rest, rfl⟩
  have hequals : ascii " = " = [32, equals, 32] := rfl
  have hline : c :: rest ++ ascii " = " ++ (double :: value ++ [double])
      = c :: (rest ++ ascii " = " ++ double :: value) ++ [double] := by simp
  have hparts : c :: (rest ++ ascii " = " ++ double :: value) ++ [double]
      = (c :: rest ++ [32]) ++ equals :: 32 :: (double :: value ++ [double]) := by
    rw [hequals]
    simp
  have hbefore : equals ∉ c :: rest ++ [32] := by
    intro hmem
    rcases List.mem_append.mp hmem with hmem | hmem
    · exact noEquals hmem
    · exact absurd (List.mem_singleton.mp hmem) (by decide)
  obtain ⟨hdrop, htake⟩ := cut_at_equals hbefore (32 :: (double :: value ++ [double]))
  unfold Loading.line
  dsimp only
  rw [hline, strip_ends hblank (by decide), if_neg, if_neg]
  · -- the key is in front of the first `=`, and the value in quotes behind it
    rw [hparts, hdrop, htake]
    dsimp only
    rw [strip_behind ⟨c, rfl, hgap⟩ ends rfl, strip_front rfl, strip_ends (by decide) (by decide),
      unquote_quoted]
  · rintro ⟨-, hlast⟩
    rw [List.getLast?_concat] at hlast
    exact absurd (Option.some.inj hlast) (by decide)
  · rintro (hnil | hhead)
    · cases hnil
    · exact hhash (Option.some.inj hhead)

end Lines

/-! ## Files -/

theorem oneLine_text (item : ConfigItem) : newline ∉ item.text := by
  cases item with
  | blank text blank =>
    intro hmem
    exact absurd (blank newline hmem) (by decide)
  | comment text oneLine =>
    show newline ∉ hash :: text
    rw [List.mem_cons, not_or]
    exact ⟨by decide, oneLine⟩
  | heading name oneLine =>
    show newline ∉ openBracket :: (name ++ [closeBracket])
    rw [List.mem_cons, List.mem_append, List.mem_singleton, not_or, not_or]
    exact ⟨by decide, oneLine, by decide⟩
  | entry key value keyOneLine oneLine _ _ _ =>
    show newline ∉ key ++ ascii " = " ++ (double :: (value ++ [double]))
    rw [List.mem_append, List.mem_append, List.mem_cons, List.mem_append, List.mem_singleton,
      not_or, not_or, not_or, not_or]
    exact ⟨⟨keyOneLine, by decide⟩, by decide, oneLine, by decide⟩

theorem splitOn_render (items : List ConfigItem) :
    (render items).splitOn newline = items.map ConfigItem.text ++ [[]] := by
  induction items with
  | nil => rfl
  | cons item items ih =>
    have hsplit : render (item :: items) = item.text ++ newline :: render items := by
      unfold render
      rw [List.flatMap_cons, List.append_assoc]
      rfl
    rw [hsplit, List.splitOn_append_cons_self, List.splitOn_eq_singleton (oneLine_text item), ih]
    rfl

theorem getLines_render (items : List ConfigItem) :
    getLines (render items) = items.map ConfigItem.text := by
  unfold getLines
  dsimp only
  rw [splitOn_render, List.getLast?_concat, if_pos rfl, List.dropLast_concat]

/-- What is filed. -/
def filed (settings : Settings) (assigned : List (Bytes × Bytes)) : Settings :=
  assigned.foldl (fun settings e => settings.insert e.1 (unquote single e.2)) settings

theorem settings_lines (items : List ConfigItem) (s : Loading) :
    ((items.map ConfigItem.text).foldl Loading.line s).settings
      = filed s.settings (ConfigItem.assigned s.section_ items) := by
  induction items generalizing s with
  | nil => rfl
  | cons item items ih =>
    rw [List.map_cons, List.foldl_cons, ih]
    cases item with
    | blank text blank => rw [ConfigItem.text, line_blank s blank, ConfigItem.assigned]
    | comment text oneLine => rw [ConfigItem.text, line_comment, ConfigItem.assigned]
    | heading name oneLine => rw [ConfigItem.text, line_heading, ConfigItem.assigned]
    | entry key value keyOneLine oneLine noEquals starts ends =>
      rw [ConfigItem.text, line_entry s noEquals starts ends, ConfigItem.assigned]
      rfl

/-- **The last assignment stands.** -/
theorem lookup_filed (settings : Settings) (assigned : List (Bytes × Bytes)) (key : Bytes) :
    (filed settings assigned).lookup key
      = ((assigned.reverse.lookup key).map (unquote single)).or (settings.lookup key) := by
  unfold filed
  induction assigned using List.reverseRecOn with
  | nil => rfl
  | append_singleton assigned e ih =>
    obtain ⟨name, value⟩ := e
    rw [List.foldl_append, List.foldl_cons, List.foldl_nil, List.reverse_append,
      List.reverse_singleton, List.singleton_append, List.lookup_cons]
    by_cases hname : key = name
    · subst hname
      rw [AList.lookup_insert, beq_self_eq_true]
      rfl
    · rw [AList.lookup_insert_ne hname, ih, beq_eq_false_iff_ne.mpr hname]

theorem lookup_load (settings : Settings) (items : List ConfigItem) (key : Bytes) :
    (load settings (some (render items))).2.lookup key
      = (((ConfigItem.assigned [] items).reverse.lookup key).map (unquote single)).or
          (settings.lookup key) := by
  unfold load
  cases items with
  | nil => rfl
  | cons item items =>
    have hne : render (item :: items) ≠ [] := by
      unfold render
      rw [List.flatMap_cons]
      simp
    dsimp only
    rw [if_neg hne, getLines_render, settings_lines, lookup_filed]

/-! ## Numbers -/

/-- A numeral is read back. -/
theorem integer_decimal (n : Int) :
    Numeral.isExponent (decimal n) = true ∧ integerValue (decimal n) = n := by
  have hne := natDecimal_ne_nil n.natAbs
  have hdigits : ∀ c ∈ natDecimal n.natAbs, Sql.isDigit c = true := natDecimal_isDigit
  obtain ⟨hexponent, hvalue⟩ := isExponent_of_digits hne hdigits
  rw [digitsValue_natDecimal] at hvalue
  unfold decimal
  split
  case isFalse hsign =>
    refine ⟨hexponent, ?_⟩
    rw [hvalue]
    omega
  case isTrue hsign =>
    have hdrop : Numeral.dropSign (45 :: natDecimal n.natAbs) = natDecimal n.natAbs := rfl
    constructor
    · rw [Numeral.isExponent, hdrop, Bool.and_eq_true, List.all_eq_true]
      exact ⟨by simpa using hne, hdigits⟩
    · unfold integerValue
      rw [hdrop, List.head?_cons, if_pos rfl, digitsValue_natDecimal]
      omega

theorem stoi_decimal (n : Int) :
    stoi (decimal n) = if -2 ^ 31 ≤ n ∧ n < 2 ^ 31 then some n else none := by
  obtain ⟨hexponent, hvalue⟩ := integer_decimal n
  have hread : stoll (decimal n ++ []) = _ := stoll_append hexponent (by simp)
  rw [List.append_nil, hvalue] at hread
  unfold stoi
  rw [hread]
  by_cases hlong : n < -2 ^ 63 ∨ 2 ^ 63 ≤ n
  · rw [if_pos hlong, if_neg (by omega)]
    rfl
  · rw [if_neg hlong, Option.bind_some, Int64.toInt_ofInt_of_le (by omega) (by omega)]

/-- No quotes are around a numeral. -/
theorem unquote_decimal (n : Int) : unquote single (decimal n) = decimal n := by
  apply if_neg
  rintro ⟨-, hhead, -⟩
  unfold decimal at hhead
  split at hhead
  case isTrue => exact absurd (Option.some.inj hhead) (by decide)
  case isFalse =>
    have hdigit := natDecimal_isDigit single (List.mem_of_head? hhead)
    exact absurd hdigit (by decide)

/-- **A file is read as it was written**: each key has the value that it was last assigned, without
the single quotes that may be around it, and the other keys stay; and of a value that is a numeral
`GetInt` gives the number, if an `int` can have it. -/
theorem load_render (settings : Settings) (items : List ConfigItem) (key : Bytes) :
    ((load settings (some (render items))).2.lookup key
      = (((ConfigItem.assigned [] items).reverse.lookup key).map (unquote single)).or
          (settings.lookup key)) ∧
      ∀ n, (ConfigItem.assigned [] items).reverse.lookup key = some (decimal n) →
        ∀ defaultVal, (load settings (some (render items))).2.getInt key defaultVal
          = if -2 ^ 31 ≤ n ∧ n < 2 ^ 31 then n else defaultVal := by
  refine ⟨lookup_load settings items key, ?_⟩
  intro n hlast defaultVal
  unfold Settings.getInt
  rw [lookup_load, hlast, Option.map_some, unquote_decimal, Option.some_or, Option.bind_some,
    stoi_decimal]
  split
  · rfl
  · rfl

theorem oneLine_server : newline ∉ ascii "server" := by decide

theorem isKey_port : newline ∉ ascii "port" ∧ equals ∉ ascii "port" ∧
    (∃ c, (ascii "port").head? = some c ∧ isBlank c = false ∧ c ≠ hash) ∧
    ∀ c ∈ (ascii "port").getLast?, isGap c = false := by
  refine ⟨by decide, by decide, ⟨112, rfl, rfl, by decide⟩, ?_⟩
  intro c hc
  cases hc
  rfl

theorem oneLine_ports : newline ∉ ascii "80" ∧ newline ∉ decimal 8086 := by decide

/-- A section, and a key in it that has two values. -/
def serverFile : List ConfigItem :=
  [.comment (ascii "server") oneLine_server, .heading (ascii "server") oneLine_server,
    .entry (ascii "port") (ascii "80") isKey_port.1 oneLine_ports.1 isKey_port.2.1
      isKey_port.2.2.1 isKey_port.2.2.2,
    .entry (ascii "port") (decimal 8086) isKey_port.1 oneLine_ports.2 isKey_port.2.1
      isKey_port.2.2.1 isKey_port.2.2.2]

theorem load_serverFile :
    (load ∅ (some (render serverFile))).2.getInt (ascii "server.port") 1 = 8086 :=
  (load_render ∅ serverFile (ascii "server.port")).2 8086 rfl 1

end Common
end MiniTSDB
