import MiniTSDB.Sql.CaseBlind

/-!
# The words that are looked for in one spelling

The name in an `ALTER` of a user, an alarm or a tag ends at the first ` SET ` in upper case, and
the tag of a `DELETE` and an `UPDATE` stands behind the first `tag=` in lower case. In another
case the word is passed over: the name gets longer, the tag is that of a later `tag=`, or none.
-/

namespace MiniTSDB
namespace Sql

open Lib

/-! ## Blanks -/

theorem drop_skipUntil (stop : UInt8 → Bool) (s : Bytes) (pos : Nat) :
    s.drop (skipUntil stop s pos) = (s.drop pos).dropWhile fun c => !stop c := by
  have hsplit := List.takeWhile_append_dropWhile (p := fun c => !stop c) (l := s.drop pos)
  rw [skipUntil, ← List.drop_drop]
  nth_rewrite 2 [← hsplit]
  rw [List.drop_left]

/-- Nothing but blanks is taken off. -/
theorem countP_trim (s : Bytes) : (trim s).countP (! isBlank ·) = s.countP (! isBlank ·) := by
  have hdrop : ∀ s : Bytes, (s.dropWhile isBlank).countP (! isBlank ·) = s.countP (! isBlank ·) := by
    intro s
    have hblank : (s.takeWhile isBlank).countP (! isBlank ·) = 0 := by
      rw [List.countP_eq_zero]
      intro c hc
      rw [List.mem_takeWhile_imp hc]
      decide
    have hsplit := List.takeWhile_append_dropWhile (p := isBlank) (l := s)
    rw [← hsplit, List.countP_append, hblank, Nat.zero_add, hsplit]
  rw [trim, List.countP_reverse, hdrop, List.countP_reverse, hdrop]

/-- A text that ends in no blank is trimmed at its front alone. -/
theorem trim_eq_dropWhile {s : Bytes} (hs : s.getLast?.all (! isBlank ·) = true) :
    trim s = s.dropWhile isBlank := by
  have hlast : (s.dropWhile isBlank).reverse.head?.all (! isBlank ·) = true := by
    rw [List.head?_reverse]
    cases hdrop : s.dropWhile isBlank with
    | nil => rfl
    | cons c rest =>
      have hsplit := List.takeWhile_append_dropWhile (p := isBlank) (l := s)
      rw [hdrop] at hsplit
      rw [← hsplit, List.getLast?_append, List.getLast?_cons] at hs
      rw [List.getLast?_cons]
      exact hs
  have hdrop := dropWhile_blank (b := []) (by simp) hlast
  rw [List.nil_append] at hdrop
  rw [trim, hdrop, List.reverse_reverse]

theorem trim_drop {s : Bytes} (hs : Tight s) (pos : Nat) :
    trim (s.drop pos) = s.drop (skipUntil (fun c => !isBlank c) s pos) := by
  rw [drop_skipUntil]
  simp only [Bool.not_not]
  apply trim_eq_dropWhile
  rw [List.getLast?_drop]
  split
  · rfl
  · exact hs.2

theorem tight_trim (s : Bytes) : Tight (trim s) := by
  have hfront : ∀ s : Bytes, (s.dropWhile isBlank).head?.all (! isBlank ·) = true := by
    intro s
    cases hdrop : s.dropWhile isBlank with
    | nil => rfl
    | cons c rest =>
      have hstop := List.head?_dropWhile_not isBlank s
      rw [hdrop] at hstop
      rw [List.head?_cons, Option.all_some, hstop]
      rfl
  constructor
  · -- the front of the text is not touched when its end is trimmed
    have hpre : trim s <+: s.dropWhile isBlank := by
      rw [trim, ← List.reverse_suffix, List.reverse_reverse]
      exact List.dropWhile_suffix _
    cases htrim : trim s with
    | nil => rfl
    | cons c rest =>
      obtain ⟨after, hafter⟩ := hpre
      have hhead := hfront s
      rw [← hafter, htrim] at hhead
      exact hhead
  · rw [trim, List.getLast?_reverse]
    exact hfront _

theorem tight_toUpper (s : Bytes) : Tight (toUpper s) ↔ Tight s := by
  have hcomp : (fun c => !isBlank c) ∘ upperChar = fun c => !isBlank c :=
    funext caseless_isBlank.not
  have hall : ∀ o : Option UInt8, (o.map upperChar).all (! isBlank ·) = o.all (! isBlank ·) := by
    intro o
    cases o with
    | none => rfl
    | some c => exact congrFun hcomp c
  unfold Tight toUpper
  rw [List.head?_map, List.getLast?_map, hall, hall]

/-- A text is trimmed to any text of these letters by its blanks. -/
theorem exists_trim_eq {s t : Bytes} (h : SameLetters (trim s) t) :
    ∃ s', SameLetters s s' ∧ trim s' = t := by
  have hsplit : s = s.takeWhile isBlank ++ trim s
      ++ ((s.dropWhile isBlank).reverse.takeWhile isBlank).reverse := by
    rw [trim, List.append_assoc, ← List.reverse_append, List.takeWhile_append_dropWhile,
      List.reverse_reverse, List.takeWhile_append_dropWhile]
  refine ⟨s.takeWhile isBlank ++ t
    ++ ((s.dropWhile isBlank).reverse.takeWhile isBlank).reverse, ?_, ?_⟩
  · nth_rewrite 1 [hsplit]
    exact ((SameLetters.refl _).append h).append (.refl _)
  · apply trim_append
    · exact fun c hc => List.mem_takeWhile_imp hc
    · exact fun c hc => List.mem_takeWhile_imp (List.mem_reverse.mp hc)
    · rw [← tight_toUpper, h, tight_toUpper]
      exact tight_trim s

/-! ## A word in another case -/

/-- The text with the word at this place. -/
def putAt (sql : Bytes) (i : Nat) (word : Bytes) : Bytes :=
  sql.take i ++ (word ++ sql.drop (i + word.length))

section PutAt

variable {s word other : Bytes} {pos i : Nat}

theorem length_eq_of_letters (h : toUpper other = toUpper word) : other.length = word.length := by
  rw [← length_toUpper, h, length_toUpper]

/-- The word in another case does not change the letters. -/
theorem putAt_sameLetters (h : findKeyword s word pos = some i)
    (hother : toUpper other = toUpper word) : SameLetters s (putAt s i other) := by
  obtain ⟨j, hj, rfl⟩ := Option.map_eq_some_iff.mp h
  obtain ⟨rest, hrest⟩ := (find_eq_some hj).1
  rw [List.drop_drop, Nat.add_comm pos j, drop_toUpper] at hrest
  have hbehind : toUpper (s.drop (j + pos + other.length)) = rest := by
    rw [← List.drop_drop, ← drop_toUpper, ← hrest, length_eq_of_letters hother, ← length_toUpper,
      List.drop_left]
  unfold SameLetters putAt
  rw [toUpper_append, toUpper_append, hother, hbehind, hrest, ← toUpper_append,
    List.take_append_drop]

/-- The characters of the word stand at its place, and elsewhere those of the text. -/
theorem getElem?_putAt (h : i + word.length ≤ s.length) (j : Nat) :
    (putAt s i word)[j]? = if i ≤ j ∧ j < i + word.length then word[j - i]? else s[j]? := by
  have hlen : (s.take i).length = i := List.length_take_of_le (by omega)
  unfold putAt
  by_cases hfront : j < i
  · rw [List.getElem?_append_left (by omega), List.getElem?_take_of_lt hfront, if_neg (by omega)]
  rw [List.getElem?_append_right (by omega), hlen]
  by_cases hin : j - i < word.length
  · rw [List.getElem?_append_left hin, if_pos (by omega)]
  · rw [List.getElem?_append_right (by omega), List.getElem?_drop, if_neg (by omega)]
    congr 1
    omega

/-- Two words in different places. -/
theorem putAt_comm {j : Nat} (hi : i + word.length ≤ s.length) (hj : j + other.length ≤ s.length)
    (hdisjoint : i + word.length ≤ j ∨ j + other.length ≤ i) :
    putAt (putAt s i word) j other = putAt (putAt s j other) i word := by
  have hlen : ∀ {word : Bytes} {i : Nat}, i + word.length ≤ s.length →
      (putAt s i word).length = s.length := by
    intro word i h
    rw [putAt, List.length_append, List.length_append, List.length_take_of_le (by omega),
      List.length_drop]
    omega
  apply List.ext_getElem?
  intro k
  rw [getElem?_putAt (by rw [hlen hi]; exact hj), getElem?_putAt hi,
    getElem?_putAt (by rw [hlen hj]; exact hi), getElem?_putAt hj]
  by_cases hk : i ≤ k ∧ k < i + word.length
  · rw [if_neg (by omega), if_pos hk, if_pos hk]
  · rw [if_neg hk, if_neg hk]

/-- Neither starts inside the first word, whatever the case. -/
def NoOverlap (word other : Bytes) : Prop :=
  ∀ d < word.length, ¬ (toUpper word).drop d <+: toUpper other ∧
    ¬ toUpper other <+: (toUpper word).drop d

instance (word other : Bytes) : Decidable (NoOverlap word other) :=
  inferInstanceAs (Decidable (∀ d < word.length, _))

theorem wordAt_disjoint {j : Nat} (hi : WordAt s word i) (hj : WordAt s other j)
    (hno : NoOverlap word other) (hno' : NoOverlap other word) :
    i + word.length ≤ j ∨ j + other.length ≤ i := by
  -- the later one would start inside the earlier
  have hinside : ∀ {word other : Bytes} {i j : Nat}, WordAt s word i → WordAt s other j →
      NoOverlap word other → i ≤ j → i + word.length ≤ j := by
    intro word other i j hi hj hno hij
    by_contra hlt
    have hrest : (toUpper word).drop (j - i) <+: (toUpper s).drop j := by
      have hdrop := hi.drop (j - i)
      rwa [List.drop_drop, Nat.add_sub_cancel' hij] at hdrop
    obtain ⟨hshort, hlong⟩ := hno (j - i) (by omega)
    rcases List.prefix_or_prefix_of_prefix hrest hj with h | h
    · exact hshort h
    · exact hlong h
  rcases Nat.le_total i j with hij | hji
  · exact Or.inl (hinside hi hj hno hij)
  · exact Or.inr (hinside hj hi hno' hji)

theorem putAt_putAt (hi : i ≤ s.length) (hother : other.length = word.length) :
    putAt (putAt s i other) i word = putAt s i word := by
  have hlen : (s.take i).length = i := List.length_take_of_le hi
  unfold putAt
  congr 1
  · rw [List.take_append_of_le_length (Nat.le_of_eq hlen.symm), List.take_of_length_le
      (Nat.le_of_eq hlen)]
  · congr 1
    have hboth : (s.take i ++ other).length = i + word.length := by
      rw [List.length_append, hlen, hother]
    rw [← List.append_assoc, ← hboth, List.drop_left, hboth, hother]

/-- It is looked for no further than where it is in some case, and no earlier is it. -/
theorem le_of_findFrom {s' : Bytes} {j : Nat} (hs : SameLetters s s')
    (h : findKeyword s word pos = some i) (hj : findFrom s' word pos = some j) : i ≤ j := by
  rw [← hs.findKeyword] at h
  obtain ⟨m, hm, rfl⟩ := Option.map_eq_some_iff.mp h
  obtain ⟨n, hn, rfl⟩ := Option.map_eq_some_iff.mp hj
  have hat := (find_eq_some hn).1.map upperChar
  have hle : m ≤ n := find_le hm (by
    rw [drop_toUpper, drop_toUpper]
    exact hat)
  omega

theorem drop_putAt (hi : i ≤ s.length) (hpos : pos ≤ i) :
    (putAt s i word).drop pos = (s.drop pos).take (i - pos) ++ (word ++ s.drop (i + word.length)) := by
  have hlen : (s.take i).length = i := List.length_take_of_le hi
  unfold putAt
  rw [List.drop_append_of_le_length (by omega), List.drop_take]

/-- Where it is spelled as it is looked for, it is found. -/
theorem findFrom_putAt (h : findKeyword s word pos = some i) (hne : word ≠ []) :
    findFrom (putAt s i word) word pos = some i := by
  have hs := putAt_sameLetters h rfl
  obtain ⟨hpos, hlen⟩ := findKeyword_eq_some hne h
  have hat : word <+: (putAt s i word).drop i := by
    rw [drop_putAt (by omega) (Nat.le_refl i), Nat.sub_self, List.take_zero, List.nil_append]
    exact List.prefix_append _ _
  obtain ⟨j, hj⟩ := exists_findFrom hpos hat
  have hle := le_of_findFrom hs h hj
  obtain ⟨n, hn, rfl⟩ := Option.map_eq_some_iff.mp hj
  have hge : n ≤ i - pos := find_le hn (by
    rw [List.drop_drop, Nat.add_sub_cancel' hpos]
    exact hat)
  rw [hj]
  congr 1
  omega

end PutAt

/-! ## `ALTER` -/

/-- Where the name of the tag starts in an `ALTER TAG`, behind the dot. -/
def alterTagStart (sql : Bytes) : Option Nat := do
  let restStart := skipUntil (fun c => !isBlank c) sql
    (skipWhitespace sql (afterKeyword sql (ascii "ALTER TAG")))
  let dotPos ← findChar sql dot restStart
  return skipUntil (fun c => !isBlank c) sql (dotPos + 1)

def alterAlarmStart (sql : Bytes) : Nat := skipWhitespace sql (afterKeyword sql (ascii "ALTER ALARM"))

def alterUserStart (sql : Bytes) : Nat := skipWhitespace sql (afterKeyword sql (ascii "ALTER USER"))

/-- The name from the one place to the other. -/
def nameBefore (sql : Bytes) (start setPos : Nat) : Bytes :=
  trim ((sql.drop start).take (setPos - start))

theorem eq_of_substrTo {s x : Bytes} {pos stop : Nat} (hle : pos ≤ stop)
    (h : substrTo s pos stop = .ok x) : x = (s.drop pos).take (stop - pos) := by
  by_cases hpos : pos ≤ s.length
  · rw [substrTo_ok hpos, if_pos hle] at h
    cases h
    rfl
  · rw [substrTo, if_neg hpos] at h
    cases h

theorem eq_of_substr {s x : Bytes} {pos : Nat} (h : substr s pos = .ok x) : x = s.drop pos := by
  unfold substr at h
  split at h
  · cases h
    rfl
  · cases h

theorem letters_set : toUpper (ascii " set ") = toUpper (ascii " SET ") := by decide

section Alter

variable {s : Bytes} {r : ParseResult} {stmt : SQLStmt}

/-- A search in the text from a place on, told in places of the whole text. -/
theorem findFrom_of_drop {pat : Bytes} {start i : Nat}
    (h : findFrom (s.drop start) pat 0 = some i) : findFrom s pat start = some (i + start) := by
  rw [findFrom, List.drop_zero] at h
  obtain ⟨j, hj, rfl⟩ := Option.map_eq_some_iff.mp h
  rw [findFrom, hj]
  rfl

theorem parseAlterUser_name (h : parseAlterUser s = .ok r) (hstmt : r.stmt = some stmt) :
    ∃ setPos alter, findFrom s (ascii " SET ") (alterUserStart s) = some setPos ∧
      stmt = .alterUser alter ∧ alter.name = nameBefore s (alterUserStart s) setPos := by
  have hstart : skipWhitespace s (afterKeyword s (ascii "ALTER USER")) = alterUserStart s := rfl
  unfold parseAlterUser at h
  simp only [hstart] at h
  cases hset : findFrom s (ascii " SET ") (alterUserStart s) with
  | none =>
    rw [hset] at h
    cases h
    cases hstmt
  | some nameEnd =>
    rw [hset] at h
    obtain ⟨name, hname, h⟩ := bind_eq_ok h
    have hname' := eq_of_substrTo (findFrom_eq_some (by decide) hset).1 hname
    refine ⟨nameEnd, ?_⟩
    split at h
    · obtain ⟨property, -, h⟩ := bind_eq_ok h
      split at h
      · obtain ⟨value, -, h⟩ := bind_eq_ok h
        obtain ⟨word, -, h⟩ := bind_eq_ok h
        cases h
        cases hstmt
        exact ⟨_, rfl, rfl, congrArg trim hname'⟩
      · cases h
        cases hstmt
        exact ⟨_, rfl, rfl, congrArg trim hname'⟩
    · obtain ⟨property, -, h⟩ := bind_eq_ok h
      cases h
      cases hstmt
      exact ⟨_, rfl, rfl, congrArg trim hname'⟩

theorem parseAlterAlarm_name (h : parseAlterAlarm s = .ok r) (hstmt : r.stmt = some stmt) :
    ∃ setPos alter, findFrom s (ascii " SET ") (alterAlarmStart s) = some setPos ∧
      stmt = .alterAlarm alter ∧ alter.name = nameBefore s (alterAlarmStart s) setPos := by
  have hstart : skipWhitespace s (afterKeyword s (ascii "ALTER ALARM")) = alterAlarmStart s := rfl
  unfold parseAlterAlarm at h
  simp only [hstart] at h
  cases hset : findFrom s (ascii " SET ") (alterAlarmStart s) with
  | none =>
    rw [hset] at h
    cases h
    cases hstmt
  | some setPos =>
    rw [hset] at h
    obtain ⟨name, hname, h⟩ := bind_eq_ok h
    have hname' := eq_of_substrTo (findFrom_eq_some (by decide) hset).1 hname
    refine ⟨setPos, ?_⟩
    split at h
    · split at h
      · cases h
        cases hstmt
        exact ⟨_, rfl, rfl, congrArg trim hname'⟩
      · split at h
        · obtain ⟨property, -, h⟩ := bind_eq_ok h
          cases h
          cases hstmt
          exact ⟨_, rfl, rfl, congrArg trim hname'⟩
        · cases h
          cases hstmt
    · obtain ⟨property, -, h⟩ := bind_eq_ok h
      obtain ⟨value, -, h⟩ := bind_eq_ok h
      cases h
      cases hstmt
      exact ⟨_, rfl, rfl, congrArg trim hname'⟩

/-- In a text without blanks at its ends the name starts where `alterTagStart` says. -/
theorem parseAlterTag_name (hs : Tight s) (h : parseAlterTag s = .ok r)
    (hstmt : r.stmt = some stmt) : ∃ start setPos alter, alterTagStart s = some start ∧
      findFrom s (ascii " SET ") start = some setPos ∧ stmt = .alterTag alter ∧
        alter.tagName = nameBefore s start setPos := by
  rw [parseAlterTag, nameBehind] at h
  obtain ⟨rest, hrest, h⟩ := bind_eq_ok h
  obtain ⟨behind, hbehind, hrest⟩ := bind_eq_ok hrest
  cases hrest
  rw [eq_of_substr hbehind, trim_drop hs] at h
  unfold alterTagStart
  generalize skipUntil (fun c => !isBlank c) s
    (skipWhitespace s (afterKeyword s (ascii "ALTER TAG"))) = restStart at h ⊢
  cases hdot : findChar (s.drop restStart) dot 0 with
  | none =>
    rw [hdot] at h
    cases h
    cases hstmt
  | some dotPos =>
    rw [hdot] at h
    have hdot' : findChar s dot restStart = some (dotPos + restStart) := findFrom_of_drop hdot
    obtain ⟨table, -, h⟩ := bind_eq_ok h
    obtain ⟨after, hafter, h⟩ := bind_eq_ok h
    -- what is behind the dot is trimmed once more
    rw [eq_of_substr hafter, List.drop_drop, trim_drop hs] at h
    have hplace : restStart + (dotPos + 1) = dotPos + restStart + 1 := by omega
    rw [hplace] at h
    simp only [hdot', Option.bind_eq_bind, Option.bind_some]
    generalize skipUntil (fun c => !isBlank c) s (dotPos + restStart + 1) = start at h ⊢
    dsimp only at h
    cases hset : findFrom (s.drop start) (ascii " SET ") 0 with
    | none =>
      rw [hset] at h
      cases h
      cases hstmt
    | some setPos =>
      rw [hset] at h
      obtain ⟨name, hname, h⟩ := bind_eq_ok h
      obtain ⟨part, -, h⟩ := bind_eq_ok h
      have hname' := eq_of_substrTo (Nat.zero_le setPos) hname
      refine ⟨start, setPos + start, ?_⟩
      have hset' : findFrom s (ascii " SET ") start = some (setPos + start) :=
        findFrom_of_drop hset
      split at h
      · obtain ⟨property, -, h⟩ := bind_eq_ok h
        obtain ⟨valPart, -, h⟩ := bind_eq_ok h
        obtain ⟨value, -, h⟩ := bind_eq_ok h
        cases h
        cases hstmt
        refine ⟨_, rfl, hset', rfl, ?_⟩
        rw [nameBefore, Nat.add_sub_cancel]
        exact congrArg trim hname'
      · cases h
        cases hstmt

theorem dispatch_alterTag {conv : Conversions} {fuel : Nat}
    (h : startsWith s (ascii "ALTER TAG") = true) : dispatch conv fuel s = parseAlterTag s := by
  simp (disch := decide) only [dispatch, startsWith_eq_false h, h, Bool.false_eq_true, if_false,
    if_true]

theorem dispatch_alterAlarm {conv : Conversions} {fuel : Nat}
    (h : startsWith s (ascii "ALTER ALARM") = true) : dispatch conv fuel s = parseAlterAlarm s := by
  simp (disch := decide) only [dispatch, startsWith_eq_false h, h, Bool.false_eq_true, if_false,
    if_true]

theorem dispatch_alterUser {conv : Conversions} {fuel : Nat}
    (h : startsWith s (ascii "ALTER USER") = true) : dispatch conv fuel s = parseAlterUser s := by
  simp (disch := decide) only [dispatch, startsWith_eq_false h, h, Bool.false_eq_true, if_false,
    if_true]

/-- **With the ` SET ` in lower case the name goes on behind it.** -/
theorem nameBefore_ne {start i setPos : Nat} (h : findKeyword s (ascii " SET ") start = some i)
    (hset : findFrom (putAt s i (ascii " set ")) (ascii " SET ") start = some setPos) :
    nameBefore (putAt s i (ascii " set ")) start setPos
      ≠ nameBefore (putAt s i (ascii " SET ")) start i := by
  have hsame : SameLetters s (putAt s i (ascii " set ")) := putAt_sameLetters h letters_set
  have hle : i ≤ setPos := le_of_findFrom hsame h hset
  obtain ⟨hstart, hlen⟩ := findKeyword_eq_some (by decide) h
  have hlen' : i ≤ s.length := by omega
  obtain ⟨n, hn, rfl⟩ := Option.map_eq_some_iff.mp hset
  have hat := (find_eq_some hn).1
  rw [List.drop_drop] at hat
  have htext : (putAt s i (ascii " set ")).drop start = (s.drop start).take (i - start)
      ++ (ascii " set " ++ s.drop (i + (ascii " set ").length)) := drop_putAt hlen' hstart
  generalize s.drop (i + (ascii " set ").length) = rest at htext
  have hfront : ((s.drop start).take (i - start)).length = i - start := by
    rw [List.length_take, List.length_drop]
    omega
  -- neither the space nor the letter behind it is where the search ends
  have hfar : i - start + 2 ≤ n := by
    by_contra hnear
    have hcases : n = i - start ∨ n = i - start + 1 := by omega
    have hdrop : ((putAt s i (ascii " set ")).drop start).drop n
        = (ascii " set " ++ rest).drop (n - (i - start)) := by
      rw [htext, List.drop_append, hfront, List.drop_eq_nil_of_le (by omega), List.nil_append]
    rw [List.drop_drop] at hdrop
    rw [hdrop] at hat
    rcases hcases with rfl | rfl
    · rw [Nat.sub_self, List.drop_zero] at hat
      simp [ascii, List.cons_prefix_cons] at hat
    · rw [Nat.add_sub_cancel_left] at hat
      simp [ascii, List.cons_prefix_cons] at hat
  intro hname
  have hcount := congrArg (List.countP (! isBlank ·)) hname
  unfold nameBefore at hcount
  rw [countP_trim, countP_trim, htext, Nat.add_sub_cancel, drop_putAt hlen' hstart,
    List.take_left' hfront, List.take_append, hfront, List.take_of_length_le (by omega),
    List.countP_append] at hcount
  obtain ⟨m, hm⟩ : ∃ m, n - (i - start) = m + 2 := ⟨n - (i - start) - 2, by omega⟩
  have hset : ascii " set " = [32, 115, 101, 116, 32] := rfl
  have hletter : (!isBlank 115) = true := rfl
  rw [hm, hset, List.cons_append, List.cons_append, List.take_succ_cons, List.take_succ_cons,
    List.countP_cons, List.countP_cons, hletter, if_pos rfl] at hcount
  omega

end Alter

/-! ## DELETE and UPDATE -/

theorem tagFilterFrom_congr {s s' : Bytes} {pos pos' : Nat}
    (h : findFrom s' (ascii "tag=") pos' = findFrom s (ascii "tag=") pos)
    (hliteral : ∀ i, pos ≤ i → tagLiteral s' (i + 4) = tagLiteral s (i + 4)) :
    tagFilterFrom s' pos' = tagFilterFrom s pos := by
  cases hfind : findFrom s (ascii "tag=") pos with
  | none =>
    rw [hfind] at h
    rw [tagFilterFrom, tagFilterFrom, h, hfind]
  | some i =>
    rw [hfind] at h
    rw [tagFilterFrom_eq h, tagFilterFrom_eq hfind,
      hliteral i (findFrom_eq_some (by decide) hfind).1]

/-- The table of a `DELETE`, in front of its `WHERE`. -/
def deleteTable (sql : Bytes) : Option Bytes := do
  let fromPos ← findFrom (toUpper sql) (ascii "FROM")
    (skipWhitespace sql (afterKeyword sql (ascii "DELETE")))
  let wherePos ← findFrom (toUpper sql) (ascii "WHERE") (skipWhitespace sql (fromPos + 4))
  return nameBefore sql (skipWhitespace sql (fromPos + 4)) wherePos

/-- The table of an `UPDATE`, in front of its `SET`. -/
def updateTable (sql : Bytes) : Option Bytes := do
  let setPos ← findFrom (toUpper sql) (ascii "SET")
    (skipWhitespace sql (afterKeyword sql (ascii "UPDATE")))
  return nameBefore sql (skipWhitespace sql (afterKeyword sql (ascii "UPDATE"))) setPos

/-- The value of an `UPDATE`, in front of its `WHERE`. -/
def updateNewValue (conv : Conversions) (sql : Bytes) : Option UInt64 := do
  let setPos ← findFrom (toUpper sql) (ascii "SET")
    (skipWhitespace sql (afterKeyword sql (ascii "UPDATE")))
  let wherePos ← findFrom (toUpper sql) (ascii "WHERE") (skipWhitespace sql (setPos + 3))
  (updateValue conv sql (skipWhitespace sql (setPos + 3)) wherePos).toOption

section Front

variable {s s' : Bytes} {n start : Nat}

theorem nameBefore_congr {pos stop : Nat} (h : s'.take n = s.take n) (hstop : stop ≤ n) :
    nameBefore s' pos stop = nameBefore s pos stop := by
  have hfront : ∀ s : Bytes, (s.drop pos).take (stop - pos)
      = ((s.take n).drop pos).take (stop - pos) := by
    intro s
    rw [List.drop_take, List.take_take, Nat.min_eq_left (by omega)]
  rw [nameBefore, nameBefore, hfront s', h, ← hfront]

theorem substrTo_congr {pos stop : Nat} (hs : SameLetters s s') (h : s'.take n = s.take n)
    (hle : pos ≤ stop) (hstop : stop ≤ n) : substrTo s' pos stop = substrTo s pos stop := by
  have hfront : ∀ s : Bytes, (s.drop pos).take (stop - pos)
      = ((s.take n).drop pos).take (stop - pos) := by
    intro s
    rw [List.drop_take, List.take_take, Nat.min_eq_left (by omega)]
  unfold substrTo
  rw [hs.length, if_pos hle, if_pos hle, hfront s', h, ← hfront]

/-- The name is that of the text in front of the `WHERE`. -/
theorem deleteTable_congr (hs : SameLetters s s') (hstart : deleteWhere s = some start)
    (h : s'.take start = s.take start) : deleteTable s' = deleteTable s := by
  unfold deleteWhere at hstart
  unfold deleteTable
  simp only [hs.afterKeyword, hs.skipWhitespace, hs.findFrom]
  cases hfrom : findFrom (toUpper s) (ascii "FROM")
      (skipWhitespace s (afterKeyword s (ascii "DELETE"))) with
  | none => rfl
  | some fromPos =>
    simp only [hfrom, Option.bind_eq_bind, Option.bind_some] at hstart ⊢
    cases hwhere : findFrom (toUpper s) (ascii "WHERE") (skipWhitespace s (fromPos + 4)) with
    | none => rfl
    | some wherePos =>
      rw [hwhere] at hstart
      cases hstart
      simp only [Option.bind_some]
      rw [nameBefore_congr h (by omega)]

theorem updateValue_congr {conv : Conversions} {pos wherePos : Nat} (hs : SameLetters s s')
    (h : s'.take n = s.take n) (hn : wherePos ≤ n) :
    updateValue conv s' pos wherePos = updateValue conv s pos wherePos := by
  unfold updateValue
  rw [hs.findChar (by decide)]
  cases findChar s equals pos with
  | none => rfl
  | some eq =>
    dsimp only
    by_cases hlt : eq < wherePos
    · rw [if_pos hlt, if_pos hlt, substrTo_congr hs h hlt hn]
    · rw [if_neg hlt, if_neg hlt]

theorem updateTable_congr (conv : Conversions) (hs : SameLetters s s')
    (hstart : updateWhere s = some start) (h : s'.take start = s.take start) :
    updateTable s' = updateTable s ∧ updateNewValue conv s' = updateNewValue conv s := by
  unfold updateWhere at hstart
  unfold updateTable updateNewValue
  simp only [hs.afterKeyword, hs.skipWhitespace, hs.findFrom]
  cases hset : findFrom (toUpper s) (ascii "SET")
      (skipWhitespace s (afterKeyword s (ascii "UPDATE"))) with
  | none => simp only [Option.bind_eq_bind, Option.bind_none, and_self]
  | some setPos =>
    simp only [hset, Option.bind_eq_bind, Option.bind_some] at hstart ⊢
    cases hwhere : findFrom (toUpper s) (ascii "WHERE") (skipWhitespace s (setPos + 3)) with
    | none =>
      rw [hwhere] at hstart
      cases hstart
    | some wherePos =>
      have hle := (findFrom_eq_some (by decide) hwhere).1
      have hskip := le_skipWhitespace s (setPos + 3)
      rw [hwhere] at hstart
      cases hstart
      simp only [Option.bind_some]
      rw [nameBefore_congr h (by omega), updateValue_congr hs h (by omega)]
      exact ⟨rfl, rfl⟩

end Front

theorem letters_tag : toUpper (ascii "TAG=") = toUpper (ascii "tag=") := by decide

section Tag

variable {s word other : Bytes} {pos i : Nat}

/-- The literal depends on what is behind its place alone. -/
theorem tagLiteral_congr {s' : Bytes} (hlen : s'.length = s.length)
    (h : s'.drop pos = s.drop pos) : tagLiteral s' pos = tagLiteral s pos := by
  have hskip : skipWhitespace s' pos = skipWhitespace s pos := by
    rw [skipWhitespace, skipWhitespace, skipUntil, skipUntil, h]
  have hle := le_skipWhitespace s pos
  rw [tagLiteral, tagLiteral, hskip]
  generalize skipWhitespace s pos = tagEq at hle
  have hdrop : s'.drop tagEq = s.drop tagEq := by
    rw [← Nat.add_sub_cancel' hle, ← List.drop_drop, h, List.drop_drop]
  have hget : s'.getD tagEq 0 = s.getD tagEq 0 := by
    rw [List.getD_eq_getElem?_getD, List.getD_eq_getElem?_getD, ← List.head?_drop, hdrop,
      List.head?_drop]
  rw [charAt, charAt, hlen, hget, extractQuoted, extractQuoted, hdrop]

theorem drop_putAt_behind {j : Nat} (hi : i ≤ s.length) (hj : i + word.length ≤ j) :
    (putAt s i word).drop j = s.drop j := by
  have hboth : (s.take i ++ word).length = i + word.length := by
    rw [List.length_append, List.length_take_of_le hi]
  unfold putAt
  rw [← List.append_assoc, ← Nat.add_sub_cancel' hj, ← List.drop_drop, ← hboth, List.drop_left,
    List.drop_drop]

/-- With the `tag=` in lower case the tag is the literal behind it. -/
theorem tagFilterFrom_putAt (h : findKeyword s (ascii "tag=") pos = some i) :
    tagFilterFrom (putAt s i (ascii "tag=")) pos = tagLiteral s (i + 4) := by
  have hle := (findKeyword_eq_some (by decide) h).2
  have hlen : (putAt s i (ascii "tag=")).length = s.length :=
    (putAt_sameLetters h rfl).length
  rw [tagFilterFrom_eq (findFrom_putAt h (by decide))]
  exact tagLiteral_congr hlen (drop_putAt_behind (by omega) (Nat.le_refl _))

/-- **With the `tag=` in upper case it is passed over.** -/
theorem tagFilterFrom_putAt_upper (h : findKeyword s (ascii "tag=") pos = some i) :
    tagFilterFrom (putAt s i (ascii "TAG=")) pos = tagFilterFrom s (i + 4) := by
  obtain ⟨hpos, hle⟩ := findKeyword_eq_some (by decide) h
  have hle' : i ≤ s.length := by omega
  have hs : SameLetters s (putAt s i (ascii "TAG=")) := putAt_sameLetters h letters_tag
  have hword : (ascii "TAG=").length = 4 := rfl
  apply tagFilterFrom_congr
  · have htext : (putAt s i (ascii "TAG=")).drop pos
        = ((s.drop pos).take (i - pos) ++ ascii "TAG=") ++ s.drop (i + 4) := by
      rw [List.append_assoc]
      exact drop_putAt hle' hpos
    have hfront : ((s.drop pos).take (i - pos)).length = i - pos := by
      rw [List.length_take, List.length_drop]
      omega
    have hlen : ((s.drop pos).take (i - pos) ++ ascii "TAG=").length = i - pos + 4 := by
      rw [List.length_append, hfront, hword]
    -- no `tag=` starts in front of what is behind the word
    have hskip : ∀ k < ((s.drop pos).take (i - pos) ++ ascii "TAG=").length, ¬ ascii "tag=" <+:
        ((s.drop pos).take (i - pos) ++ ascii "TAG=").drop k ++ s.drop (i + 4) := by
      intro k hk hat
      rw [hlen] at hk
      by_cases hnear : k < i - pos
      · rw [← List.drop_append_of_le_length (by rw [hlen]; omega), ← htext, List.drop_drop] at hat
        obtain ⟨j, hj⟩ := exists_findFrom (Nat.le_add_right pos k) hat
        have hge := le_of_findFrom hs h hj
        obtain ⟨n, hn, rfl⟩ := Option.map_eq_some_iff.mp hj
        rw [← List.drop_drop] at hat
        have hle := find_le hn hat
        omega
      · obtain ⟨m, rfl⟩ : ∃ m, k = i - pos + m := ⟨k - (i - pos), by omega⟩
        have hdrop : ((s.drop pos).take (i - pos) ++ ascii "TAG=").drop (i - pos + m)
            = (ascii "TAG=").drop m := by
          rw [← List.drop_drop, List.drop_left' hfront]
        rw [hdrop] at hat
        have hm : m = 0 ∨ m = 1 ∨ m = 2 ∨ m = 3 := by omega
        rcases hm with rfl | rfl | rfl | rfl
        all_goals simp [ascii, List.cons_prefix_cons] at hat
    rw [findFrom, findFrom, htext, find_append _ hskip, Option.map_map, hlen]
    congr 1
    funext n
    show n + (i - pos + 4) + pos = n + (i + 4)
    omega
  · intro j hj
    apply tagLiteral_congr hs.length
    exact drop_putAt_behind hle' (by omega)

variable {conv : Conversions} {r : ParseResult} {stmt : SQLStmt}

theorem parseDelete_parts (h : parseDelete conv s = .ok r) (hstmt : r.stmt = some stmt) :
    ∃ start del, deleteWhere s = some start ∧ stmt = .delete del ∧
      deleteTable s = some del.tableName ∧ tagFilterFrom s start = .ok del.tagFilter := by
  rw [parseDelete] at h
  unfold deleteWhere deleteTable
  dsimp only at h
  cases hfrom : findFrom (toUpper s) (ascii "FROM")
      (skipWhitespace s (afterKeyword s (ascii "DELETE"))) with
  | none =>
    rw [hfrom] at h
    cases h
    cases hstmt
  | some fromPos =>
    rw [hfrom] at h
    dsimp only at h
    cases hwhere : findFrom (toUpper s) (ascii "WHERE") (skipWhitespace s (fromPos + 4)) with
    | none =>
      rw [hwhere] at h
      cases h
      cases hstmt
    | some wherePos =>
      rw [hwhere] at h
      obtain ⟨table, htable, h⟩ := bind_eq_ok h
      obtain ⟨tag, htag, h⟩ := bind_eq_ok h
      obtain ⟨range, -, h⟩ := bind_eq_ok h
      cases h
      cases hstmt
      have htable' := eq_of_substrTo (findFrom_eq_some (by decide) hwhere).1 htable
      simp only [Option.bind_eq_bind, Option.bind_some, hwhere]
      exact ⟨_, _, rfl, rfl, by rw [htable']; rfl, htag⟩

theorem parseUpdate_parts (h : parseUpdate conv s = .ok r) (hstmt : r.stmt = some stmt) :
    ∃ start upd, updateWhere s = some start ∧ stmt = .update upd ∧
      updateTable s = some upd.tableName ∧ updateNewValue conv s = some upd.newValue ∧
        tagFilterFrom s start = .ok upd.tagFilter ∧ updateTime conv s start = .ok upd.exactTime := by
  rw [parseUpdate] at h
  unfold updateWhere updateTable updateNewValue
  dsimp only at h
  cases hset : findFrom (toUpper s) (ascii "SET")
      (skipWhitespace s (afterKeyword s (ascii "UPDATE"))) with
  | none =>
    rw [hset] at h
    cases h
    cases hstmt
  | some setPos =>
    rw [hset] at h
    obtain ⟨table, htable, h⟩ := bind_eq_ok h
    cases hwhere : findFrom (toUpper s) (ascii "WHERE") (skipWhitespace s (setPos + 3)) with
    | none =>
      rw [hwhere] at h
      cases h
      cases hstmt
    | some wherePos =>
      rw [hwhere] at h
      obtain ⟨value, hvalue, h⟩ := bind_eq_ok h
      obtain ⟨tag, htag, h⟩ := bind_eq_ok h
      obtain ⟨time, htime, h⟩ := bind_eq_ok h
      cases h
      cases hstmt
      have htable' := eq_of_substrTo (findFrom_eq_some (by decide) hset).1 htable
      simp only [Option.bind_eq_bind, Option.bind_some, hwhere]
      exact ⟨_, _, rfl, rfl, by rw [htable']; rfl, by rw [hvalue]; rfl, htag, htime⟩

/-- With no word for it the time is zero. -/
theorem updateTime_eq_zero (h : findKeyword s (ascii "timestamp=") pos = none)
    (h' : findKeyword s (ascii "timestamp =") pos = none) : updateTime conv s pos = .ok 0 := by
  rw [updateTime, findFrom_eq_none h, findFrom_eq_none h']
  rfl

end Tag

end Sql
end MiniTSDB
