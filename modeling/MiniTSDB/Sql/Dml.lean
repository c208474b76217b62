import MiniTSDB.Sql.ClauseEnds
import MiniTSDB.Sql.Executor

/-!
# The texts of a `DELETE` and an `UPDATE`

What the parser makes of one statement of each kind, for any name of a table. The name ends where
the next keyword is found, and that may be within it; the tag is what is quoted behind the first
`tag=`, and a space in front of the `=` hides it.
-/

namespace MiniTSDB
namespace Sql

open Lib

/-- What of a name is in front of the keyword, if the name mentions it. -/
def beforeKeyword (kw t : Bytes) : Bytes :=
  match find kw (toUpper t) with
  | some i => t.take i
  | none => t

/-! ## The name of the table -/

/-- **A name ends where the keyword behind it is found first.** -/
theorem find_keyword_behind {t kw after : Bytes} (ht : IsTableName t) (hsep : space ∉ kw)
    (hne : kw ≠ []) (hafter : kw <+: toUpper after) :
    ∃ i, find kw (toUpper (t ++ space :: after)) = some i ∧ i ≤ t.length + 1 ∧
      trim ((t ++ space :: after).take i) = beforeKeyword kw t := by
  unfold beforeKeyword
  cases hfind : find kw (toUpper t) with
  | some i =>
    have hlen := (find_eq_some hfind).2
    rw [length_toUpper] at hlen
    have hi : i ≤ t.length := Nat.le_of_add_right_le hlen
    refine ⟨i, ?_, Nat.le_succ_of_le hi, ?_⟩
    · rw [toUpper_append]
      exact find_append_of_find _ hfind
    · rw [List.take_append_of_le_length hi]
      apply trim_eq
      constructor
      · cases hhead : (t.take i).head? with
        | none => rfl
        | some c =>
          have hc := ht.chars c (List.mem_of_mem_take (List.mem_of_head? hhead))
          rw [Option.all_some, not_isBlank_of_isNameChar hc]
          rfl
      · cases hlast : (t.take i).getLast? with
        | none => rfl
        | some c =>
          have hc := ht.chars c (List.mem_of_mem_take (List.mem_of_getLast? hlast))
          rw [Option.all_some, not_isBlank_of_isNameChar hc]
          rfl
  | none =>
    refine ⟨t.length + 1, find_behind_name hsep hne (find_eq_none_iff.mp hfind) hafter,
      Nat.le_refl _, ?_⟩
    have htake : (t ++ space :: after).take (t.length + 1) = [] ++ t ++ [space] := by
      rw [List.nil_append, List.take_append, List.take_of_length_le (Nat.le_succ _),
        Nat.add_sub_cancel_left]
      rfl
    rw [htake]
    exact trim_append [] [space] (by simp) (fun c hc => isBlank_of_mem_space hc) ht.tight

/-- The characters of what is in front of the keyword are the name's. -/
theorem beforeKeyword_chars {kw t : Bytes} (ht : ∀ c ∈ t, isNameChar c = true) :
    ∀ c ∈ beforeKeyword kw t, isNameChar c = true := by
  intro c hc
  unfold beforeKeyword at hc
  split at hc
  · exact ht c (List.mem_of_mem_take hc)
  · exact ht c hc

theorem beforeKeyword_eq {kw t : Bytes} (h : ¬ Mentions t kw) : beforeKeyword kw t = t := by
  unfold beforeKeyword
  rw [find_eq_none_iff.mpr h]

/-- A name that mentions the keyword loses it. -/
theorem length_beforeKeyword_lt {kw t : Bytes} (hne : kw ≠ []) (h : Mentions t kw) :
    (beforeKeyword kw t).length < t.length := by
  unfold beforeKeyword
  obtain ⟨i, hi⟩ := exists_find h
  have hlen := (find_eq_some hi).2
  have hpos := List.length_pos_iff.mpr hne
  rw [length_toUpper] at hlen
  rw [hi]
  dsimp only
  rw [List.length_take]
  omega

/-! ## The tag -/

/-- Spaces, and the tag in quotes. -/
def quotedTag (gap : Nat) (x after : Bytes) : Bytes :=
  List.replicate gap space ++ quote :: (x ++ quote :: after)

/-- The tag that is quoted behind a `tag=`. -/
theorem tagFilterFrom_at {front x after : Bytes} {pos gap : Nat}
    (hfound : findFrom (front ++ (ascii "tag=" ++ quotedTag gap x after)) (ascii "tag=") pos
      = some front.length) (hx : quote ∉ x) (hafter : after.head? ≠ some quote) :
    tagFilterFrom (front ++ (ascii "tag=" ++ quotedTag gap x after)) pos = .ok x := by
  have hbehind : front ++ (ascii "tag=" ++ quotedTag gap x after)
      = (front ++ ascii "tag=") ++ quotedTag gap x after := by
    rw [List.append_assoc]
  have htag : (front ++ ascii "tag=").length = front.length + 4 := List.length_append
  have hskip : skipWhitespace (front ++ (ascii "tag=" ++ quotedTag gap x after))
      (front.length + 4) = front.length + 4 + gap := by
    have hspaces : (quotedTag gap x after).takeWhile
        (fun c => !!(isBlank c || c = comma)) = List.replicate gap space := by
      unfold quotedTag
      rw [List.takeWhile_append_of_pos]
      · rw [List.takeWhile_cons, if_neg (by decide), List.append_nil]
      · intro c hc
        rw [List.eq_of_mem_replicate hc]
        rfl
    rw [hbehind, skipWhitespace, skipUntil_append htag, hspaces, List.length_replicate]
  have hquote : front ++ (ascii "tag=" ++ quotedTag gap x after)
      = (front ++ ascii "tag=" ++ List.replicate gap space) ++ quote :: (x ++ quote :: after) := by
    rw [hbehind, quotedTag, ← List.append_assoc]
  have hspaces : (front ++ ascii "tag=" ++ List.replicate gap space).length
      = front.length + 4 + gap := by
    rw [List.length_append, htag, List.length_replicate]
  have hchar : charAt (front ++ (ascii "tag=" ++ quotedTag gap x after))
      (front.length + 4 + gap) = .ok quote := by
    rw [hquote, ← hspaces, charAt_ok (by simp), List.getD_eq_getElem?_getD,
      List.getElem?_append_right (Nat.le_refl _), Nat.sub_self]
    rfl
  have hextract : (extractQuoted (front ++ (ascii "tag=" ++ quotedTag gap x after))
      (front.length + 4 + gap)).1 = x := by
    have hdouble := extractQuoted_doubleQuotes x hafter
    rw [doubleQuotes_eq hx] at hdouble
    rw [hquote, extractQuoted_append hspaces, hdouble]
  unfold tagFilterFrom
  rw [hfound]
  dsimp only
  rw [hskip, hchar]
  exact congrArg Except.ok hextract

/-- **The tag behind the first `tag=` is found**, from wherever the search starts in front of it. -/
theorem tagFilterFrom_found {head before x after : Bytes} {pos gap : Nat}
    (hfrom : head.length ≤ pos) (hto : pos ≤ head.length + before.length)
    (hfirst : ¬ ascii "tag=" <:+: before ++ ascii "tag") (hx : quote ∉ x)
    (hafter : after.head? ≠ some quote) :
    tagFilterFrom (head ++ before ++ (ascii "tag=" ++ quotedTag gap x after)) pos = .ok x := by
  apply tagFilterFrom_at _ hx hafter
  have hcut : head ++ before ++ (ascii "tag=" ++ quotedTag gap x after)
      = (head ++ before.take (pos - head.length)) ++ (before.drop (pos - head.length)
        ++ (ascii "tag=" ++ quotedTag gap x after)) := by
    conv_lhs => rw [← List.take_append_drop (pos - head.length) before]
    simp only [List.append_assoc]
  have hlen : (head ++ before.take (pos - head.length)).length = pos := by
    rw [List.length_append, List.length_take]
    omega
  have hsuffix : before.drop (pos - head.length) ++ ascii "tag" <:+ before ++ ascii "tag" :=
    ⟨before.take (pos - head.length), by rw [← List.append_assoc, List.take_append_drop]⟩
  have hplace : find (ascii "tag=") (before.drop (pos - head.length)
      ++ (ascii "tag=" ++ quotedTag gap x after))
        = some (before.drop (pos - head.length)).length :=
    find_at_place _ (by decide) fun h => hfirst (h.trans hsuffix.isInfix)
  rw [hcut, findFrom_append hlen, hplace, Option.map_some, List.length_drop, List.length_append]
  congr 1
  omega

theorem tagFilterFrom_missing {sql : Bytes} {pos : Nat} (h : ¬ ascii "tag=" <:+: sql.drop pos) :
    tagFilterFrom sql pos = .ok [] := by
  unfold tagFilterFrom findFrom
  rw [find_eq_none_iff.mpr h]
  rfl

/-! ## `DELETE` -/

/-- What is behind the tag in a `DELETE`. -/
def betweenText (s e : Bytes) : Bytes :=
  ascii " AND timestamp BETWEEN '" ++ s ++ ascii "' AND '" ++ e ++ [quote]

/-- The condition of a `DELETE`, with any number of spaces before and behind the `=`. -/
def whereText (x s e : Bytes) (gap gap' : Nat) : Bytes :=
  ascii "WHERE tag" ++ List.replicate gap space ++ equals :: quotedTag gap' x (betweenText s e)

/-- `DELETE FROM t WHERE tag = 'x' AND timestamp BETWEEN 's' AND 'e'`. -/
def deleteText (t x s e : Bytes) (gap gap' : Nat) : Bytes :=
  ascii "DELETE FROM " ++ (t ++ space :: whereText x s e gap gap')

section Delete

variable {t x s e : Bytes} {gap gap' : Nat}

theorem front_deleteText : ascii "DELETE" <+: toUpper (deleteText t x s e gap gap') := by
  rw [deleteText, toUpper_append]
  exact List.IsPrefix.trans (by decide) (List.prefix_append _ _)

theorem tight_deleteText : Tight (deleteText t x s e gap gap') := by
  apply tight_append rfl
  unfold whereText quotedTag betweenText
  simp only [List.getLast?_append, List.getLast?_cons]
  rfl

theorem front_whereText : ascii "WHERE" <+: toUpper (whereText x s e gap gap') := by
  rw [whereText, List.append_assoc, toUpper_append]
  exact List.IsPrefix.trans (by decide) (List.prefix_append _ _)

/-- The text around its one `=`. -/
theorem deleteText_eq : deleteText t x s e gap gap' = ascii "DELETE FROM " ++
    (t ++ ascii " WHERE " ++ ascii "tag" ++ List.replicate gap space) ++
      equals :: quotedTag gap' x (betweenText s e) := by
  unfold deleteText whereText
  simp only [List.append_assoc]
  rfl

theorem not_mem_beforeTag (ht : ∀ c ∈ t, isNameChar c = true) :
    equals ∉ t ++ ascii " WHERE " ++ ascii "tag" := by
  rw [List.mem_append, List.mem_append]
  intro hmem
  rcases hmem with (hmem | hmem) | hmem
  · exact absurd (ht equals hmem) (by decide)
  · exact absurd hmem (by decide)
  · exact absurd hmem (by decide)

theorem not_mem_behindTag (hx : ∀ c ∈ x, isNameChar c = true) (hs : equals ∉ s)
    (he : equals ∉ e) : equals ∉ quotedTag gap' x (betweenText s e) := by
  intro hmem
  unfold quotedTag betweenText at hmem
  simp only [List.mem_append, List.mem_cons, List.mem_replicate] at hmem
  rcases hmem with hmem | hmem | hmem | hmem | (((hmem | hmem) | hmem) | hmem) | hmem
  · exact absurd hmem.2 (by decide)
  · exact absurd hmem (by decide)
  · exact absurd (hx equals hmem) (by decide)
  · exact absurd hmem (by decide)
  · exact absurd hmem (by decide)
  · exact hs hmem
  · exact absurd hmem (by decide)
  · exact he hmem
  · exact absurd hmem (by decide)

/-- With spaces before the `=` there is no `tag=`. -/
theorem not_infix_spaced (ht : ∀ c ∈ t, isNameChar c = true) (hx : ∀ c ∈ x, isNameChar c = true)
    (hs : equals ∉ s) (he : equals ∉ e) :
    ¬ ascii "tag=" <:+: (t ++ ascii " WHERE " ++ ascii "tag" ++ List.replicate (gap + 1) space) ++
      equals :: quotedTag gap' x (betweenText s e) := by
  intro h
  have honce : equals ∉ t ++ ascii " WHERE " ++ ascii "tag" ++ List.replicate (gap + 1) space := by
    rw [List.mem_append, List.mem_replicate]
    intro hmem
    cases hmem with
    | inl hmem => exact not_mem_beforeTag ht hmem
    | inr hmem => exact absurd hmem.2 (by decide)
  have hsuffix : ascii "tag" <:+ t ++ ascii " WHERE " ++ ascii "tag" ++
      List.replicate (gap + 1) space :=
    suffix_of_infix_once honce (not_mem_behindTag hx hs he) h
  -- it would end in a `g`, and it ends in a space
  obtain ⟨front, hfront⟩ := hsuffix
  have hlast := congrArg List.getLast? hfront
  have hg : (ascii "tag").getLast? = some 103 := rfl
  rw [List.replicate_succ', ← List.append_assoc, List.getLast?_concat, List.getLast?_append, hg,
    Option.some_or] at hlast
  exact absurd hlast (by decide)

/-- **A space before the `=` hides the tag.** -/
theorem tagFilterFrom_deleteText {pos : Nat} (ht : ∀ c ∈ t, isNameChar c = true)
    (hx : ∀ c ∈ x, isNameChar c = true) (hs : equals ∉ s) (he : equals ∉ e) (hfrom : 12 ≤ pos)
    (hto : pos ≤ t.length + 19) :
    tagFilterFrom (deleteText t x s e gap gap') pos = .ok (if gap = 0 then x else []) := by
  cases gap with
  | zero =>
    have hsplit : deleteText t x s e 0 gap' = ascii "DELETE FROM " ++ (t ++ ascii " WHERE ") ++
        (ascii "tag=" ++ quotedTag gap' x (betweenText s e)) := by
      rw [deleteText_eq]
      simp only [List.append_assoc]
      rfl
    have hquote : quote ∉ x := fun hmem => absurd (hx quote hmem) (by decide)
    have hfirst : ¬ ascii "tag=" <:+: t ++ ascii " WHERE " ++ ascii "tag" :=
      fun h => not_mem_beforeTag ht (h.subset (by decide))
    have hto' : pos ≤ 12 + (t ++ ascii " WHERE ").length := by
      have hlen : (t ++ ascii " WHERE ").length = t.length + 7 := List.length_append
      omega
    have hafter : (betweenText s e).head? ≠ some quote := by
      change some space ≠ some quote
      decide
    rw [hsplit]
    exact tagFilterFrom_found hfrom hto' hfirst hquote hafter
  | succ gap =>
    rw [if_neg (Nat.succ_ne_zero gap)]
    apply tagFilterFrom_missing
    intro h
    have hdrop : (deleteText t x s e (gap + 1) gap').drop 12 = (t ++ ascii " WHERE " ++
        ascii "tag" ++ List.replicate (gap + 1) space)
          ++ equals :: quotedTag gap' x (betweenText s e) := by
      rw [deleteText_eq, List.append_assoc (ascii "DELETE FROM ")]
      rfl
    have hbehind : ascii "tag=" <:+: (deleteText t x s e (gap + 1) gap').drop 12 := by
      rw [← Nat.add_sub_cancel' hfrom, ← List.drop_drop] at h
      exact h.trans (List.drop_suffix _ _).isInfix
    rw [hdrop] at hbehind
    exact not_infix_spaced ht hx hs he hbehind

/-- **What a `DELETE` is parsed to**: the table ends at the first `WHERE`, the tag is there if no
space is before the `=`. -/
theorem accepts_deleteText (conv : Conversions) (ht : IsTableName t)
    (hx : ∀ c ∈ x, isNameChar c = true) (hs : equals ∉ s) (he : equals ∉ e) :
    ∃ range, Accepts conv (deleteText t x s e gap gap') (.delete
      { tableName := beforeKeyword (ascii "WHERE") t, tagFilter := if gap = 0 then x else [],
        timeRange := range }) := by
  have hkeyword : ascii "WHERE" <+: toUpper (whereText x s e gap gap') := front_whereText
  obtain ⟨i, hi, hle, htable⟩ := find_keyword_behind ht (by decide) (by decide) hkeyword
  have hfront : ascii "DELETE" <+: toUpper (deleteText t x s e gap gap') := front_deleteText
  have hne : (trim (deleteText t x s e gap gap')).isEmpty = false := by
    rw [trim_eq tight_deleteText]
    rfl
  have hstart : skipWhitespace (deleteText t x s e gap gap')
      (afterKeyword (deleteText t x s e gap gap') (ascii "DELETE")) = 7 := by
    rw [afterKeyword_eq hfront rfl (by decide)]
    rfl
  have hfrom : findFrom (toUpper (deleteText t x s e gap gap')) (ascii "FROM") 7 = some 7 := rfl
  have hname : skipWhitespace (deleteText t x s e gap gap') (7 + 4) = 12 := by
    have hcut : deleteText t x s e gap gap'
        = ascii "DELETE FROM" ++ space :: (t ++ space :: whereText x s e gap gap') := rfl
    rw [hcut]
    exact ht.skipWhitespace_space rfl
  have hwhere : findFrom (toUpper (deleteText t x s e gap gap')) (ascii "WHERE") 12
      = some (i + 12) := by
    rw [deleteText, toUpper_append, findFrom_append (by rw [length_toUpper]; rfl), hi]
    rfl
  have hsub : substrTo (deleteText t x s e gap gap') 12 (i + 12)
      = .ok ((t ++ space :: whereText x s e gap gap').take i) := by
    apply substrTo_take rfl
    rw [List.length_append, List.length_cons]
    omega
  have htag : tagFilterFrom (deleteText t x s e gap gap') (i + 12 + 5)
      = .ok (if gap = 0 then x else []) :=
    tagFilterFrom_deleteText ht.chars hx hs he (by omega) (by omega)
  obtain ⟨range, hrange, -⟩ := deleteRange_returns conv (deleteText t x s e gap gap') (i + 12 + 5)
  refine ⟨range, .success _, ?_, rfl⟩
  rw [parseSql, parse, hne, if_neg (by decide), trim_eq tight_deleteText,
    dispatch_delete (startsWith_iff.mpr hfront), parseDelete]
  simp only [hstart, hfrom, hname, hwhere, hsub, htag, hrange, ← htable]
  rfl

end Delete

/-! ## `UPDATE` -/

/-- From the `WHERE` of an `UPDATE` on. -/
def atText (x time : Bytes) : Bytes :=
  ascii "WHERE " ++ (ascii "tag=" ++ quotedTag 0 x (ascii " AND timestamp='" ++ time ++ [quote]))

/-- From the `SET` on. -/
def setAtText (x value time : Bytes) : Bytes :=
  ascii "SET value=" ++ (value ++ space :: atText x time)

/-- `UPDATE t SET value=v WHERE tag='x' AND timestamp='T'`. -/
def updateAtText (t x value time : Bytes) : Bytes :=
  ascii "UPDATE " ++ (t ++ space :: setAtText x value time)

section Update

variable {t x value time : Bytes}

theorem tight_updateAtText : Tight (updateAtText t x value time) := by
  apply tight_append rfl
  unfold setAtText atText quotedTag
  simp only [List.getLast?_append, List.getLast?_cons]
  rfl

/-- In front of the tag there is one `=`, and it is the value's. -/
theorem not_infix_beforeAt (ht : ∀ c ∈ t, isNameChar c = true) (hvalue : equals ∉ value) :
    ¬ ascii "tag=" <:+: t ++ space :: (ascii "SET value=" ++ (value ++ ascii " WHERE ")) ++
      ascii "tag" := by
  intro h
  have hsplit : t ++ space :: (ascii "SET value=" ++ (value ++ ascii " WHERE ")) ++ ascii "tag"
      = (t ++ ascii " SET value") ++ equals :: (value ++ ascii " WHERE tag") := by
    simp only [List.append_assoc, List.cons_append]
    rfl
  have hbefore : equals ∉ t ++ ascii " SET value" := by
    rw [List.mem_append]
    intro hmem
    cases hmem with
    | inl hmem => exact absurd (ht equals hmem) (by decide)
    | inr hmem => exact absurd hmem (by decide)
  have hbehind : equals ∉ value ++ ascii " WHERE tag" := by
    rw [List.mem_append]
    intro hmem
    cases hmem with
    | inl hmem => exact hvalue hmem
    | inr hmem => exact absurd hmem (by decide)
  rw [hsplit] at h
  have hsuffix : ascii "tag" <:+ t ++ ascii " SET value" :=
    suffix_of_infix_once hbefore hbehind h
  -- it would end in a `g`, and it ends in an `e`
  obtain ⟨front, hfront⟩ := hsuffix
  have hlast := congrArg List.getLast? hfront
  have he : (ascii " SET value").getLast? = some 101 := rfl
  have hg : (ascii "tag").getLast? = some 103 := rfl
  rw [List.getLast?_append, List.getLast?_append, he, hg, Option.some_or, Option.some_or] at hlast
  exact absurd hlast (by decide)

/-- The tag is found from every `WHERE` that the parser may have found. -/
theorem tagFilterFrom_updateAtText {pos : Nat} (ht : ∀ c ∈ t, isNameChar c = true)
    (hx : ∀ c ∈ x, isNameChar c = true) (hvalue : equals ∉ value) (hfrom : 7 ≤ pos)
    (hto : pos ≤ t.length + value.length + 25) :
    tagFilterFrom (updateAtText t x value time) pos = .ok x := by
  have hsplit : updateAtText t x value time = ascii "UPDATE " ++
      (t ++ space :: (ascii "SET value=" ++ (value ++ ascii " WHERE "))) ++ (ascii "tag=" ++
        quotedTag 0 x (ascii " AND timestamp='" ++ time ++ [quote])) := by
    unfold updateAtText setAtText atText
    simp only [List.append_assoc, List.cons_append]
    rfl
  have hlen : (t ++ space :: (ascii "SET value=" ++ (value ++ ascii " WHERE "))).length
      = t.length + value.length + 18 := by
    rw [List.length_append, List.length_cons, List.length_append, List.length_append]
    change t.length + (10 + (value.length + 7) + 1) = _
    omega
  have hquote : quote ∉ x := fun hmem => absurd (hx quote hmem) (by decide)
  have hafter : (ascii " AND timestamp='" ++ time ++ [quote]).head? ≠ some quote := by
    change some space ≠ some quote
    decide
  rw [hsplit]
  apply tagFilterFrom_found hfrom _ (not_infix_beforeAt ht hvalue) hquote hafter
  rw [hlen]
  change pos ≤ 7 + _
  omega

/-- The `WHERE` is found, at its place or before. -/
theorem findWhere_updateAtText {i : Nat} (hle : i ≤ t.length + 1) :
    ∃ j, findFrom (toUpper (updateAtText t x value time)) (ascii "WHERE")
        (skipWhitespace (updateAtText t x value time) (i + 7 + 3)) = some j ∧
      7 ≤ j ∧ j ≤ t.length + value.length + 19 := by
  have hvalueAt : (updateAtText t x value time)[t.length + 12]? = some 118 := by
    have hsplit : updateAtText t x value time = (ascii "UPDATE " ++ (t ++ ascii " SET ")) ++
        (ascii "value=" ++ (value ++ space :: atText x time)) := by
      unfold updateAtText setAtText
      simp only [List.append_assoc]
      rfl
    have hlen : (ascii "UPDATE " ++ (t ++ ascii " SET ")).length = t.length + 12 := by
      rw [List.length_append, List.length_append]
      change 7 + (t.length + 5) = _
      omega
    rw [hsplit, ← hlen, List.getElem?_append_right (Nat.le_refl _), Nat.sub_self]
    rfl
  have hskip : skipWhitespace (updateAtText t x value time) (i + 7 + 3) ≤ t.length + 12 :=
    skipUntil_le_of_stop (by omega) hvalueAt (by decide)
  have hsplit : updateAtText t x value time
      = (ascii "UPDATE " ++ (t ++ space :: (ascii "SET value=" ++ (value ++ [space])))) ++
        atText x time := by
    unfold updateAtText setAtText
    simp only [List.append_assoc, List.cons_append]
    rfl
  have hlen : (ascii "UPDATE " ++ (t ++ space :: (ascii "SET value=" ++ (value ++ [space])))).length
      = t.length + value.length + 19 := by
    simp only [List.length_append, List.length_cons, List.length_nil]
    change 7 + (t.length + (10 + (value.length + 1) + 1)) = _
    omega
  have hplace : ascii "WHERE" <+:
      (toUpper (updateAtText t x value time)).drop (t.length + value.length + 19) := by
    rw [hsplit, toUpper_append, ← hlen, ← length_toUpper, List.drop_left, atText, toUpper_append]
    exact List.IsPrefix.trans (by decide) (List.prefix_append _ _)
  have hbefore : skipWhitespace (updateAtText t x value time) (i + 7 + 3)
      ≤ t.length + value.length + 19 := by omega
  obtain ⟨j, hj⟩ := exists_findFrom hbefore hplace
  refine ⟨j, hj, ?_, ?_⟩
  · have hstart := (findFrom_eq_some (by decide) hj).1
    have hskipped := le_skipWhitespace (updateAtText t x value time) (i + 7 + 3)
    omega
  · obtain ⟨k, hk, rfl⟩ := Option.map_eq_some_iff.mp hj
    rw [← Nat.add_sub_cancel' hbefore, ← List.drop_drop] at hplace
    have hkle := find_le hk hplace
    omega

/-- **What an `UPDATE` is parsed to**: the table ends at the first `SET`. -/
theorem accepts_updateAtText (conv : Conversions) (ht : IsTableName t)
    (hx : ∀ c ∈ x, isNameChar c = true) (hvalue : equals ∉ value) :
    ∃ newValue exactTime, Accepts conv (updateAtText t x value time) (.update
      { tableName := beforeKeyword (ascii "SET") t, tagFilter := x, exactTime := exactTime,
        newValue := newValue }) := by
  have hkeyword : ascii "SET" <+: toUpper (setAtText x value time) := by
    rw [setAtText, toUpper_append]
    exact List.IsPrefix.trans (by decide) (List.prefix_append _ _)
  obtain ⟨i, hi, hle, htable⟩ := find_keyword_behind ht (by decide) (by decide) hkeyword
  have hfront : ascii "UPDATE" <+: toUpper (updateAtText t x value time) :=
    front_updateOf t (setAtText x value time)
  have hne : (trim (updateAtText t x value time)).isEmpty = false := by
    rw [trim_eq tight_updateAtText]
    rfl
  have hname : skipWhitespace (updateAtText t x value time)
      (afterKeyword (updateAtText t x value time) (ascii "UPDATE")) = 7 := skip_updateOf ht
  have hset : findFrom (toUpper (updateAtText t x value time)) (ascii "SET") 7
      = some (i + 7) := findSet_updateOf hi
  have hsub : substrTo (updateAtText t x value time) 7 (i + 7)
      = .ok ((t ++ space :: setAtText x value time).take i) := substrTo_updateOf hle
  have hfound : ∃ j, findFrom (toUpper (updateAtText t x value time)) (ascii "WHERE")
      (skipWhitespace (updateAtText t x value time) (i + 7 + 3)) = some j ∧
        7 ≤ j ∧ j ≤ t.length + value.length + 19 := findWhere_updateAtText hle
  obtain ⟨j, hwhere, hfrom, hto⟩ := hfound
  have htag : tagFilterFrom (updateAtText t x value time) (j + 5) = .ok x :=
    tagFilterFrom_updateAtText ht.chars hx hvalue (by omega) (by omega)
  obtain ⟨newValue, hvalue', -⟩ := updateValue_returns conv (updateAtText t x value time)
    (skipWhitespace (updateAtText t x value time) (i + 7 + 3)) j
  obtain ⟨exactTime, htime, -⟩ := updateTime_returns conv (updateAtText t x value time) (j + 5)
  refine ⟨newValue, exactTime, .success _, ?_, rfl⟩
  rw [parseSql, parse, hne, if_neg (by decide), trim_eq tight_updateAtText,
    dispatch_update (startsWith_iff.mpr hfront), parseUpdate]
  simp only [hname, hset, hwhere, hsub, hvalue', htag, htime, ← htable]
  rfl

end Update

end Sql
end MiniTSDB
