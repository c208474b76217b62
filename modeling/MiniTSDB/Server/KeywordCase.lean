import MiniTSDB.Server.KeywordVariant

/-!
# Keywords in any case

The parser asks for ` SET ` in upper case in the `ALTER` of a user, an alarm and a tag, for `tag=`
in lower case in a `DELETE` and an `UPDATE`, and for `timestamp=` in an `UPDATE`. An `ALTER` is
never the same in every case (`alter_not_caseBlind`), and neither is a `DELETE` or an `UPDATE` with
a tag, nor an `UPDATE` with a time that its word in upper case takes away.
-/

namespace MiniTSDB
namespace Server

open Lib Sql

/-- The one text without blanks at its ends is the other with keywords in another case. -/
structure TrimmedVariant (conv : Conversions) (fuel : Nat) (s t : Bytes) : Prop where
  letters : SameLetters s t
  chosen : ∀ stmt stmt', ReadAs conv fuel s stmt → ReadAs conv fuel t stmt' →
    chosen stmt' = chosen stmt

/-- Texts that are respelled in the same way are read in the same way. -/
theorem trimmedVariant_of_respell {conv : Conversions} {fuel : Nat} {s t : Bytes}
    (ht : SameLetters s t) (h : respell t = respell s) : TrimmedVariant conv fuel s t where
  letters := ht
  chosen stmt stmt' hstmt hstmt' := by
    obtain ⟨r, hr, hfirst⟩ := hstmt
    obtain ⟨r', hr', hsecond⟩ := hstmt'
    rw [h, hr] at hr'
    cases hr'
    rw [hfirst] at hsecond
    cases hsecond
    rfl

/-- It is the text of a variant, without the blanks at its ends. -/
theorem TrimmedVariant.exists_variant {conv : Conversions} {sql t : Bytes}
    (ht : TrimmedVariant conv (sql.length + 1) (trim sql) t) :
    ∃ sql', KeywordVariant conv sql sql' ∧ trim sql' = t := by
  obtain ⟨sql', hs, htrim⟩ := exists_trim_eq ht.letters
  refine ⟨sql', ⟨hs, ?_⟩, htrim⟩
  unfold Reads
  rw [hs.length, htrim]
  exact ht.chosen

/-- Two variants of the text that are not treated alike. -/
theorem not_caseBlind {conv : Conversions} {sql : Bytes} {stmt : SQLStmt} {t t' : Bytes}
    (ht : TrimmedVariant conv (sql.length + 1) (trim sql) t)
    (ht' : TrimmedVariant conv (sql.length + 1) (trim sql) t')
    (hdiffer : ∀ r r' stmt stmt', dispatch conv (sql.length + 1) t = .ok r → r.stmt = some stmt →
      dispatch conv (sql.length + 1) t' = .ok r' → r'.stmt = some stmt' →
        treated stmt ≠ treated stmt') : ¬ CaseBlind conv sql stmt := by
  intro hblind
  have hvariant : ∀ u, TrimmedVariant conv (sql.length + 1) (trim sql) u →
      ∃ r stmt', dispatch conv (sql.length + 1) u = .ok r ∧ r.stmt = some stmt' ∧
        treated stmt' = treated stmt := by
    intro u hu
    obtain ⟨sql', hvariant, rfl⟩ := hu.exists_variant
    obtain ⟨stmt', haccepts, htreated⟩ := hblind sql' hvariant
    obtain ⟨-, r, hr, hstmt⟩ := accepts_iff.mp haccepts
    rw [hvariant.letters.length] at hr
    exact ⟨r, stmt', hr, hstmt, htreated⟩
  obtain ⟨r, stmt, hr, hstmt, htreated⟩ := hvariant t ht
  obtain ⟨r', stmt', hr', hstmt', htreated'⟩ := hvariant t' ht'
  exact hdiffer r r' stmt stmt' hr hstmt hr' hstmt' (htreated.trans htreated'.symm)

/-! ## ALTER -/

/-- Spelled in whatever case, the word is respelled in the same way. -/
theorem respellAt_putAt {s word other : Bytes} {start : Option Nat} {pos i : Nat}
    (hstart : start = some pos) (h : findKeyword s word pos = some i) (hne : word ≠ [])
    (hother : toUpper other = toUpper word) :
    respellAt (putAt s i other) start word = respellAt s start word := by
  have hs := putAt_sameLetters h hother
  have hle := (findKeyword_eq_some hne h).2
  unfold respellAt
  rw [hstart, Option.bind_some, Option.bind_some, hs.findKeyword, h]
  exact putAt_putAt (by omega) (length_eq_of_letters hother)

theorem alterTagStart_sameLetters {s s' : Bytes} (hs : SameLetters s s') :
    alterTagStart s' = alterTagStart s := by
  have hblank : Caseless fun c => !isBlank c := caseless_isBlank.not
  unfold alterTagStart
  simp (disch := decide) only [hs.afterKeyword, hs.skipWhitespace, hs.skipUntil hblank, hs.findChar]

theorem alterAlarmStart_sameLetters {s s' : Bytes} (hs : SameLetters s s') :
    alterAlarmStart s' = alterAlarmStart s := by
  rw [alterAlarmStart, alterAlarmStart, hs.afterKeyword, hs.skipWhitespace]

theorem alterUserStart_sameLetters {s s' : Bytes} (hs : SameLetters s s') :
    alterUserStart s' = alterUserStart s := by
  rw [alterUserStart, alterUserStart, hs.afterKeyword, hs.skipWhitespace]

/-- What an exact search finds is there in some case. -/
theorem exists_findKeyword {s pat : Bytes} {pos j : Nat} (h : findFrom s pat pos = some j) :
    ∃ i, findKeyword s pat pos = some i := by
  cases hfind : findKeyword s pat pos with
  | none =>
    rw [findFrom_eq_none hfind] at h
    cases h
  | some i => exact ⟨i, rfl⟩

/-- The name that an `ALTER` with a property goes by. -/
def alterName : SQLStmt → Bytes
  | .alterTag stmt => stmt.tagName
  | .alterAlarm stmt => stmt.name
  | .alterUser stmt => stmt.name
  | _ => []

theorem alterName_treated (stmt : SQLStmt) : alterName (treated stmt) = alterName stmt := by
  cases stmt with
  | _ => rfl

section Alter

variable {conv : Conversions} {sql : Bytes} {stmt : SQLStmt}

/-- A statement whose name ends at the ` SET `. -/
theorem not_caseBlind_of_set (start : Nat)
    (hrespell : ∀ t, SameLetters (trim sql) t → respell t = respellAt t (some start) (ascii " SET "))
    (hname : ∀ t r stmt, SameLetters (trim sql) t → dispatch conv (sql.length + 1) t = .ok r →
      r.stmt = some stmt → ∃ setPos, findFrom t (ascii " SET ") start = some setPos ∧
        alterName stmt = nameBefore t start setPos)
    (h : Accepts conv sql stmt) : ¬ CaseBlind conv sql stmt := by
  obtain ⟨-, r, hr, hstmt⟩ := accepts_iff.mp h
  obtain ⟨setPos, hset, -⟩ := hname _ r stmt (.refl _) hr hstmt
  obtain ⟨i, hi⟩ := exists_findKeyword hset
  have hlower : SameLetters (trim sql) (putAt (trim sql) i (ascii " set ")) :=
    putAt_sameLetters hi letters_set
  have hupper : SameLetters (trim sql) (putAt (trim sql) i (ascii " SET ")) :=
    putAt_sameLetters hi rfl
  refine not_caseBlind (trimmedVariant_of_respell hlower ?_) (trimmedVariant_of_respell hupper ?_) ?_
  · rw [hrespell _ hlower, hrespell _ (.refl _)]
    exact respellAt_putAt rfl hi (by decide) letters_set
  · rw [hrespell _ hupper, hrespell _ (.refl _)]
    exact respellAt_putAt rfl hi (by decide) rfl
  · intro r r' stmt stmt' hr hstmt hr' hstmt' htreated
    obtain ⟨setPos, hset, hlong⟩ := hname _ r stmt hlower hr hstmt
    obtain ⟨setPos', hset', hshort⟩ := hname _ r' stmt' hupper hr' hstmt'
    rw [findFrom_putAt hi (by decide)] at hset'
    cases hset'
    apply nameBefore_ne hi hset
    rw [← hlong, ← hshort, ← alterName_treated stmt, htreated, alterName_treated]

theorem alterTag_not_caseBlind (h : Accepts conv sql stmt)
    (htag : startsWith (trim sql) (ascii "ALTER TAG") = true) : ¬ CaseBlind conv sql stmt := by
  have hstart : ∀ t, SameLetters (trim sql) t → startsWith t (ascii "ALTER TAG") = true :=
    fun t ht => by rw [ht.startsWith, htag]
  obtain ⟨-, r, hr, hstmt⟩ := accepts_iff.mp h
  rw [dispatch_alterTag htag] at hr
  -- the name stands behind the table and its dot
  obtain ⟨start, -, -, htagStart, -⟩ := parseAlterTag_name (tight_trim sql) hr hstmt
  refine not_caseBlind_of_set start ?_ ?_ h
  · intro t ht
    rw [respell, if_pos (hstart t ht), alterTagStart_sameLetters ht, htagStart]
  · intro t r stmt ht hr hstmt
    have htight : Tight t := by
      rw [← tight_toUpper, ht, tight_toUpper]
      exact tight_trim sql
    rw [dispatch_alterTag (hstart t ht)] at hr
    obtain ⟨start', setPos, alter, hstart', hset, rfl, hname⟩ :=
      parseAlterTag_name htight hr hstmt
    rw [alterTagStart_sameLetters ht, htagStart] at hstart'
    cases hstart'
    exact ⟨setPos, hset, hname⟩

theorem alterAlarm_not_caseBlind (h : Accepts conv sql stmt)
    (halarm : startsWith (trim sql) (ascii "ALTER ALARM") = true) :
    ¬ CaseBlind conv sql stmt := by
  have hstart : ∀ t, SameLetters (trim sql) t → startsWith t (ascii "ALTER ALARM") = true :=
    fun t ht => by rw [ht.startsWith, halarm]
  refine not_caseBlind_of_set (alterAlarmStart (trim sql)) ?_ ?_ h
  · intro t ht
    have hnot : startsWith t (ascii "ALTER TAG") = false :=
      startsWith_eq_false (hstart t ht) (by decide)
    rw [respell, hnot, if_neg (by decide), if_pos (hstart t ht), alterAlarmStart_sameLetters ht]
  · intro t r stmt ht hr hstmt
    rw [dispatch_alterAlarm (hstart t ht)] at hr
    obtain ⟨setPos, alter, hset, rfl, hname⟩ := parseAlterAlarm_name hr hstmt
    rw [alterAlarmStart_sameLetters ht] at hset hname
    exact ⟨setPos, hset, hname⟩

theorem alterUser_not_caseBlind (h : Accepts conv sql stmt)
    (huser : startsWith (trim sql) (ascii "ALTER USER") = true) : ¬ CaseBlind conv sql stmt := by
  have hstart : ∀ t, SameLetters (trim sql) t → startsWith t (ascii "ALTER USER") = true :=
    fun t ht => by rw [ht.startsWith, huser]
  refine not_caseBlind_of_set (alterUserStart (trim sql)) ?_ ?_ h
  · intro t ht
    have hnot : startsWith t (ascii "ALTER TAG") = false :=
      startsWith_eq_false (hstart t ht) (by decide)
    have hnot' : startsWith t (ascii "ALTER ALARM") = false :=
      startsWith_eq_false (hstart t ht) (by decide)
    rw [respell, hnot, hnot', if_neg (by decide), if_neg (by decide), if_pos (hstart t ht),
      alterUserStart_sameLetters ht]
  · intro t r stmt ht hr hstmt
    rw [dispatch_alterUser (hstart t ht)] at hr
    obtain ⟨setPos, alter, hset, rfl, hname⟩ := parseAlterUser_name hr hstmt
    rw [alterUserStart_sameLetters ht] at hset hname
    exact ⟨setPos, hset, hname⟩

/-- **An `ALTER` of a user, an alarm or a tag that is accepted is not accepted, or not for the same
one, with its `SET` in another case.** -/
theorem alter_not_caseBlind (h : Accepts conv sql stmt)
    (hstarts : startsWith (trim sql) (ascii "ALTER TAG") = true ∨
      startsWith (trim sql) (ascii "ALTER ALARM") = true ∨
        startsWith (trim sql) (ascii "ALTER USER") = true) : ¬ CaseBlind conv sql stmt := by
  rcases hstarts with htag | halarm | huser
  · exact alterTag_not_caseBlind h htag
  · exact alterAlarm_not_caseBlind h halarm
  · exact alterUser_not_caseBlind h huser

end Alter

/-! ## DELETE and UPDATE -/

/-- The tag that a `DELETE` or an `UPDATE` goes by. -/
def tagOf : SQLStmt → Bytes
  | .delete stmt => stmt.tagFilter
  | .update stmt => stmt.tagFilter
  | _ => []

theorem tagOf_treated (stmt : SQLStmt) : tagOf (treated stmt) = tagOf stmt := by
  cases stmt with
  | _ => rfl

theorem tagOf_chosen (stmt : SQLStmt) : tagOf (chosen stmt) = tagOf stmt := by
  cases stmt with
  | _ => rfl

section Tag

variable {conv : Conversions} {sql : Bytes} {stmt : SQLStmt}

/-- **A statement that goes by a tag alone, with a literal behind some `tag=`.** -/
theorem GoesByTag.not_caseBlind {pos : Nat} {withTag : Bytes → SQLStmt}
    (hs : GoesByTag conv (sql.length + 1) (trim sql) pos withTag)
    (htagOf : ∀ tag, tagOf (withTag tag) = tag) (h : ¬ NoTagLiteral (trim sql) pos) :
    ¬ CaseBlind conv sql stmt := by
  obtain ⟨i, l, t, hi, hl, ht, hfront, hliteral, hother⟩ := exists_other_tag h
  obtain ⟨hpos, hlen⟩ := findKeyword_eq_some (by decide) hi
  have hlower : SameLetters (trim sql) (putAt (trim sql) i (ascii "tag=")) :=
    putAt_sameLetters hi rfl
  -- both are read as statements with this literal
  have hread : ∀ u stmt, SameLetters (trim sql) u → u.take pos = (trim sql).take pos →
      tagLiteral u (i + 4) = .ok l → ReadAs conv (sql.length + 1) u stmt →
        chosen stmt = withTag l := by
    rintro u stmt hu hufront huliteral ⟨r, hr, hstmt⟩
    have hui : findKeyword u (ascii "tag=") pos = some i := by rw [hu.findKeyword, hi]
    have hput : respellAt u (some pos) (ascii "tag=") = putAt u i (ascii "tag=") := by
      rw [respellAt, Option.bind_some, hui]
    rw [hs.respelled u hu, hput] at hr
    have htake : (putAt u i (ascii "tag=")).take pos = (trim sql).take pos := by
      rw [take_putAt hpos (by rw [hu.length]; omega), hufront]
    obtain ⟨tag, htag, hchosen⟩ :=
      hs.onlyTag _ r stmt (hu.trans (putAt_sameLetters hui rfl)) htake hr hstmt
    rw [tagFilterFrom_putAt hui, huliteral] at htag
    rw [hchosen, Except.ok.inj htag]
  refine Server.not_caseBlind ⟨ht, ?_⟩ (trimmedVariant_of_respell hlower ?_) ?_
  · intro first second hfirst hsecond
    rw [hread _ first (.refl _) rfl hl hfirst, hread _ second ht hfront hliteral hsecond]
  · rw [hs.respelled _ hlower, hs.respelled _ (.refl _)]
    exact respellAt_putAt rfl hi (by decide) rfl
  · intro r r' stmt stmt' hr hstmt hr' hstmt' htreated
    have htake : (putAt (trim sql) i (ascii "tag=")).take pos = (trim sql).take pos :=
      take_putAt hpos (by omega)
    obtain ⟨tag, htag, hchosen⟩ := hs.onlyTag _ r stmt ht hfront hr hstmt
    obtain ⟨tag', htag', hchosen'⟩ := hs.onlyTag _ r' stmt' hlower htake hr' hstmt'
    rw [tagFilterFrom_putAt hi, hl] at htag'
    cases htag'
    apply hother
    rw [htag, ← htagOf tag, ← hchosen, tagOf_chosen, ← tagOf_treated, htreated, tagOf_treated,
      ← tagOf_chosen, hchosen', htagOf]

/-- Behind the first `tag=` in some case there is another literal than behind the next one in lower
case, or there is no next one. -/
def TagDecides (sql : Bytes) : Prop :=
  ∃ pos i, updateWhere sql = some pos ∧ findKeyword sql (ascii "tag=") pos = some i ∧
    tagLiteral sql (i + 4) ≠ tagFilterFrom sql (i + 4)

theorem tag_not_caseBlind (hstarts : startsWith (trim sql) (ascii "UPDATE") = true)
    (hdecides : TagDecides (trim sql)) : ¬ CaseBlind conv sql stmt := by
  obtain ⟨pos, i, hpos, hi, hne⟩ := hdecides
  have hupper : SameLetters (trim sql) (putAt (trim sql) i (ascii "TAG=")) :=
    putAt_sameLetters hi letters_tag
  have hlower : SameLetters (trim sql) (putAt (trim sql) i (ascii "tag=")) :=
    putAt_sameLetters hi rfl
  have hrespell : ∀ t, SameLetters (trim sql) t →
      respell t = respellTime (respellAt t (updateWhere (trim sql)) (ascii "tag=")) := by
    intro t ht
    rw [respell_update (by rw [ht.startsWith, hstarts]), updateWhere_sameLetters ht]
  have htag : ∀ t r stmt, SameLetters (trim sql) t → dispatch conv (sql.length + 1) t = .ok r →
      r.stmt = some stmt → tagFilterFrom t pos = .ok (tagOf stmt) := by
    intro t r stmt ht hr hstmt
    rw [dispatch_update (by rw [ht.startsWith, hstarts])] at hr
    obtain ⟨start, upd, hstart, rfl, -, -, htag, -⟩ := parseUpdate_parts hr hstmt
    rw [updateWhere_sameLetters ht, hpos] at hstart
    cases hstart
    exact htag
  refine not_caseBlind (trimmedVariant_of_respell hupper ?_) (trimmedVariant_of_respell hlower ?_) ?_
  · rw [hrespell _ hupper, hrespell _ (.refl _)]
    exact congrArg respellTime (respellAt_putAt hpos hi (by decide) letters_tag)
  · rw [hrespell _ hlower, hrespell _ (.refl _)]
    exact congrArg respellTime (respellAt_putAt hpos hi (by decide) rfl)
  · intro r r' stmt stmt' hr hstmt hr' hstmt' htreated
    have hlate := htag _ r stmt hupper hr hstmt
    have hhere := htag _ r' stmt' hlower hr' hstmt'
    rw [tagFilterFrom_putAt_upper hi] at hlate
    rw [tagFilterFrom_putAt hi] at hhere
    apply hne
    rw [hlate, hhere, ← tagOf_treated stmt, htreated, tagOf_treated]

/-- The word that the time is looked for behind, in some case. -/
def TimeWordAt (sql : Bytes) (pos : Nat) (word : Bytes) (i : Nat) : Prop :=
  findKeyword sql word pos = some i ∧ (word = ascii "timestamp=" ∨
    word = ascii "timestamp =" ∧ findKeyword sql (ascii "timestamp=") pos = none)

/-- The time is another with its word in lower case than with it in upper case. -/
def TimeDecides (conv : Conversions) (sql : Bytes) : Prop :=
  ∃ pos word i, updateWhere sql = some pos ∧ TimeWordAt sql pos word i ∧
    updateTime conv (putAt sql i word) pos ≠ updateTime conv (putAt sql i (toUpper word)) pos

/-- In whatever case the word for the time is, it is respelled in the same way. -/
theorem respellTime_putAt {s word other : Bytes} {pos i : Nat} (hpos : updateWhere s = some pos)
    (hword : TimeWordAt s pos word i) (hother : toUpper other = toUpper word) :
    respellTime (putAt s i other) = respellTime s := by
  obtain ⟨hi, rfl | ⟨rfl, hnone⟩⟩ := hword
  · have hs := putAt_sameLetters hi hother
    unfold respellTime
    rw [updateWhere_sameLetters hs, hpos, Option.bind_some, Option.bind_some, hs.findKeyword, hi]
    exact respellAt_putAt rfl hi (by decide) hother
  · have hs := putAt_sameLetters hi hother
    unfold respellTime
    rw [updateWhere_sameLetters hs, hpos, Option.bind_some, Option.bind_some, hs.findKeyword, hnone]
    exact respellAt_putAt rfl hi (by decide) hother

/-- The tag is respelled elsewhere than the time. -/
theorem respellAt_tag_putAt {s word other : Bytes} {pos i : Nat} (hpos : updateWhere s = some pos)
    (hword : TimeWordAt s pos word i) (hother : toUpper other = toUpper word) :
    respellAt (putAt s i other) (updateWhere s) (ascii "tag=")
      = putAt (respellAt s (updateWhere s) (ascii "tag=")) i other := by
  have hi := hword.1
  have hs := putAt_sameLetters hi hother
  unfold respellAt
  rw [hpos, Option.bind_some, Option.bind_some, hs.findKeyword]
  cases htag : findKeyword s (ascii "tag=") pos with
  | none => rfl
  | some j =>
    have hlen := length_eq_of_letters hother
    have hj := (findKeyword_eq_some (by decide) htag).2
    have hne : word ≠ [] := by
      obtain ⟨-, rfl | ⟨rfl, -⟩⟩ := hword
      · decide
      · decide
    have hend := (findKeyword_eq_some hne hi).2
    have hdisjoint : i + word.length ≤ j ∨ j + (ascii "tag=").length ≤ i := by
      refine wordAt_disjoint (.of_findKeyword hi) (.of_findKeyword htag) ?_ ?_
      · obtain ⟨-, rfl | ⟨rfl, -⟩⟩ := hword
        · decide
        · decide
      · obtain ⟨-, rfl | ⟨rfl, -⟩⟩ := hword
        · decide
        · decide
    exact putAt_comm (by omega) hj (by omega)

theorem time_not_caseBlind (hstarts : startsWith (trim sql) (ascii "UPDATE") = true)
    (hdecides : TimeDecides conv (trim sql)) : ¬ CaseBlind conv sql stmt := by
  obtain ⟨pos, word, i, hpos, hword, hne⟩ := hdecides
  have hvariant : ∀ other, toUpper other = toUpper word →
      SameLetters (trim sql) (putAt (trim sql) i other) ∧
        TrimmedVariant conv (sql.length + 1) (trim sql) (putAt (trim sql) i other) := by
    intro other hother
    have hs : SameLetters (trim sql) (putAt (trim sql) i other) := putAt_sameLetters hword.1 hother
    refine ⟨hs, trimmedVariant_of_respell hs ?_⟩
    have hletters := respellAt_sameLetters (trim sql) (updateWhere (trim sql)) (ascii "tag=")
    rw [respell_update (by rw [hs.startsWith, hstarts]), respell_update hstarts,
      updateWhere_sameLetters hs, respellAt_tag_putAt hpos hword hother]
    have hposTag : updateWhere (respellAt (trim sql) (updateWhere (trim sql)) (ascii "tag="))
        = some pos := by rw [updateWhere_sameLetters hletters, hpos]
    apply respellTime_putAt hposTag _ hother
    unfold TimeWordAt
    rw [hletters.findKeyword, hletters.findKeyword]
    exact hword
  have htime : ∀ t r stmt, SameLetters (trim sql) t → dispatch conv (sql.length + 1) t = .ok r →
      r.stmt = some stmt → ∃ upd, stmt = .update upd ∧ updateTime conv t pos = .ok upd.exactTime := by
    intro t r stmt ht hr hstmt
    rw [dispatch_update (by rw [ht.startsWith, hstarts])] at hr
    obtain ⟨start, upd, hstart, rfl, -, -, -, htime⟩ := parseUpdate_parts hr hstmt
    rw [updateWhere_sameLetters ht, hpos] at hstart
    cases hstart
    exact ⟨upd, rfl, htime⟩
  obtain ⟨hlower, hlowerVariant⟩ := hvariant word rfl
  obtain ⟨hupper, hupperVariant⟩ := hvariant (toUpper word) (toUpper_toUpper word)
  apply not_caseBlind hlowerVariant hupperVariant
  intro r r' stmt stmt' hr hstmt hr' hstmt' htreated
  obtain ⟨upd, rfl, hexact⟩ := htime _ r stmt hlower hr hstmt
  obtain ⟨upd', rfl, hexact'⟩ := htime _ r' stmt' hupper hr' hstmt'
  cases htreated
  exact hne (hexact.trans hexact'.symm)

end Tag

/-! ## Any case -/

/-- An `UPDATE` that goes by a time. -/
def TimedUpdate (sql : Bytes) : Prop :=
  startsWith sql (ascii "UPDATE") = true ∧ ¬ NoTimeWord sql (updateWhere sql)

section

variable {conv : Conversions} {sql : Bytes} {stmt : SQLStmt}

/-- A statement that is the same in every case reads nothing behind a word in one spelling. -/
theorem noFixedWord_of_caseBlind (h : Accepts conv sql stmt) (huntimed : ¬ TimedUpdate (trim sql))
    (hblind : CaseBlind conv sql stmt) : NoFixedWord (trim sql) where
  alterTag := by
    by_contra hstarts
    exact alter_not_caseBlind h (Or.inl (Bool.eq_true_of_not_eq_false hstarts)) hblind
  alterAlarm := by
    by_contra hstarts
    exact alter_not_caseBlind h (Or.inr (Or.inl (Bool.eq_true_of_not_eq_false hstarts))) hblind
  alterUser := by
    by_contra hstarts
    exact alter_not_caseBlind h (Or.inr (Or.inr (Bool.eq_true_of_not_eq_false hstarts))) hblind
  delete hstarts pos hpos := by
    by_contra hliteral
    exact (delete_goesByTag hstarts hpos).not_caseBlind (fun _ => rfl) hliteral hblind
  update hstarts pos hpos := by
    have htime : NoTimeWord (trim sql) (updateWhere (trim sql)) := by
      by_contra htime
      exact huntimed ⟨hstarts, htime⟩
    refine ⟨?_, htime pos hpos⟩
    by_contra hliteral
    exact (update_goesByTag hstarts hpos htime).not_caseBlind (fun _ => rfl) hliteral hblind

/-- **Keywords are keywords in any case just where nothing is read behind a word in one spelling.**
An `UPDATE` with a word for a time is not the same in every case if the word decides on the time, or
a `tag=` on the tag. -/
theorem caseBlind_iff (h : Accepts conv sql stmt) :
    (¬ TimedUpdate (trim sql) → (CaseBlind conv sql stmt ↔ NoFixedWord (trim sql))) ∧
      (TimedUpdate (trim sql) → TagDecides (trim sql) ∨ TimeDecides conv (trim sql) →
        ¬ CaseBlind conv sql stmt) := by
  constructor
  · intro huntimed
    exact ⟨noFixedWord_of_caseBlind h huntimed, caseBlind_of_noFixedWord h⟩
  · rintro ⟨hstarts, -⟩ (htag | htime)
    · exact tag_not_caseBlind hstarts htag
    · exact time_not_caseBlind hstarts htime

end

theorem accepts_of_parseSql {conv : Conversions} {sql : Bytes} {stmt : SQLStmt}
    (h : parseSql conv sql = .ok (.success stmt)) : Accepts conv sql stmt := ⟨_, h, rfl⟩

/-- What the parser makes of the statements of the cases below. -/
theorem parseSql_statements :
    parseSql noConversions (ascii "select value from t where tag = 'x'")
        = .ok (.success (.select
          { columns := [{ expr := ascii "value" }], tableName := ascii "t",
            where_ := { tagFilter := ascii "x" } })) ∧
      parseSql noConversions (ascii "ALTER USER u SET password 'p'")
        = .ok (.success (.alterUser
          { name := ascii "u", property := ascii "password", value := ascii "p" })) ∧
      parseSql noConversions (ascii "ALTER USER u SET PASSWORD 'p'")
        = .ok (.success (.alterUser
          { name := ascii "u", property := ascii "PASSWORD", value := ascii "p" })) ∧
      parseSql { stod := fun _ => some 0, parseTimeString := fun _ => 0 }
          (ascii "UPDATE t SET value = 0 WHERE tag='x' AND timestamp=''")
        = .ok (.success (.update
          { tableName := ascii "t", tagFilter := ascii "x", exactTime := 0, newValue := 0 })) := by
  decide +kernel

theorem noFixedWord_select : NoFixedWord (trim (ascii "select value from t where tag = 'x'")) where
  alterTag := by decide
  alterAlarm := by decide
  alterUser := by decide
  delete h := absurd h (by decide)
  update h := absurd h (by decide)

theorem updateAt_tagDecides :
    TagDecides (trim (ascii "UPDATE t SET value = 0 WHERE tag='x' AND timestamp=''")) := by
  refine ⟨28, 29, by decide, by decide, ?_⟩
  decide +kernel

theorem updateAt_timed :
    TimedUpdate (trim (ascii "UPDATE t SET value = 0 WHERE tag='x' AND timestamp=''")) := by
  refine ⟨by decide, fun hnone => ?_⟩
  exact absurd (hnone 28 (by decide)).1 (by decide)

/-- A `SELECT`, the password of a user, and a value at a time. -/
theorem caseBlind_iff_statements :
    CaseBlind noConversions (ascii "select value from t where tag = 'x'") (.select
        { columns := [{ expr := ascii "value" }], tableName := ascii "t",
          where_ := { tagFilter := ascii "x" } }) ∧
      ¬ CaseBlind noConversions (ascii "ALTER USER u SET password 'p'") (.alterUser
        { name := ascii "u", property := ascii "password", value := ascii "p" }) ∧
      ¬ CaseBlind { stod := fun _ => some 0, parseTimeString := fun _ => 0 }
        (ascii "UPDATE t SET value = 0 WHERE tag='x' AND timestamp=''") (.update
          { tableName := ascii "t", tagFilter := ascii "x", exactTime := 0, newValue := 0 }) := by
  obtain ⟨hselect, hpassword, -, hupdate⟩ := parseSql_statements
  refine ⟨?_, ?_, ?_⟩
  · refine ((caseBlind_iff (accepts_of_parseSql hselect)).1 ?_).mpr noFixedWord_select
    exact fun htimed => absurd htimed.1 (by decide)
  · intro hblind
    refine absurd (((caseBlind_iff (accepts_of_parseSql hpassword)).1 ?_).mp hblind).alterUser ?_
    · exact fun htimed => absurd htimed.1 (by decide)
    · decide
  · exact (caseBlind_iff (accepts_of_parseSql hupdate)).2 updateAt_timed
      (Or.inl updateAt_tagDecides)

/-! ### The password of a user -/

instance (s s' : Bytes) : Decidable (SameLetters s s') :=
  inferInstanceAs (Decidable (toUpper s' = toUpper s))

theorem keywordVariant_of_respell {conv : Conversions} {sql sql' : Bytes} (hs : SameLetters sql sql')
    (h : respell (trim sql') = respell (trim sql)) : KeywordVariant conv sql sql' where
  letters := hs
  chosen := by
    unfold Reads
    rw [hs.length]
    exact (trimmedVariant_of_respell hs.trim h).chosen

theorem readAs_eq {conv : Conversions} {fuel : Nat} {s : Bytes} {stmt stmt' : SQLStmt}
    (h : dispatch conv fuel (respell s) = .ok (.success stmt)) (hread : ReadAs conv fuel s stmt') :
    stmt' = stmt := by
  obtain ⟨r, hr, hstmt⟩ := hread
  rw [h] at hr
  cases hr
  cases hstmt
  rfl

theorem password_variant : KeywordVariant noConversions (ascii "ALTER USER u SET password 'p'")
    (ascii "ALTER USER u SET PASSWORD 'p'") where
  letters := by decide
  chosen stmt stmt' hstmt hstmt' := by
    have hlower : dispatch noConversions 30 (respell (trim (ascii "ALTER USER u SET password 'p'")))
        = .ok (.success (.alterUser
          { name := ascii "u", property := ascii "password", value := ascii "p" })) := by
      decide +kernel
    have hupper : dispatch noConversions 30 (respell (trim (ascii "ALTER USER u SET PASSWORD 'p'")))
        = .ok (.success (.alterUser
          { name := ascii "u", property := ascii "PASSWORD", value := ascii "p" })) := by
      decide +kernel
    rw [readAs_eq hlower hstmt, readAs_eq hupper hstmt']
    simp only [chosen]

/-- With `set` the statement is not accepted, and with `PASSWORD` no one can alter a user by it. -/
theorem password_in_one_case :
    Accepts noConversions (ascii "ALTER USER u SET password 'p'") (.alterUser
        { name := ascii "u", property := ascii "password", value := ascii "p" }) ∧
      KeywordVariant noConversions (ascii "ALTER USER u SET password 'p'")
        (ascii "ALTER USER u set password 'p'") ∧
      (∀ stmt, ¬ Accepts noConversions (ascii "ALTER USER u set password 'p'") stmt) ∧
      KeywordVariant noConversions (ascii "ALTER USER u SET password 'p'")
        (ascii "ALTER USER u SET PASSWORD 'p'") ∧
      Accepts noConversions (ascii "ALTER USER u SET PASSWORD 'p'") (.alterUser
        { name := ascii "u", property := ascii "PASSWORD", value := ascii "p" }) ∧
      ∀ env token a, (executeAlterUser env token a
        { name := ascii "u", property := ascii "PASSWORD", value := ascii "p" }).1.ok = false := by
  obtain ⟨-, hlower, hupper, -⟩ := parseSql_statements
  refine ⟨accepts_of_parseSql hlower, ?_, ?_, password_variant, accepts_of_parseSql hupper, ?_⟩
  · exact keywordVariant_of_respell (by decide) (by decide)
  · rintro stmt ⟨r, hr, hstmt⟩
    have hfails : parseSql noConversions (ascii "ALTER USER u set password 'p'")
        = .ok (.fail (ascii "Invalid ALTER USER syntax")) := by decide
    rw [hfails] at hr
    cases hr
    cases hstmt
  · exact fun env token a => executeAlterUser_unknown env token a (by decide)

end Server
end MiniTSDB
