import MiniTSDB.Sql.Dml

/-!
# What a `DELETE` removes

It should remove the points of its tag in its interval. It removes the directory that registers
the tag, and no point of the engine; with a space before the `=` the tag is not found, and the
directory is the one of all the tags of the table. Only a name that ends early turns the statement
to another table.
-/

namespace MiniTSDB
namespace Sql

open Lib Os Storage

variable {Loc : Type}

/-- The keys under which data of a tag may be: its name, which an `INSERT` uses, and the one of an
`UPDATE`. -/
def tagKeys (db table tag : Bytes) : List Bytes := [tag, flatKey db table tag]

/-- A point that can be had under the key: it is buffered, stored, or a latest one. -/
def HasPoint (env : Env Loc) (ex : Executor Loc) (key : Bytes) (p : DataPoint) : Prop :=
  ex.engine.memTable.Buffered key p ∨ HoldsPoint (ex.engine.disk.tagDir env key) p ∨
    ex.engine.latest.lookup key = some p ∨ ex.cache.lookup key = some p

/-- A `DELETE` of the points of `x` in the range touches nothing else of the table. -/
structure DeleteExact (env : Env Loc) (t x : Bytes) (range : TimeRange)
    (ex ex' : Executor Loc) : Prop where
  /-- every other tag is registered if it was -/
  registered : ∀ y, isValidName y 128 = true → y ≠ x →
    ex'.tiers.tagExists ex.currentDb t y = ex.tiers.tagExists ex.currentDb t y
  /-- the files of every other registered tag are what they were -/
  files : ∀ y, isValidName y 128 = true → y ≠ x → ex.tiers.tagExists ex.currentDb t y = true →
    ∀ q, tagPlace ex.currentDb t y <+: q →
      ex'.tiers.hot.node q = ex.tiers.hot.node q ∧ ex'.tiers.cold.node q = ex.tiers.cold.node q
  /-- and so are its points -/
  data : ∀ y, isValidName y 128 = true → y ≠ x → ex.tiers.tagExists ex.currentDb t y = true →
    ∀ key ∈ tagKeys ex.currentDb t y, ∀ p, HasPoint env ex' key p ↔ HasPoint env ex key p
  /-- the tag itself stays -/
  keeps : ex.tiers.tagExists ex.currentDb t x = true →
    ex'.tiers.tagExists ex.currentDb t x = true
  /-- its points in the range go, and no others -/
  removes : ∀ key ∈ tagKeys ex.currentDb t x, ∀ p,
    HasPoint env ex' key p ↔ HasPoint env ex key p ∧ range.contains p.ts = false

/-- Nothing is registered that the `DELETE` would drop: the tag, or with a space before the `=`
any tag of the table. -/
def NothingToDrop (ex : Executor Loc) (t x : Bytes) (gap : Nat) : Prop :=
  if gap = 0 then ex.tiers.tagExists ex.currentDb t x = false
  else ∀ y, isValidName y 128 = true → ex.tiers.tagExists ex.currentDb t y = false

/-- The tag has no point in the range. -/
def NoneInRange (env : Env Loc) (ex : Executor Loc) (t x : Bytes) (range : TimeRange) : Prop :=
  ∀ key ∈ tagKeys ex.currentDb t x, ∀ p, HasPoint env ex key p → range.contains p.ts = false

theorem isTableName_of_isValidName {t : Bytes} {maxLen : Nat} (h : isValidName t maxLen = true) :
    IsTableName t := ⟨(chars_of_isValidName h).1, (chars_of_isValidName h).2⟩

/-- A name that mentions the keyword is not that of `tags`. -/
theorem ne_tags_of_mentions {t kw : Bytes} (hkw : 4 < kw.length) (h : Mentions t kw) :
    t ≠ ascii "tags" := by
  intro heq
  have hlen := h.length_le
  rw [length_toUpper, heq] at hlen
  exact absurd hlen (Nat.not_le_of_lt hkw)

/-- What is in front of the keyword is a name, or nothing. -/
theorem nil_or_isName_beforeKeyword (kw : Bytes) {t : Bytes}
    (ht : ∀ c ∈ t, isNameChar c = true) : beforeKeyword kw t = [] ∨ IsName (beforeKeyword kw t) := by
  by_cases hnil : beforeKeyword kw t = []
  · exact .inl hnil
  · exact .inr (isName_of_chars hnil (beforeKeyword_chars ht))

section Frame

variable {env : Env Loc} {conv : Conversions} {ex ex' : Executor Loc} {t x s e : Bytes}
  {gap gap' : Nat} {range : TimeRange}

/-- What the text does. -/
theorem DeleteRuns.eq (ht : isValidName t 64 = true) (hx : isValidName x 128 = true)
    (hs : equals ∉ s) (he : equals ∉ e)
    (h : DeleteRuns conv ex (deleteText t x s e gap gap') ex') : ex' = { ex with
      tiers := ex.tiers.dropTag ex.currentDb (beforeKeyword (ascii "WHERE") t)
        (if gap = 0 then x else []) } := by
  obtain ⟨stmt, haccepts, rfl⟩ := h
  have hparsed : ∃ range, Accepts conv (deleteText t x s e gap gap') (.delete
      { tableName := beforeKeyword (ascii "WHERE") t, tagFilter := if gap = 0 then x else [],
        timeRange := range }) :=
    accepts_deleteText conv (isTableName_of_isValidName ht) (chars_of_isValidName hx).2 hs he
  obtain ⟨range, hparsed⟩ := hparsed
  cases haccepts.unique hparsed
  rfl

theorem exists_deleteRuns (ex : Executor Loc) (ht : isValidName t 64 = true)
    (hx : isValidName x 128 = true) (hs : equals ∉ s) (he : equals ∉ e) :
    ∃ ex', DeleteRuns conv ex (deleteText t x s e gap gap') ex' := by
  obtain ⟨range, haccepts⟩ := accepts_deleteText (t := t) (x := x) conv
    (isTableName_of_isValidName ht) (chars_of_isValidName hx).2 hs he
  exact ⟨_, _, haccepts, rfl⟩

/-- A text that goes to another table drops nothing of this one. -/
theorem node_dropTag_mentions (tree : Tree) {db : Bytes} {q : Path} (hdb : StaysBelow db)
    (ht : isValidName t 64 = true) (hx : isValidName x 128 = true)
    (hmentions : Mentions t (ascii "WHERE")) (hq : tagsPlace db t <+: q) :
    (dropPath tree (tagPath db (beforeKeyword (ascii "WHERE") t)
      (if gap = 0 then x else []))).node q = tree.node q := by
  have htag : (if gap = 0 then x else []) = [] ∨ IsName (if gap = 0 then x else []) := by
    split
    case isTrue => exact .inr (isName_of_isValidName hx)
    case isFalse => exact .inl rfl
  have hne : beforeKeyword (ascii "WHERE") t ≠ t := by
    intro heq
    have hlt := length_beforeKeyword_lt (by decide) hmentions
    rw [heq] at hlt
    exact Nat.lt_irrefl _ hlt
  exact node_dropPath_otherTable tree hdb (isName_of_isValidName ht)
    (ne_tags_of_mentions (by decide) hmentions)
    (nil_or_isName_beforeKeyword _ (chars_of_isValidName ht).2) hne htag hq

/-- Nothing of the engine changes, so no point goes. -/
theorem deleteExact_of_tiers {tiers : Tiers} (hnone : NoneInRange env ex t x range)
    (hregistered : ∀ y, isValidName y 128 = true → y ≠ x →
      tiers.tagExists ex.currentDb t y = ex.tiers.tagExists ex.currentDb t y)
    (hfiles : ∀ y, isValidName y 128 = true → y ≠ x →
      ex.tiers.tagExists ex.currentDb t y = true → ∀ q, tagPlace ex.currentDb t y <+: q →
        tiers.hot.node q = ex.tiers.hot.node q ∧ tiers.cold.node q = ex.tiers.cold.node q)
    (hkeeps : ex.tiers.tagExists ex.currentDb t x = true →
      tiers.tagExists ex.currentDb t x = true) :
    DeleteExact env t x range ex { ex with tiers := tiers } where
  registered := hregistered
  files := hfiles
  data _ _ _ _ _ _ _ := Iff.rfl
  keeps := hkeeps
  removes key hkey p := ⟨fun hp => ⟨hp, hnone key hkey p hp⟩, fun hp => hp.1⟩

/-- Only where nothing is registered that it would drop does a text leave the tags of its own
table registered. -/
theorem nothingToDrop_of_registered (hdb : StaysBelow ex.currentDb) (ht : isValidName t 64 = true)
    (hx : isValidName x 128 = true)
    (hregistered : ∀ y, isValidName y 128 = true → y ≠ x →
      (ex.tiers.dropTag ex.currentDb t (if gap = 0 then x else [])).tagExists ex.currentDb t y
        = ex.tiers.tagExists ex.currentDb t y)
    (hkeeps : ex.tiers.tagExists ex.currentDb t x = true →
      (ex.tiers.dropTag ex.currentDb t (if gap = 0 then x else [])).tagExists ex.currentDb t x
        = true) : NothingToDrop ex t x gap := by
  have hbelow := (isName_of_isValidName ht).staysBelow
  unfold NothingToDrop
  split
  case isTrue hgap =>
    rw [if_pos hgap, tagExists_dropTag _ hdb hbelow (isName_of_isValidName hx)] at hkeeps
    exact Bool.eq_false_of_not_eq_true fun hthere => absurd (hkeeps hthere) (by decide)
  case isFalse hgap =>
    intro y hy
    rw [if_neg hgap] at hkeeps hregistered
    by_cases hyx : y = x
    · rw [tagExists_dropTag_nil _ hdb hbelow (isName_of_isValidName hx)] at hkeeps
      rw [hyx]
      exact Bool.eq_false_of_not_eq_true fun hthere => absurd (hkeeps hthere) (by decide)
    · rw [← hregistered y hy hyx]
      exact tagExists_dropTag_nil _ hdb hbelow (isName_of_isValidName hy)

/-- A text that goes to another table. -/
theorem deleteExact_elsewhere (hdb : StaysBelow ex.currentDb) (ht : isValidName t 64 = true)
    (hx : isValidName x 128 = true) (hmentions : Mentions t (ascii "WHERE"))
    (hnone : NoneInRange env ex t x range) : DeleteExact env t x range ex { ex with
      tiers := ex.tiers.dropTag ex.currentDb (beforeKeyword (ascii "WHERE") t)
        (if gap = 0 then x else []) } := by
  have hbelow := (isName_of_isValidName ht).staysBelow
  have hframe : ∀ (y : Bytes) (tree : Tree) (q : Path), tagPlace ex.currentDb t y <+: q →
      (dropPath tree (tagPath ex.currentDb (beforeKeyword (ascii "WHERE") t)
        (if gap = 0 then x else []))).node q = tree.node q :=
    fun y tree q hq => node_dropTag_mentions tree hdb ht hx hmentions
      ((List.prefix_append _ _).trans hq)
  have hregistered : ∀ y, isValidName y 128 = true →
      (ex.tiers.dropTag ex.currentDb (beforeKeyword (ascii "WHERE") t)
        (if gap = 0 then x else [])).tagExists ex.currentDb t y
          = ex.tiers.tagExists ex.currentDb t y := by
    intro y hy
    rw [tagExists_eq _ hdb hbelow (isName_of_isValidName hy),
      tagExists_eq _ hdb hbelow (isName_of_isValidName hy), Tiers.dropTag,
      hframe y _ _ (List.prefix_refl _)]
  apply deleteExact_of_tiers hnone (fun y hy _ => hregistered y hy)
  · exact fun y _ _ _ q hq => ⟨hframe y _ q hq, hframe y _ q hq⟩
  · intro hthere
    rw [hregistered x hx, hthere]

/-- A text that drops one tag, which is not registered. -/
theorem deleteExact_unregistered (hdb : StaysBelow ex.currentDb) (ht : isValidName t 64 = true)
    (hx : isValidName x 128 = true) (hnot : ex.tiers.tagExists ex.currentDb t x = false)
    (hnone : NoneInRange env ex t x range) :
    DeleteExact env t x range ex { ex with tiers := ex.tiers.dropTag ex.currentDb t x } := by
  have hbelow := (isName_of_isValidName ht).staysBelow
  have hframe : ∀ y, isValidName y 128 = true → y ≠ x → ∀ (tree : Tree) (q : Path),
      tagPlace ex.currentDb t y <+: q →
        (dropPath tree (tagPath ex.currentDb t x)).node q = tree.node q :=
    fun y hy hyx tree q hq => node_dropPath_otherTag tree hdb hbelow
      (isName_of_isValidName hy) (isName_of_isValidName hx) (Ne.symm hyx) hq
  apply deleteExact_of_tiers hnone
  · intro y hy hyx
    rw [tagExists_eq _ hdb hbelow (isName_of_isValidName hy),
      tagExists_eq _ hdb hbelow (isName_of_isValidName hy), Tiers.dropTag,
      hframe y hy hyx _ _ (List.prefix_refl _)]
  · exact fun y hy hyx _ q hq => ⟨hframe y hy hyx _ q hq, hframe y hy hyx _ q hq⟩
  · intro hthere
    rw [hnot] at hthere
    cases hthere

/-- A text that drops all the tags of its table, of which there are none. -/
theorem deleteExact_untagged (hdb : StaysBelow ex.currentDb) (ht : isValidName t 64 = true)
    (hx : isValidName x 128 = true)
    (hnot : ∀ y, isValidName y 128 = true → ex.tiers.tagExists ex.currentDb t y = false)
    (hnone : NoneInRange env ex t x range) :
    DeleteExact env t x range ex { ex with tiers := ex.tiers.dropTag ex.currentDb t [] } := by
  have hbelow := (isName_of_isValidName ht).staysBelow
  apply deleteExact_of_tiers hnone
  · intro y hy _
    rw [hnot y hy]
    exact tagExists_dropTag_nil _ hdb hbelow (isName_of_isValidName hy)
  · intro y hy _ hthere
    rw [hnot y hy] at hthere
    cases hthere
  · intro hthere
    rw [hnot x hx] at hthere
    cases hthere

/-- **A `DELETE` is exact only where it does nothing**: the text goes to another table, or nothing
is registered that it would drop, and no point of the tag is in the range. -/
theorem deleteExact_iff (hdb : StaysBelow ex.currentDb) (ht : isValidName t 64 = true)
    (hx : isValidName x 128 = true) (hs : equals ∉ s) (he : equals ∉ e)
    (h : DeleteRuns conv ex (deleteText t x s e gap gap') ex') :
    DeleteExact env t x { start := conv.parseTimeString s, stop := conv.parseTimeString e } ex ex' ↔
      (Mentions t (ascii "WHERE") ∨ NothingToDrop ex t x gap) ∧
        NoneInRange env ex t x
          { start := conv.parseTimeString s, stop := conv.parseTimeString e } := by
  rw [h.eq ht hx hs he]
  constructor
  · intro hexact
    constructor
    · by_cases hmentions : Mentions t (ascii "WHERE")
      · exact .inl hmentions
      · have hkeeps := hexact.keeps
        have hregistered := hexact.registered
        simp only [beforeKeyword_eq hmentions] at hkeeps hregistered
        exact .inr (nothingToDrop_of_registered hdb ht hx hregistered hkeeps)
    · intro key hkey p hp
      exact ((hexact.removes key hkey p).mp hp).2
  · rintro ⟨hdrops, hnone⟩
    by_cases hmentions : Mentions t (ascii "WHERE")
    · exact deleteExact_elsewhere hdb ht hx hmentions hnone
    · have hnothing := hdrops.resolve_left hmentions
      unfold NothingToDrop at hnothing
      rw [beforeKeyword_eq hmentions]
      split at hnothing
      case isTrue hgap =>
        rw [if_pos hgap]
        exact deleteExact_unregistered hdb ht hx hnothing hnone
      case isFalse hgap =>
        rw [if_neg hgap]
        exact deleteExact_untagged hdb ht hx hnothing hnone

end Frame

/-- Every numeral and every time is 0. -/
def zeroConversions : Conversions := { stod := fun _ => some 0, parseTimeString := fun _ => 0 }

/-- An executor with nothing written, on the database `d`. -/
def executorOn (dirs : List Path) : Executor Bytes where
  currentDb := ascii "d"
  engine := freshSession.engine
  tiers := { hot := .ofDirs dirs, cold := .ofDirs [] }
  cache := ∅

theorem staysBelow_d : StaysBelow (ascii "d") := by
  unfold StaysBelow
  decide

theorem not_hasPoint_executorOn (dirs : List Path) (key : Bytes) (p : DataPoint) :
    ¬ HasPoint plainEnv (executorOn dirs) key p := by
  unfold HasPoint executorOn
  rw [freshSession_eq]
  rintro (hbuffered | hstored | hlatest | hcached)
  · cases hbuffered
  · obtain ⟨name, -, hmem⟩ := hstored
    cases hmem
  · cases hlatest
  · cases hcached

/-- A `DELETE` that has nothing to do is exact. -/
theorem deleteExact_nothing : ∃ ex', DeleteExact plainEnv (ascii "t") (ascii "x")
    { start := 0, stop := 0 } (executorOn []) ex' := by
  have hruns : ∃ ex', DeleteRuns zeroConversions (executorOn [])
      (deleteText (ascii "t") (ascii "x") (ascii "0") (ascii "0") 0 0) ex' :=
    exists_deleteRuns _ rfl rfl (by decide) (by decide)
  obtain ⟨ex', hruns⟩ := hruns
  have hnothing : NothingToDrop (executorOn []) (ascii "t") (ascii "x") 0 := by
    rw [NothingToDrop, if_pos rfl]
    decide
  have hnone : NoneInRange plainEnv (executorOn []) (ascii "t") (ascii "x")
      { start := 0, stop := 0 } :=
    fun key _ p hp => absurd hp (not_hasPoint_executorOn [] key p)
  exact ⟨ex', (deleteExact_iff staysBelow_d rfl rfl (by decide) (by decide) hruns).mpr
    ⟨.inr hnothing, hnone⟩⟩

/-- Two tags of one table. -/
def twoTags : Executor Bytes :=
  executorOn [[ascii "d", ascii "tables", ascii "t", ascii "tags", ascii "x"],
    [ascii "d", ascii "tables", ascii "t", ascii "tags", ascii "y"]]

/-- `DELETE FROM t WHERE tag = 'x' AND timestamp BETWEEN '0' AND '1'` takes `y` away. -/
theorem delete_drops_other : ∃ ex', DeleteRuns zeroConversions twoTags
      (deleteText (ascii "t") (ascii "x") (ascii "0") (ascii "1") 1 1) ex' ∧
    twoTags.tiers.tagExists (ascii "d") (ascii "t") (ascii "y") = true ∧
      ¬ DeleteExact plainEnv (ascii "t") (ascii "x") { start := 0, stop := 0 } twoTags ex' := by
  have hruns : ∃ ex', DeleteRuns zeroConversions twoTags
      (deleteText (ascii "t") (ascii "x") (ascii "0") (ascii "1") 1 1) ex' :=
    exists_deleteRuns _ rfl rfl (by decide) (by decide)
  obtain ⟨ex', hruns⟩ := hruns
  have hthere : twoTags.tiers.tagExists (ascii "d") (ascii "t") (ascii "y") = true := by decide
  have hy : isValidName (ascii "y") 128 = true := rfl
  refine ⟨ex', hruns, hthere, ?_⟩
  intro hexact
  have hsame := hexact.registered (ascii "y") hy (by decide)
  have htable : StaysBelow (ascii "t") := by
    unfold StaysBelow
    decide
  have hgone := tagExists_dropTag_nil twoTags.tiers staysBelow_d htable (isName_of_isValidName hy)
  have heq := hruns.eq rfl rfl (by decide) (by decide)
  rw [beforeKeyword_eq (by decide), if_neg (by decide)] at heq
  rw [heq] at hsame
  have hcontra : false = true := hgone.symm.trans (hsame.trans hthere)
  cases hcontra

end Sql
end MiniTSDB
