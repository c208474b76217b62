import MiniTSDB.Os.Walk
import MiniTSDB.Sql.DeleteFrame
import MiniTSDB.Sql.DropErases

/-!
# What an `UPDATE` changes

It should change one point of its tag. It drops the directory that registers the tag, and writes
the point under the key of database, table and tag, which no `SELECT` reads. So a `SELECT` has the
new value only where it had it before, and the tag stays only where the parser takes the statement
to another table (`updateExact_iff`).
-/

namespace MiniTSDB
namespace Sql

open Lib Os Storage

/-! ## What an `UPDATE` is for -/

/-- A `SELECT` of the tag that has the time in its range, and no `LIMIT`. -/
structure Asks (stmt : SelectStmt) (x : Bytes) (ts : Timestamp) : Prop where
  tag : stmt.where_.tagFilter = x
  range : stmt.where_.timeRange.contains ts = true
  unlimited : stmt.limit ≤ 0

/-- Some `SELECT` of the tag may return the point, or some `SELECT LATEST`. -/
def MayReturn (env : Env Path) (ex : Executor Path) (x : Bytes) (p : DataPoint) : Prop :=
  (∃ sorts stmt entries, Asks stmt x p.ts ∧ (ex.engine.disk.tagDir env x).IsListing entries ∧
    p ∈ ex.rawPoints env sorts stmt entries) ∨
  ∃ stmt order, stmt.where_.tagFilter = x ∧ (x, p) ∈ ex.latestData stmt order

/-- Every `SELECT` of the tag returns the point, and no `SELECT LATEST` another one of its time. -/
structure Shows (env : Env Path) (ex : Executor Path) (x : Bytes) (p : DataPoint) : Prop where
  raw : ∀ sorts stmt entries, Asks stmt x p.ts →
    (ex.engine.disk.tagDir env x).IsListing entries → p ∈ ex.rawPoints env sorts stmt entries
  latest : ∀ stmt order q, stmt.where_.tagFilter = x → (x, q) ∈ ex.latestData stmt order →
    q.ts = p.ts → q = p

/-- The names that lead to a tag. -/
def TagName.place (name : TagName) : Path := tagPlace name.db name.table name.tag

/-- The tag is registered. -/
def TagName.Registered (name : TagName) (tiers : Tiers) : Prop :=
  tiers.tagExists name.db name.table name.tag = true

/-- An `UPDATE` of one point of `x` changes nothing else. -/
structure UpdateExact (env : Env Path) (t x : Bytes) (p : DataPoint)
    (ex ex' : Executor Path) : Prop where
  /-- the tag stays -/
  keeps : ex'.tiers.tagExists ex.currentDb t x = true
  /-- it has the new value -/
  shows : Shows env ex' x p
  /-- and the old ones at other times -/
  same : ∀ q, q.ts ≠ p.ts → (MayReturn env ex' x q ↔ MayReturn env ex x q)
  /-- every other tag is registered if it was -/
  registered : ∀ other : TagName, other.place ≠ tagPlace ex.currentDb t x →
    (other.Registered ex'.tiers ↔ other.Registered ex.tiers)
  /-- its files are what they were -/
  files : ∀ other : TagName, other.place ≠ tagPlace ex.currentDb t x →
    other.Registered ex.tiers → ∀ q, other.place <+: q →
      ex'.tiers.hot.node q = ex.tiers.hot.node q ∧ ex'.tiers.cold.node q = ex.tiers.cold.node q
  /-- and so are its points -/
  data : ∀ other : TagName, other.place ≠ tagPlace ex.currentDb t x →
    other.Registered ex.tiers → ∀ key ∈ tagKeys other.db other.table other.tag, ∀ q,
      HasPoint env ex' key q ↔ HasPoint env ex key q

/-- The point of an `UPDATE`. -/
def updatePoint (conv : Conversions) (value time : Bytes) : DataPoint where
  ts := conv.parseTimeString time
  value := .double ((conv.stod value).getD 0)

/-- No other tag has anything where the tag of this table is. -/
def OthersApart (ex : Executor Path) (t table x : Bytes) : Prop :=
  ∀ other : TagName, other.place ≠ tagPlace ex.currentDb t x → other.Registered ex.tiers →
    ∀ q, other.place <+: q → tagPlace ex.currentDb table x <+: q →
      ex.tiers.hot.node q = none ∧ ex.tiers.cold.node q = none

/-- What the system makes of the path of a key. -/
def ResolvesKeys (hot : Path) (env : Env Path) : Prop :=
  ∀ key, StaysBelow key → env.resolve key = hot ++ ascii "tags" :: components key

/-! ## Where the point is written -/

section Keys

variable {db table tag : Bytes}

/-- The key is below what is in front of the last slash of the database. -/
theorem components_flatKey (db : Bytes) (htable : slash ∉ table) (htag : slash ∉ tag) :
    ∃ front last, components (flatKey db table tag) = front ++ [flatKey last table tag] ∧
      components db = front ++ components last ∧
      (StaysBelow db → StaysBelow (flatKey db table tag)) := by
  cases last_slash db with
  | inl hslash =>
    have hname : IsName (flatKey db table tag) := isName_flatKey hslash htable htag
    refine ⟨[], db, ?_, rfl, fun _ => hname.staysBelow⟩
    rw [hname.components_eq, List.nil_append]
  | inr hsplit =>
    obtain ⟨dir, last, rfl, hslash⟩ := hsplit
    have hname : IsName (flatKey last table tag) := isName_flatKey hslash htable htag
    have hkey : flatKey (dir ++ slash :: last) table tag
        = dir ++ slash :: flatKey last table tag := by
      unfold flatKey
      simp only [List.append_assoc, List.cons_append]
    refine ⟨components dir, last, ?_, components_append dir last, ?_⟩
    · rw [hkey, components_append, hname.components_eq]
    · intro hbelow
      rw [staysBelow_append] at hbelow
      rw [hkey, staysBelow_append]
      exact ⟨hbelow.1, hname.staysBelow⟩

variable {hot : Path} {env : Env Path}

/-- A name of a tag leads elsewhere. -/
theorem resolve_ne_flatKey (henv : ResolvesKeys hot env) (hdb : StaysBelow db)
    (htable : ∀ c ∈ table, isNameChar c = true) (htag : ∀ c ∈ tag, isNameChar c = true) {y : Bytes}
    (hy : isValidName y 128 = true) :
    y ≠ flatKey db table tag ∧ env.resolve y ≠ env.resolve (flatKey db table tag) := by
  have hcolon : ∀ d, y ≠ flatKey d table tag := by
    intro d heq
    exact colon_notMem_of_isValidName hy (heq ▸ colon_mem_flatKey d table tag)
  refine ⟨hcolon db, ?_⟩
  obtain ⟨front, last, hcomponents, -, hbelow⟩ := components_flatKey db
    (notMem_of_chars htable (by decide)) (notMem_of_chars htag (by decide))
  intro heq
  have hname := isName_of_isValidName hy
  rw [henv y hname.staysBelow, henv _ (hbelow hdb), hname.components_eq, hcomponents] at heq
  have htail := (List.cons.inj (List.append_cancel_left heq)).2
  rw [← List.nil_append [y]] at htail
  exact hcolon last (List.append_singleton_inj.mp htail).2

/-- The key of another tag that leads to the same directory is one of a tag at the same place. -/
theorem place_of_resolve_eq (henv : ResolvesKeys hot env) (hdb : StaysBelow db)
    (htable : ∀ c ∈ table, isNameChar c = true) (htag : ∀ c ∈ tag, isNameChar c = true)
    {other : TagName} (h : env.resolve other.key = env.resolve (flatKey db table tag)) :
    other.place = tagPlace db table tag := by
  obtain ⟨front, last, hcomponents, hplace, hbelow⟩ := components_flatKey db
    (notMem_of_chars htable (by decide)) (notMem_of_chars htag (by decide))
  have hslash : ∀ {name : Bytes} {n : Nat}, isValidName name n = true → slash ∉ name :=
    fun hname => (isName_of_isValidName hname).noSlash
  have hname : IsName other.key :=
    isName_flatKey (hslash other.valid_db) (hslash other.valid_table) (hslash other.valid_tag)
  rw [henv _ hname.staysBelow, henv _ (hbelow hdb), hname.components_eq, hcomponents] at h
  have htail := (List.cons.inj (List.append_cancel_left h)).2
  rw [← List.nil_append [other.key]] at htail
  obtain ⟨hfront, hkey⟩ := List.append_singleton_inj.mp htail
  obtain ⟨hlast, heqTable, heqTag⟩ := flatKey_inj
    (colon_notMem_of_isValidName other.valid_table) (colon_notMem_of_isValidName other.valid_tag)
    (notMem_of_chars htable (by decide)) (notMem_of_chars htag (by decide)) hkey
  unfold TagName.place tagPlace tagsPlace
  rw [hplace, ← hfront, List.nil_append, ← hlast, heqTable, heqTag]

end Keys

/-! ## What the statement does -/

section Update

variable {hot : Path} {env : Env Path} {conv : Conversions} {pad : HeaderPad}
  {ex ex' : Executor Path} {t x value time : Bytes}

/-- What the text does. -/
theorem UpdateRuns.eq (ht : isValidName t 64 = true) (hx : isValidName x 128 = true)
    (hvalue : equals ∉ value)
    (h : UpdateRuns conv env pad ex (updateAtText t x value time) ex') :
    ∃ ts bits engine, ex.engine.write env pad
        (flatKey ex.currentDb (beforeKeyword (ascii "SET") t) x) { ts := ts, value := .double bits }
          = some engine ∧
      ex' = { ex with
        tiers := ex.tiers.dropTag ex.currentDb (beforeKeyword (ascii "SET") t) x
        engine := engine } := by
  obtain ⟨stmt, result, haccepts, hexecute, -⟩ := h
  have hparsed : ∃ newValue exactTime, Accepts conv (updateAtText t x value time) (.update
      { tableName := beforeKeyword (ascii "SET") t, tagFilter := x, exactTime := exactTime,
        newValue := newValue }) :=
    accepts_updateAtText conv (isTableName_of_isValidName ht) (chars_of_isValidName hx).2 hvalue
  obtain ⟨newValue, exactTime, hparsed⟩ := hparsed
  cases haccepts.unique hparsed
  unfold Executor.executeUpdate at hexecute
  obtain ⟨engine, hwrite, heq⟩ := Option.bind_eq_some_iff.mp hexecute
  cases heq
  exact ⟨_, _, engine, hwrite, rfl⟩

/-- And it does it always. -/
theorem exists_updateRuns (conv : Conversions) (env : Env Path) (pad : HeaderPad)
    (ex : Executor Path) (ht : isValidName t 64 = true) (hx : isValidName x 128 = true)
    (hvalue : equals ∉ value) (time : Bytes) :
    ∃ ex', UpdateRuns conv env pad ex (updateAtText t x value time) ex' := by
  have hparsed : ∃ newValue exactTime, Accepts conv (updateAtText t x value time) (.update
      { tableName := beforeKeyword (ascii "SET") t, tagFilter := x, exactTime := exactTime,
        newValue := newValue }) :=
    accepts_updateAtText conv (isTableName_of_isValidName ht) (chars_of_isValidName hx).2 hvalue
  obtain ⟨newValue, exactTime, hparsed⟩ := hparsed
  have hexecute : ∃ result ex', ex.executeUpdate env pad
      { tableName := beforeKeyword (ascii "SET") t, tagFilter := x, exactTime := exactTime,
        newValue := newValue } = some (result, ex') ∧ result.ok = true := by
    unfold Executor.executeUpdate
    rw [Engine.write_double]
    exact ⟨_, _, rfl, rfl⟩
  obtain ⟨result, ex', hexecute, hok⟩ := hexecute
  exact ⟨ex', _, result, hparsed, hexecute, hok⟩

/-- **No `SELECT` of a tag sees what is written under another key.** -/
theorem rawPoints_congr {engine : Engine Path} {tiers : Tiers}
    (hdir : engine.disk.tagDir env x = ex.engine.disk.tagDir env x)
    (hlatest : engine.latest.lookup x = ex.engine.latest.lookup x) (sorts : Sorts)
    {stmt : SelectStmt} (hstmt : stmt.where_.tagFilter = x) (entries : List DirEntry) :
    Executor.rawPoints env sorts { ex with tiers := tiers, engine := engine } stmt entries
      = ex.rawPoints env sorts stmt entries := by
  unfold Executor.rawPoints
  rw [hstmt, Engine.readRaw_congr hdir hlatest]

theorem shows_congr {engine : Engine Path} {tiers : Tiers} {p : DataPoint}
    (hdir : engine.disk.tagDir env x = ex.engine.disk.tagDir env x)
    (hlatest : engine.latest.lookup x = ex.engine.latest.lookup x) :
    Shows env { ex with tiers := tiers, engine := engine } x p ↔ Shows env ex x p := by
  constructor
  · intro h
    refine ⟨fun sorts stmt entries hasks hlist => ?_, h.latest⟩
    rw [← rawPoints_congr hdir hlatest sorts hasks.tag]
    exact h.raw sorts stmt entries hasks (by rw [hdir]; exact hlist)
  · intro h
    refine ⟨fun sorts stmt entries hasks hlist => ?_, h.latest⟩
    rw [rawPoints_congr hdir hlatest sorts hasks.tag]
    exact h.raw sorts stmt entries hasks (by rw [← hdir]; exact hlist)

theorem mayReturn_congr {engine : Engine Path} {tiers : Tiers} {p : DataPoint}
    (hdir : engine.disk.tagDir env x = ex.engine.disk.tagDir env x)
    (hlatest : engine.latest.lookup x = ex.engine.latest.lookup x) :
    MayReturn env { ex with tiers := tiers, engine := engine } x p ↔ MayReturn env ex x p := by
  refine or_congr_left ?_
  refine exists_congr fun sorts => exists_congr fun stmt => exists_congr fun entries => ?_
  refine and_congr_right fun hasks => ?_
  rw [rawPoints_congr hdir hlatest sorts hasks.tag, hdir]

/-- **The tag stays registered only where the statement goes to another table.** -/
theorem keeps_iff (hdb : StaysBelow ex.currentDb) (ht : isValidName t 64 = true)
    (hx : isValidName x 128 = true) (hthere : ex.tiers.tagExists ex.currentDb t x = true) :
    (ex.tiers.dropTag ex.currentDb (beforeKeyword (ascii "SET") t) x).tagExists ex.currentDb t x
        = true ↔ Mentions t (ascii "SET") := by
  have htable := isName_of_isValidName ht
  constructor
  · intro hkeeps
    by_contra hmentions
    rw [beforeKeyword_eq hmentions, tagExists_dropTag _ hdb htable.staysBelow
      (isName_of_isValidName hx)] at hkeeps
    cases hkeeps
  · intro hmentions
    have htags : t ≠ ascii "tags" := by
      intro heq
      rw [heq] at hmentions
      exact absurd hmentions (by decide)
    have hne : beforeKeyword (ascii "SET") t ≠ t := by
      intro heq
      have hlt := length_beforeKeyword_lt (by decide) hmentions
      rw [heq] at hlt
      exact Nat.lt_irrefl _ hlt
    rw [tagExists_eq _ hdb htable.staysBelow (isName_of_isValidName hx)] at hthere ⊢
    have hframe : (dropPath ex.tiers.hot (tagPath ex.currentDb (beforeKeyword (ascii "SET") t)
        x)).node (tagPlace ex.currentDb t x) = ex.tiers.hot.node (tagPlace ex.currentDb t x) :=
      node_dropPath_otherTable _ hdb htable htags
        (nil_or_isName_beforeKeyword _ (chars_of_isValidName ht).2) hne
        (.inr (isName_of_isValidName hx)) (List.prefix_append _ _)
    rw [Tiers.dropTag, hframe]
    exact hthere

theorem TagName.registered_iff (other : TagName) (tiers : Tiers) :
    other.Registered tiers ↔ (tiers.hot.node other.place).isSome = true := by
  unfold TagName.Registered TagName.place
  rw [tagExists_eq _ (isName_of_isValidName other.valid_db).staysBelow
    (isName_of_isValidName other.valid_table).staysBelow (isName_of_isValidName other.valid_tag)]

theorem staysBelow_beforeKeyword (kw : Bytes) (ht : isValidName t 64 = true) :
    StaysBelow (beforeKeyword kw t) := by
  rcases nil_or_isName_beforeKeyword kw (chars_of_isValidName ht).2 with hnil | hname
  · rw [hnil]
    exact staysBelow_nil
  · exact hname.staysBelow

/-- **What other tags lose.** -/
theorem othersApart_iff {table : Bytes} (hdb : StaysBelow ex.currentDb) (htable : StaysBelow table)
    (hx : isValidName x 128 = true) :
    OthersApart ex t table x ↔
      ∀ other : TagName, other.place ≠ tagPlace ex.currentDb t x → other.Registered ex.tiers →
        ∀ q, other.place <+: q →
          (ex.tiers.dropTag ex.currentDb table x).hot.node q = ex.tiers.hot.node q ∧
            (ex.tiers.dropTag ex.currentDb table x).cold.node q = ex.tiers.cold.node q := by
  have hnode : ∀ (tree : Tree) (q : Path), (dropPath tree (tagPath ex.currentDb table x)).node q =
      if tagPlace ex.currentDb table x <+: q then none else tree.node q :=
    fun tree q => node_dropPath_name tree hdb htable (isName_of_isValidName hx) q
  refine forall_congr' fun other => imp_congr_right fun _ => imp_congr_right fun _ => ?_
  refine forall_congr' fun q => imp_congr_right fun _ => ?_
  rw [Tiers.dropTag, hnode, hnode]
  by_cases hdropped : tagPlace ex.currentDb table x <+: q
  · rw [if_pos hdropped, if_pos hdropped]
    exact ⟨fun h => ⟨(h hdropped).1.symm, (h hdropped).2.symm⟩, fun h _ => ⟨h.1.symm, h.2.symm⟩⟩
  · rw [if_neg hdropped, if_neg hdropped]
    exact ⟨fun _ => ⟨rfl, rfl⟩, fun _ hyes => absurd hyes hdropped⟩

/-- Where they lose nothing, they are registered as before. -/
theorem OthersApart.registered_iff {table : Bytes} (h : OthersApart ex t table x)
    (hdb : StaysBelow ex.currentDb) (htable : StaysBelow table) (hx : isValidName x 128 = true)
    {other : TagName} (hother : other.place ≠ tagPlace ex.currentDb t x) :
    other.Registered (ex.tiers.dropTag ex.currentDb table x) ↔ other.Registered ex.tiers := by
  constructor
  · intro hregistered
    rw [TagName.registered_iff, Tiers.dropTag,
      node_dropPath_name _ hdb htable (isName_of_isValidName hx)] at hregistered
    split at hregistered
    case isTrue => cases hregistered
    case isFalse => exact (TagName.registered_iff _ _).mpr hregistered
  · intro hregistered
    have hsame := ((othersApart_iff hdb htable hx).mp h other hother hregistered _
      (List.prefix_refl _)).1
    rw [TagName.registered_iff] at hregistered ⊢
    rw [hsame]
    exact hregistered

/-- And the keys of a registered one lead elsewhere: a tag with the key that is written would be
where the statement drops one. -/
theorem OthersApart.key_apart {table : Bytes} (h : OthersApart ex t table x)
    (henv : ResolvesKeys hot env) (hdb : StaysBelow ex.currentDb)
    (hchars : ∀ c ∈ table, isNameChar c = true) (hx : isValidName x 128 = true) {other : TagName}
    (hother : other.place ≠ tagPlace ex.currentDb t x) (hregistered : other.Registered ex.tiers)
    {key : Bytes} (hkey : key ∈ tagKeys other.db other.table other.tag) :
    key ≠ flatKey ex.currentDb table x ∧
      env.resolve key ≠ env.resolve (flatKey ex.currentDb table x) := by
  rcases List.mem_cons.mp hkey with rfl | hkey
  · exact resolve_ne_flatKey henv hdb hchars (chars_of_isValidName hx).2 other.valid_tag
  · rw [List.mem_singleton.mp hkey]
    have hplace : env.resolve other.key ≠ env.resolve (flatKey ex.currentDb table x) := by
      intro heq
      have hplace := place_of_resolve_eq henv hdb hchars (chars_of_isValidName hx).2 heq
      have hnone := (h other hother hregistered _ (List.prefix_refl _) (by rw [hplace])).1
      rw [TagName.registered_iff, hnone] at hregistered
      cases hregistered
    exact ⟨fun heq => hplace (congrArg env.resolve heq), hplace⟩

/-- **An `UPDATE` is exact only where it need not have been made**: the text goes to another table,
nothing of another tag is where the tag of that table is, and a `SELECT` has the new value
already. -/
theorem updateExact_iff (henv : ResolvesKeys hot env) (hdb : StaysBelow ex.currentDb)
    (ht : isValidName t 64 = true) (hx : isValidName x 128 = true) (hvalue : equals ∉ value)
    (hthere : ex.tiers.tagExists ex.currentDb t x = true)
    (h : UpdateRuns conv env pad ex (updateAtText t x value time) ex') :
    UpdateExact env t x (updatePoint conv value time) ex ex' ↔
      Mentions t (ascii "SET") ∧ OthersApart ex t (beforeKeyword (ascii "SET") t) x ∧
        Shows env ex x (updatePoint conv value time) := by
  obtain ⟨ts, bits, engine, hwrite, rfl⟩ := h.eq ht hx hvalue
  have hchars : ∀ c ∈ beforeKeyword (ascii "SET") t, isNameChar c = true :=
    beforeKeyword_chars (chars_of_isValidName ht).2
  have htable : StaysBelow (beforeKeyword (ascii "SET") t) := staysBelow_beforeKeyword _ ht
  obtain ⟨hne, hapart⟩ := resolve_ne_flatKey henv hdb hchars (chars_of_isValidName hx).2 hx
  obtain ⟨-, hdir, hlatest⟩ := Engine.write_frame hwrite hne hapart
  constructor
  · intro hexact
    exact ⟨(keeps_iff hdb ht hx hthere).mp hexact.keeps,
      (othersApart_iff hdb htable hx).mpr hexact.files,
      (shows_congr hdir hlatest).mp hexact.shows⟩
  · rintro ⟨hmentions, hothers, hshows⟩
    constructor
    case keeps => exact (keeps_iff hdb ht hx hthere).mpr hmentions
    case shows => exact (shows_congr hdir hlatest).mpr hshows
    case same => exact fun q _ => mayReturn_congr hdir hlatest
    case files => exact (othersApart_iff hdb htable hx).mp hothers
    case registered => exact fun other hother => hothers.registered_iff hdb htable hx hother
    case data =>
      intro other hother hregistered key hkey q
      obtain ⟨hkeyNe, hkeyApart⟩ := hothers.key_apart henv hdb hchars hx hother hregistered hkey
      obtain ⟨hbuffer, hkeyDir, hkeyLatest⟩ := Engine.write_frame hwrite hkeyNe hkeyApart
      unfold HasPoint MemTable.Buffered
      rw [hbuffer, hkeyDir, hkeyLatest]

end Update

/-! ## An `UPDATE` that is not exact, and one that is -/

def keyEnv : Env Path where
  resolve key := [ascii "hot"] ++ ascii "tags" :: components key
  date _ := someDay

/-- The point of `x`. -/
def pointX : DataPoint := { ts := 0, value := .double 0 }

/-- An engine that has one point. -/
def engineX : Engine Path :=
  let fresh : Engine Path := .init keyEnv {} { dirs := fun _ => .empty } none
  (fresh.write keyEnv (.replicate 3 0) (ascii "x") pointX).getD fresh

theorem dir_engineX : engineX.disk.tagDir keyEnv (ascii "x") = .empty := by
  unfold engineX pointX
  dsimp only
  rw [Engine.init_none, Engine.write_double]
  rfl

theorem latest_engineX : engineX.latest.lookup (ascii "x") = some pointX := by
  unfold engineX pointX
  dsimp only
  rw [Engine.write_double, Option.getD_some]
  dsimp only
  rw [lookup_update, if_pos rfl]
  rfl

/-- The tag `x`, in this table of the database `d`. -/
def executorX (table : Bytes) : Executor Path where
  currentDb := ascii "d"
  engine := engineX
  tiers :=
    { hot := .ofDirs [[ascii "d", ascii "tables", table, ascii "tags", ascii "x"]]
      cold := .ofDirs [] }
  cache := ∅

/-- Without a `LIMIT` a `SELECT` returns what is read. -/
theorem mem_rawPoints {env : Env Path} {ex : Executor Path} {sorts : Sorts} {stmt : SelectStmt}
    (hlimit : stmt.limit ≤ 0) {entries : List DirEntry} {p : DataPoint} :
    p ∈ ex.rawPoints env sorts stmt entries ↔ p ∈ ex.engine.readRaw env sorts.asc
      stmt.where_.tagFilter stmt.where_.timeRange entries := by
  have hall : ¬ (stmt.limit > 0 ∧
      stmt.limit < (Executor.ordered sorts stmt (ex.engine.readRaw env sorts.asc
        stmt.where_.tagFilter stmt.where_.timeRange entries)).length) :=
    fun h => absurd h.1 (not_lt.mpr hlimit)
  unfold Executor.rawPoints Executor.limited
  rw [if_neg hall]
  unfold Executor.ordered
  split
  · split
    · exact (sorts.asc.perm _).mem_iff
    · exact (sorts.desc.perm _).mem_iff
  · rfl

theorem shows_executorX (table : Bytes) : Shows keyEnv (executorX table) (ascii "x") pointX where
  raw sorts stmt entries hasks hlist := by
    rw [mem_rawPoints hasks.unlimited, hasks.tag]
    have honly : ∀ q ∈ engineX.readCache (ascii "x") stmt.where_.timeRange ++
        readTables (engineX.disk.tagDir keyEnv (ascii "x")) entries stmt.where_.timeRange,
          q = pointX := by
      intro q hq
      rcases List.mem_append.mp hq with hq | hq
      · have hlookup := ((mem_readCache engineX).mp hq).2.1
        rw [latest_engineX] at hlookup
        exact (Option.some.inj hlookup).symm
      · obtain ⟨name, data, -, hread, -⟩ := (mem_readTables hlist).mp hq
        change (engineX.disk.tagDir keyEnv (ascii "x")).readFile name = some data at hread
        rw [dir_engineX, Dir.readFile, Dir.lookup_empty] at hread
        cases hread
    have hcached : pointX ∈ engineX.readCache (ascii "x") stmt.where_.timeRange :=
      (mem_readCache engineX).mpr ⟨by decide, latest_engineX, hasks.range⟩
    exact forall_sort_mem_iff.mpr ⟨List.mem_append_left _ hcached, fun q hq _ => honly q hq⟩
      sorts.asc
  latest stmt order q hstmt hq := by
    unfold Executor.latestData at hq
    rw [hstmt, if_pos (by decide)] at hq
    cases hq

theorem resolvesKeys_keyEnv : ResolvesKeys [ascii "hot"] keyEnv := fun _ _ => rfl

/-- `UPDATE offset SET value=0 WHERE tag='x' AND timestamp='0'`, of a point that is so already. -/
theorem updateExact_offset : ∃ ex', UpdateExact keyEnv (ascii "offset") (ascii "x")
    (updatePoint zeroConversions (ascii "0") (ascii "0")) (executorX (ascii "offset")) ex' := by
  have hvalue : equals ∉ ascii "0" := by decide
  obtain ⟨ex', hruns⟩ := exists_updateRuns (t := ascii "offset") (x := ascii "x") zeroConversions
    keyEnv (.replicate 3 0) (executorX (ascii "offset")) rfl rfl hvalue (ascii "0")
  have hplace : tagPlace (ascii "d") (beforeKeyword (ascii "SET") (ascii "offset")) (ascii "x")
      = [ascii "d", ascii "tables", ascii "off", ascii "tags", ascii "x"] := by decide
  have hothers : OthersApart (executorX (ascii "offset")) (ascii "offset")
      (beforeKeyword (ascii "SET") (ascii "offset")) (ascii "x") := by
    intro other _ _ q _ hdropped
    change tagPlace (ascii "d") _ _ <+: q at hdropped
    rw [hplace] at hdropped
    have hne : q ≠ [] := by
      intro hnil
      rw [hnil, List.prefix_nil] at hdropped
      cases hdropped
    constructor
    · change (if _ then _ else none) = none
      rw [if_neg]
      rintro (hnil | ⟨dir, hdir, hle⟩)
      · exact hne hnil
      · rw [List.mem_singleton.mp hdir] at hle
        exact absurd (hdropped.trans hle) (by decide)
    · change (if _ then _ else none) = none
      rw [if_neg]
      rintro (hnil | ⟨dir, hdir, -⟩)
      · exact hne hnil
      · cases hdir
  exact ⟨ex', (updateExact_iff resolvesKeys_keyEnv staysBelow_d rfl rfl hvalue (by decide)
    hruns).mpr ⟨by decide, hothers, shows_executorX _⟩⟩

/-- **The tag is not registered any more** after an `UPDATE` of a point that is stored. -/
theorem update_unregisters : ∃ ex', UpdateRuns zeroConversions keyEnv (.replicate 3 0)
      (executorX (ascii "t")) (updateAtText (ascii "t") (ascii "x") (ascii "0") (ascii "0")) ex' ∧
    (executorX (ascii "t")).tiers.tagExists (ascii "d") (ascii "t") (ascii "x") = true ∧
    Shows keyEnv (executorX (ascii "t")) (ascii "x") pointX ∧
    ¬ UpdateExact keyEnv (ascii "t") (ascii "x")
      (updatePoint zeroConversions (ascii "0") (ascii "0")) (executorX (ascii "t")) ex' := by
  have hvalue : equals ∉ ascii "0" := by decide
  obtain ⟨ex', hruns⟩ := exists_updateRuns (t := ascii "t") (x := ascii "x") zeroConversions
    keyEnv (.replicate 3 0) (executorX (ascii "t")) rfl rfl hvalue (ascii "0")
  have hthere : (executorX (ascii "t")).tiers.tagExists (ascii "d") (ascii "t") (ascii "x")
      = true := by decide
  refine ⟨ex', hruns, hthere, shows_executorX _, ?_⟩
  intro hexact
  have hkeeps := hexact.keeps
  obtain ⟨ts, bits, engine, -, rfl⟩ := hruns.eq rfl rfl hvalue
  have hmentions := (keeps_iff staysBelow_d rfl rfl hthere).mp hkeeps
  exact absurd hmentions (by decide)

end Sql
end MiniTSDB
