import MiniTSDB.Os.Listing
import MiniTSDB.Sql.Registration

/-!
# The catalog of each database

What the statements say there should be: in each database its tables, and their tags. The
directories of the hot tier are to show just that (`TreeShows`), after any statements in any
databases (`TreeShows.after`).

Two things are not as one might expect. `CREATE DATABASE` makes the directory of the tags of a table
without a name, which is that of a table called `tags`; and `DROP DATABASE` takes the tables of the
current database along.
-/

namespace MiniTSDB
namespace Sql

open Lib Os Storage

/-! ## Catalogs -/

/-- The tables of a database, and the tags with their tables. -/
structure Catalog where
  tables : Set Bytes
  tags : Set (Bytes × Bytes)

namespace Catalog

def empty : Catalog := { tables := ∅, tags := ∅ }

def withTable (c : Catalog) (table : Bytes) : Catalog := { c with tables := insert table c.tables }

/-- The first tag of a table makes the table. -/
def withTag (c : Catalog) (table tag : Bytes) : Catalog where
  tables := insert table c.tables
  tags := insert (table, tag) c.tags

def withoutTable (c : Catalog) (table : Bytes) : Catalog where
  tables := c.tables \ {table}
  tags := {e | e ∈ c.tags ∧ e.1 ≠ table}

/-- A tag without a name stands for all of them. -/
def withoutTag (c : Catalog) (table tag : Bytes) : Catalog :=
  { c with tags := {e | e ∈ c.tags ∧ ¬ (e.1 = table ∧ (tag = [] ∨ e.2 = tag))} }

end Catalog

/-- A catalog for each database. -/
abbrev Catalogs := Bytes → Catalog

/-- What a statement makes of the catalogs, in the current database. -/
def Catalogs.after (cs : Catalogs) (db : Bytes) : SQLStmt → Catalogs
  | .createDatabase name =>
    if isValidName name 64 then Function.update cs name ((cs name).withTable (ascii "tags")) else cs
  | .createTable stmt =>
    if isValidName stmt.tableName 64 then Function.update cs db ((cs db).withTable stmt.tableName)
    else cs
  | .createTags stmt =>
    Function.update cs db
      ((createdTags stmt).foldl (fun c tagDef => c.withTag stmt.tableName tagDef.name) (cs db))
  | .dropDatabase name => Function.update (Function.update cs db .empty) name .empty
  | .dropTable table => Function.update cs db ((cs db).withoutTable table)
  | .dropTag stmt => Function.update cs db ((cs db).withoutTag stmt.tableName stmt.tagName)
  | .delete stmt => Function.update cs db ((cs db).withoutTag stmt.tableName stmt.tagFilter)
  | .update stmt => Function.update cs db ((cs db).withoutTag stmt.tableName stmt.tagFilter)
  | _ => cs

/-- A database that can be used. The directory `tags` of the hot tier is that of the engine's
files. -/
def IsDatabase (db : Bytes) : Prop := IsName db ∧ db ≠ ascii "tags"

/-- What is named in a statement has the form of a name; only the tag may be left out. The database
that is dropped is found where it is. -/
def Named (paths : DataPaths) : SQLStmt → Prop
  | .use name => IsDatabase name
  | .createTags stmt => IsName stmt.tableName
  | .dropDatabase name =>
    isValidName name 64 = true ∧ databaseDir paths name = paths.hot ++ slash :: name
  | .dropTable table => IsName table
  | .dropTag stmt => IsName stmt.tableName ∧ (IsName stmt.tagName ∨ stmt.tagName = [])
  | .delete stmt => IsName stmt.tableName ∧ (IsName stmt.tagFilter ∨ stmt.tagFilter = [])
  | .update stmt => IsName stmt.tableName ∧ (IsName stmt.tagFilter ∨ stmt.tagFilter = [])
  | _ => True

/-! ## What the directories show -/

/-- The directories at the place of its tables show the catalog. -/
structure ShowsAt (place : Path) (t : Tree) (c : Catalog) : Prop where
  /-- no file is in the way -/
  clear : ∀ q, Near place q → ∀ data, t.node q ≠ some (.file data)
  tables : ∀ table, (t.node (place ++ [table])).isSome = true ↔ table ∈ c.tables
  tags : ∀ table tag,
    (t.node (place ++ [table, ascii "tags", tag])).isSome = true ↔ (table, tag) ∈ c.tags

section Place

variable {place : Path} {t t' : Tree} {c : Catalog}

/-- What is below the place decides. -/
theorem ShowsAt.congr (h : ShowsAt place t c)
    (hclear : ∀ q, Near place q → ∀ data, t'.node q ≠ some (.file data))
    (hsame : ∀ name rest, t'.node (place ++ name :: rest) = t.node (place ++ name :: rest)) :
    ShowsAt place t' c where
  clear := hclear
  tables table := by rw [hsame, h.tables]
  tags table tag := by rw [hsame, h.tags]

/-- Directories are made on the way to something below the place. -/
theorem ShowsAt.makes {name : Bytes} {rest : Path} (h : ShowsAt place t c)
    (hnode : ∀ q, t'.node q = if q <+: place ++ name :: rest then some .dir else t.node q) :
    ShowsAt place t'
      { tables := insert name c.tables
        tags := {e | [e.1, ascii "tags", e.2] <+: name :: rest} ∪ c.tags } where
  clear q hq data := by
    rw [hnode]
    split
    · exact fun heq => nomatch heq
    · exact h.clear q hq data
  tables table := by
    rw [hnode, Set.mem_insert_iff, ← h.tables]
    split
    case isTrue hle =>
      rw [List.prefix_append_right_inj, List.cons_prefix_cons] at hle
      exact ⟨fun _ => .inl hle.1, fun _ => rfl⟩
    case isFalse hnot =>
      rw [List.prefix_append_right_inj, List.cons_prefix_cons] at hnot
      exact ⟨.inr, fun hmem => hmem.resolve_left fun heq => hnot ⟨heq, List.nil_prefix⟩⟩
  tags table tag := by
    rw [hnode, Set.mem_union, ← h.tags]
    split
    case isTrue hle =>
      rw [List.prefix_append_right_inj] at hle
      exact ⟨fun _ => .inl hle, fun _ => rfl⟩
    case isFalse hnot =>
      rw [List.prefix_append_right_inj] at hnot
      exact ⟨.inr, fun hmem => hmem.resolve_left hnot⟩

/-- What is below the place, or further down, goes. -/
theorem ShowsAt.cuts {rest : Path} (h : ShowsAt place t c) (hsub : t'.Sub t)
    (hnode : ∀ name below, t'.node (place ++ name :: below) =
      if rest <+: name :: below then none else t.node (place ++ name :: below)) :
    ShowsAt place t'
      { tables := {table | table ∈ c.tables ∧ ¬ rest <+: [table]}
        tags := {e | e ∈ c.tags ∧ ¬ rest <+: [e.1, ascii "tags", e.2]} } where
  clear q hq data hfile := h.clear q hq data (hsub q _ hfile)
  tables table := by
    rw [hnode, Set.mem_ofPred_eq, ← h.tables]
    split
    case isTrue hle => exact ⟨fun hnone => (nomatch hnone), fun hmem => absurd hle hmem.2⟩
    case isFalse hnot => exact ⟨fun hthere => ⟨hthere, hnot⟩, And.left⟩
  tags table tag := by
    rw [hnode, Set.mem_ofPred_eq, ← h.tags]
    split
    case isTrue hle => exact ⟨fun hnone => (nomatch hnone), fun hmem => absurd hle hmem.2⟩
    case isFalse hnot => exact ⟨fun hthere => ⟨hthere, hnot⟩, And.left⟩

/-- A directory of the database is there just when there is anything. -/
theorem ShowsAt.node_eq_dir {q : Path} (h : ShowsAt place t c) (hq : Near place q) :
    t.node q = some .dir ↔ (t.node q).isSome = true := by
  cases hnode : t.node q with
  | none => simp
  | some node =>
    cases node with
    | dir => simp
    | file data => exact absurd hnode (h.clear q hq data)

end Place

section Ops

variable {place : Path} {t : Tree} {c : Catalog} {path : Bytes}

theorem ShowsAt.create_elsewhere (h : ShowsAt place t c) (hpath : StaysBelow path)
    (helse : ∀ name rest, ¬ place ++ name :: rest <+: components path) :
    ShowsAt place (t.createDirectories path) c := by
  apply h.congr
  · intro q hq data
    rcases node_createDirectories_or hpath q with hsame | ⟨-, hmade, -⟩
    · rw [hsame]
      exact h.clear q hq data
    · rw [hmade]
      exact fun heq => nomatch heq
  · intro name rest
    rcases node_createDirectories_or hpath (place ++ name :: rest) with hsame | ⟨-, -, hle⟩
    · exact hsame
    · exact absurd hle (helse name rest)

theorem ShowsAt.create {name : Bytes} {rest : Path} (h : ShowsAt place t c)
    (hpath : StaysBelow path) (hnames : components path = place ++ name :: rest) :
    ShowsAt place (t.createDirectories path)
      { tables := insert name c.tables
        tags := {e | [e.1, ascii "tags", e.2] <+: name :: rest} ∪ c.tags } := by
  apply h.makes
  intro q
  rw [← hnames]
  apply node_createDirectories hpath
  intro p hp data
  rw [hnames] at hp
  exact h.clear p (near_of_le hp (near_append _ _)) data

theorem ShowsAt.drop_elsewhere (h : ShowsAt place t c)
    (helse : ∀ p, t.resolve path = some p → ∀ name rest, ¬ p <+: place ++ name :: rest) :
    ShowsAt place (dropPath t path) c := by
  apply h.congr
  · exact fun q hq data hfile => h.clear q hq data (sub_dropPath t path q _ hfile)
  · intro name rest
    rw [dropPath_eq]
    exact node_removeAll_of_not_le fun p hp => helse p hp name rest

/-- The last piece of a path. -/
theorem last_piece (front : Bytes) {last : Bytes} (h : slash ∉ last) :
    ((front ++ slash :: last).splitOn slash).getLast? = some last := by
  rw [splitOn_slash_append, List.splitOn_eq_singleton h, List.getLast?_concat]

/-- A path without `..` that ends in a name, or in a slash, takes away what its names stand for. -/
theorem node_dropPath {front last : Bytes} (hpath : StaysBelow (front ++ slash :: last))
    (hlast : IsName last ∨ last = []) (hne : components (front ++ slash :: last) ≠ [])
    (hclear : ∀ data, t.node (components (front ++ slash :: last)) ≠ some (.file data)) (q : Path) :
    (dropPath t (front ++ slash :: last)).node q =
      if components (front ++ slash :: last) <+: q then none else t.node q := by
  have hslash : slash ∉ last := by
    rcases hlast with hname | rfl
    · exact hname.noSlash
    · exact List.not_mem_nil
  have hpiece : last ≠ Os.dot ∧ last ≠ dotDot := by
    rcases hlast with hname | rfl
    · exact ⟨hname.notDot, hname.notDotDot⟩
    · exact ⟨by decide, by decide⟩
  rw [dropPath_eq]
  cases hresolve : t.resolve (front ++ slash :: last) with
  | some p =>
    have hp : p = components (front ++ slash :: last) := walk_eq hpath hresolve
    subst hp
    refine node_removeAll hresolve hne ?_ q
    intro piece hpiece'
    rw [last_piece front hslash, Option.mem_some_iff] at hpiece'
    rwa [← hpiece']
  | none =>
    -- there was nothing
    have hnone : ∀ node, t.node (components (front ++ slash :: last)) ≠ some node := by
      intro node hnode
      cases node with
      | dir =>
        have hwalk := walk_dir hpath hnode
        rw [← Tree.resolve, hresolve] at hwalk
        cases hwalk
      | file data => exact hclear data hnode
    rw [removeAll_missing hresolve]
    split
    case isFalse => rfl
    case isTrue hle =>
      by_cases hq : q = components (front ++ slash :: last)
      · rw [hq]
        exact Option.eq_none_iff_forall_ne_some.mpr hnone
      · exact t.node_below (hnone .dir) hle hq

theorem ShowsAt.drop {front last : Bytes} {rest : Path} (h : ShowsAt place t c)
    (hpath : StaysBelow (front ++ slash :: last)) (hlast : IsName last ∨ last = [])
    (hplace : place ≠ []) (hnames : components (front ++ slash :: last) = place ++ rest) :
    ShowsAt place (dropPath t (front ++ slash :: last))
      { tables := {table | table ∈ c.tables ∧ ¬ rest <+: [table]}
        tags := {e | e ∈ c.tags ∧ ¬ rest <+: [e.1, ascii "tags", e.2]} } := by
  apply h.cuts (sub_dropPath t _)
  intro name below
  rw [node_dropPath hpath hlast, hnames]
  · simp only [List.prefix_append_right_inj]
  · rw [hnames]
    exact List.append_ne_nil_of_left_ne_nil hplace rest
  · rw [hnames]
    exact h.clear _ (near_append place rest)

end Ops

/-! ## Databases -/

/-- The hot tier and the cold one are two directories, and neither is in the other. -/
structure TiersApart (paths : DataPaths) : Prop where
  hot : StaysBelow paths.hot
  cold : StaysBelow paths.cold
  apart : ¬ components paths.hot <+: components paths.cold
  apart' : ¬ components paths.cold <+: components paths.hot

/-- **The directories show the catalogs**, that of each database. -/
def TreeShows (paths : DataPaths) (t : Tree) (cs : Catalogs) : Prop :=
  ∀ db, IsDatabase db → ShowsAt (components (tablesDir paths db)) t (cs db)

section Databases

variable {paths : DataPaths} {t t' : Tree} {cs : Catalogs} {db other : Bytes}

theorem components_place (hdb : IsName db) :
    components (tablesDir paths db) = components paths.hot ++ [db, ascii "tables"] := by
  have htables : db ++ ascii "/tables" = db ++ slash :: ascii "tables" := rfl
  rw [tablesDir, components_append, htables, components_append, hdb.components_eq,
    isName_tables.components_eq]
  rfl

/-- What begins with the name of one database is nowhere near the tables of another. -/
theorem not_le_of_ne (hdb : IsName db) (hne : other ≠ db) {front name : Bytes} {rest below : Path}
    (hfront : components front = components paths.hot ++ other :: rest) :
    ¬ components (tablesDir paths db) ++ name :: below <+: components front ∧
      ¬ components front <+: components (tablesDir paths db) ++ name :: below := by
  rw [components_place hdb, hfront, List.append_assoc, List.prefix_append_right_inj,
    List.prefix_append_right_inj, List.cons_append, List.cons_prefix_cons, List.cons_prefix_cons]
  exact ⟨fun h => hne h.1.symm, fun h => hne h.1⟩

/-- In one database things change, and in the others they do not. -/
theorem TreeShows.update {c : Catalog}
    (hhere : IsDatabase db → ShowsAt (components (tablesDir paths db)) t' c)
    (helse : ∀ other, IsDatabase other → other ≠ db →
      ShowsAt (components (tablesDir paths other)) t' (cs other)) :
    TreeShows paths t' (Function.update cs db c) := by
  intro other hother
  by_cases hne : other = db
  · subst hne
    rw [Function.update_self]
    exact hhere hother
  · rw [Function.update_of_ne hne]
    exact helse other hother hne

/-- **The cold tier is not looked at.** -/
theorem TreeShows.cold (h : TreeShows paths t cs) (htiers : TiersApart paths) {rest : Bytes}
    (hrest : StaysBelow rest) : TreeShows paths (dropPath t (paths.cold ++ slash :: rest)) cs := by
  intro db hdb
  apply (h db hdb).drop_elsewhere
  intro p hp name below hle
  have hp : p = components (paths.cold ++ slash :: rest) :=
    walk_eq (staysBelow_append.mpr ⟨htiers.cold, hrest⟩) hp
  rw [hp, components_append, components_place hdb.1, List.append_assoc] at hle
  have hcold := (List.prefix_append _ _).trans hle
  cases List.prefix_or_prefix_of_prefix hcold (List.prefix_append _ _) with
  | inl h => exact htiers.apart' h
  | inr h => exact htiers.apart h

/-! ## The current database -/

theorem place_ne_nil (hdb : IsName db) : components (tablesDir paths db) ≠ [] := by
  rw [components_place hdb]
  simp

theorem staysBelow_place (htiers : TiersApart paths) (hdb : IsName db) :
    StaysBelow (tablesDir paths db) := staysBelow_tablesDir htiers.hot hdb.staysBelow

theorem components_table {table : Bytes} (htable : IsName table) :
    components (paths.getTablePath db table) = components (tablesDir paths db) ++ [table] := by
  rw [getTablePath_eq, components_append, htable.components_eq]

theorem components_tag {table tag : Bytes} (htable : IsName table) (htag : IsName tag) :
    components (paths.getTagPath db table tag)
      = components (tablesDir paths db) ++ [table, ascii "tags", tag] := by
  rw [getTagPath_eq, components_append, components_tagsDir htable, htag.components_eq,
    List.append_assoc]
  rfl

/-- The path of a table without a name, and of a tag without one. -/
theorem components_allTables :
    components (paths.getTablePath db []) = components (tablesDir paths db) ++ [] := by
  rw [getTablePath_eq, components_append, components_nil]

theorem components_allTags {table : Bytes} (htable : IsName table) :
    components (paths.getTagPath db table [])
      = components (tablesDir paths db) ++ [table, ascii "tags"] := by
  rw [getTagPath_eq, components_append, components_tagsDir htable, components_nil, List.append_nil]

theorem TreeShows.createTable {table : Bytes} (h : TreeShows paths t cs) (htiers : TiersApart paths)
    (hdb : IsDatabase db) (htable : IsName table) :
    TreeShows paths (t.createDirectories (paths.getTablePath db table))
      (Function.update cs db ((cs db).withTable table)) := by
  have hnames : components (paths.getTablePath db table)
      = components (tablesDir paths db) ++ [table] := components_table htable
  have hpath : StaysBelow (paths.getTablePath db table) := by
    rw [getTablePath_eq, staysBelow_append]
    exact ⟨staysBelow_place htiers hdb.1, htable.staysBelow⟩
  apply TreeShows.update
  · intro hdb
    have hafter := (h db hdb).create hpath hnames
    have htags : {e : Bytes × Bytes | [e.1, ascii "tags", e.2] <+: [table]} = ∅ := by
      ext e
      simp [List.cons_prefix_cons]
    rw [htags, Set.empty_union] at hafter
    exact hafter
  · intro other hother hne
    apply (h other hother).create_elsewhere hpath
    intro name rest
    rw [components_place hdb.1, List.append_assoc] at hnames
    exact (not_le_of_ne hother.1 (Ne.symm hne) hnames).1

theorem TreeShows.createTag {table tag : Bytes} (h : TreeShows paths t cs)
    (htiers : TiersApart paths) (hdb : IsDatabase db) (htable : IsName table) (htag : IsName tag) :
    TreeShows paths (t.createDirectories (paths.getTagPath db table tag))
      (Function.update cs db ((cs db).withTag table tag)) := by
  have hnames : components (paths.getTagPath db table tag)
      = components (tablesDir paths db) ++ [table, ascii "tags", tag] := components_tag htable htag
  have hpath : StaysBelow (paths.getTagPath db table tag) := by
    rw [getTagPath_eq, staysBelow_append]
    exact ⟨staysBelow_tagsDir (staysBelow_place htiers hdb.1) htable.staysBelow, htag.staysBelow⟩
  apply TreeShows.update
  · intro hdb
    have hafter := (h db hdb).create hpath hnames
    have htags : {e : Bytes × Bytes | [e.1, ascii "tags", e.2] <+: [table, ascii "tags", tag]}
        = {(table, tag)} := by
      ext ⟨other, name⟩
      simp [List.cons_prefix_cons]
    rw [htags, Set.singleton_union] at hafter
    exact hafter
  · intro other hother hne
    apply (h other hother).create_elsewhere hpath
    intro name rest
    rw [components_place hdb.1, List.append_assoc] at hnames
    exact (not_le_of_ne hother.1 (Ne.symm hne) hnames).1

/-- **A drop in the current database.** -/
theorem TreeShows.drop {front last : Bytes} {rest : Path} (h : TreeShows paths t cs)
    (hdb : IsDatabase db) (hpath : StaysBelow (front ++ slash :: last))
    (hlast : IsName last ∨ last = [])
    (hnames : components (front ++ slash :: last) = components (tablesDir paths db) ++ rest) :
    TreeShows paths (dropPath t (front ++ slash :: last))
      (Function.update cs db
        { tables := {table | table ∈ (cs db).tables ∧ ¬ rest <+: [table]}
          tags := {e | e ∈ (cs db).tags ∧ ¬ rest <+: [e.1, ascii "tags", e.2]} }) := by
  apply TreeShows.update
  · exact fun hdb => (h db hdb).drop hpath hlast (place_ne_nil hdb.1) hnames
  · intro other hother hne
    apply (h other hother).drop_elsewhere
    intro p hp name below
    rw [walk_eq hpath hp, ← components]
    rw [components_place hdb.1, List.append_assoc] at hnames
    exact (not_le_of_ne hother.1 (Ne.symm hne) hnames).2

theorem staysBelow_tablePath (hdb : StaysBelow db) {table : Bytes} (htable : StaysBelow table) :
    StaysBelow (tablePath db table) := by
  have hpath : tablePath db table = db ++ slash :: (ascii "tables" ++ slash :: table) := by
    unfold tablePath
    simp only [List.append_assoc]
    rfl
  rw [hpath, staysBelow_append, staysBelow_append]
  exact ⟨hdb, isName_tables.staysBelow, htable⟩

theorem staysBelow_tagPath (hdb : StaysBelow db) {table tag : Bytes} (htable : StaysBelow table)
    (htag : StaysBelow tag) : StaysBelow (tagPath db table tag) := by
  rw [tagPath_eq, staysBelow_append]
  exact ⟨staysBelow_tagsPath hdb htable, htag⟩

theorem staysBelow_last {last : Bytes} (h : IsName last ∨ last = []) : StaysBelow last := by
  rcases h with hname | rfl
  · exact hname.staysBelow
  · exact staysBelow_nil

theorem TreeShows.dropTable {table : Bytes} (h : TreeShows paths t cs) (htiers : TiersApart paths)
    (hdb : IsDatabase db) (htable : IsName table) :
    TreeShows paths (runOps t (paths.dropTable db table))
      (Function.update cs db ((cs db).withoutTable table)) := by
  have hnames : components (paths.getTablePath db table)
      = components (tablesDir paths db) ++ [table] := components_table htable
  rw [getTablePath_eq] at hnames
  have hpath := staysBelow_append.mpr ⟨staysBelow_place htiers hdb.1, htable.staysBelow⟩
  have hhot := h.drop hdb hpath (.inl htable) hnames
  rw [← getTablePath_eq] at hhot
  have hsame : (cs db).withoutTable table =
      { tables := {other | other ∈ (cs db).tables ∧ ¬ [table] <+: [other]}
        tags := {e | e ∈ (cs db).tags ∧ ¬ [table] <+: [e.1, ascii "tags", e.2]} } := by
    unfold Catalog.withoutTable
    congr 1
    · ext other
      simp [List.cons_prefix_cons, eq_comm]
    · ext e
      simp [List.cons_prefix_cons, eq_comm]
  rw [hsame]
  exact hhot.cold htiers (staysBelow_tablePath hdb.1.staysBelow htable.staysBelow)

theorem TreeShows.dropAllTables (h : TreeShows paths t cs) (htiers : TiersApart paths)
    (hdb : IsDatabase db) :
    TreeShows paths (runOps t (paths.dropTable db [])) (Function.update cs db .empty) := by
  have hnames : components (paths.getTablePath db [])
      = components (tablesDir paths db) ++ [] := components_allTables
  rw [getTablePath_eq] at hnames
  have hpath := staysBelow_append.mpr ⟨staysBelow_place htiers hdb.1, staysBelow_nil⟩
  have hhot := h.drop hdb hpath (.inr rfl) hnames
  rw [← getTablePath_eq] at hhot
  have hsame : Catalog.empty =
      { tables := {other | other ∈ (cs db).tables ∧ ¬ [] <+: [other]}
        tags := {e | e ∈ (cs db).tags ∧ ¬ [] <+: [e.1, ascii "tags", e.2]} } := by
    unfold Catalog.empty
    congr 1
    · ext other
      simp
    · ext e
      simp
  rw [hsame]
  exact hhot.cold htiers (staysBelow_tablePath hdb.1.staysBelow staysBelow_nil)

theorem TreeShows.dropTag {table tag : Bytes} (h : TreeShows paths t cs) (htiers : TiersApart paths)
    (hdb : IsDatabase db) (htable : IsName table) (htag : IsName tag ∨ tag = []) :
    TreeShows paths (runOps t (paths.dropTag db table tag))
      (Function.update cs db ((cs db).withoutTag table tag)) := by
  have hpath : StaysBelow (tagsDir paths db table ++ slash :: tag) := by
    rw [staysBelow_append]
    exact ⟨staysBelow_tagsDir (staysBelow_place htiers hdb.1) htable.staysBelow,
      staysBelow_last htag⟩
  -- one tag, or the directory of them all
  obtain ⟨rest, hnames, hsame⟩ : ∃ rest,
      components (tagsDir paths db table ++ slash :: tag)
          = components (tablesDir paths db) ++ rest ∧
        (cs db).withoutTag table tag =
          { tables := {other | other ∈ (cs db).tables ∧ ¬ rest <+: [other]}
            tags := {e | e ∈ (cs db).tags ∧ ¬ rest <+: [e.1, ascii "tags", e.2]} } := by
    rw [← getTagPath_eq]
    rcases htag with htag | rfl
    · refine ⟨_, components_tag htable htag, ?_⟩
      unfold Catalog.withoutTag
      congr 1
      · ext other
        simp [List.cons_prefix_cons]
      · ext e
        simp [List.cons_prefix_cons, htag.nonempty, eq_comm]
    · refine ⟨_, components_allTags htable, ?_⟩
      unfold Catalog.withoutTag
      congr 1
      · ext other
        simp [List.cons_prefix_cons]
      · ext e
        simp [List.cons_prefix_cons, eq_comm]
  have hhot := h.drop hdb hpath htag hnames
  rw [← getTagPath_eq, ← hsame] at hhot
  exact hhot.cold htiers
    (staysBelow_tagPath hdb.1.staysBelow htable.staysBelow (staysBelow_last htag))

theorem TreeShows.createTags {table : Bytes} (htiers : TiersApart paths) (hdb : IsDatabase db)
    (htable : IsName table) {tags : List TagDef} (htags : ∀ tagDef ∈ tags, IsName tagDef.name)
    (h : TreeShows paths t cs) :
    TreeShows paths
      (runOps t (tags.map fun tagDef =>
        .createDirectories (paths.getTagPath db table tagDef.name)))
      (Function.update cs db
        (tags.foldl (fun c tagDef => c.withTag table tagDef.name) (cs db))) := by
  induction tags generalizing t cs with
  | nil =>
    rw [List.foldl_nil, Function.update_eq_self]
    exact h
  | cons tagDef tags ih =>
    rw [List.forall_mem_cons] at htags
    have hrest := ih htags.2 (h.createTag htiers hdb htable htags.1)
    rw [Function.update_self, Function.update_idem] at hrest
    exact hrest

/-! ## Other databases -/

/-- `CREATE DATABASE` makes the directory of the tags of a table without a name. -/
theorem components_newDatabase {name : Bytes} :
    components (paths.getTagPath name [] [])
      = components (tablesDir paths name) ++ [ascii "tags"] := by
  have htags : slash :: ascii "tags" = [] ++ slash :: ascii "tags" := rfl
  rw [getTagPath_eq, components_append, tagsDir, List.nil_append, components_append, htags,
    components_append, components_nil, isName_tags.components_eq, List.append_nil]
  rfl

theorem TreeShows.createDatabase {name : Bytes} (h : TreeShows paths t cs)
    (htiers : TiersApart paths) (hname : IsName name) :
    TreeShows paths (t.createDirectories (paths.getTagPath name [] []))
      (Function.update cs name ((cs name).withTable (ascii "tags"))) := by
  have hnames : components (paths.getTagPath name [] [])
      = components (tablesDir paths name) ++ [ascii "tags"] := components_newDatabase
  have hpath : StaysBelow (paths.getTagPath name [] []) := by
    rw [getTagPath_eq, staysBelow_append]
    exact ⟨staysBelow_tagsDir (staysBelow_place htiers hname) staysBelow_nil, staysBelow_nil⟩
  apply TreeShows.update
  · intro hdb
    have hafter := (h name hdb).create hpath hnames
    have htags : {e : Bytes × Bytes | [e.1, ascii "tags", e.2] <+: [ascii "tags"]} = ∅ := by
      ext e
      simp [List.cons_prefix_cons]
    rw [htags, Set.empty_union] at hafter
    exact hafter
  · intro other hother hne
    apply (h other hother).create_elsewhere hpath
    intro table rest
    rw [components_place hname, List.append_assoc] at hnames
    exact (not_le_of_ne hother.1 (Ne.symm hne) hnames).1

theorem TreeShows.removeDatabase {name : Bytes} (h : TreeShows paths t cs)
    (htiers : TiersApart paths) (hname : IsName name) :
    TreeShows paths (t.removeAll (paths.hot ++ slash :: name))
      (Function.update cs name .empty) := by
  have hnode := node_removeAll_name (t := t) htiers.hot hname
  have hsub := sub_removeAll t (paths.hot ++ slash :: name)
  apply TreeShows.update
  · intro hdb
    -- the tables of the database are below what goes
    have hgone : ∀ table rest, (t.removeAll (paths.hot ++ slash :: name)).node
        (components (tablesDir paths name) ++ table :: rest) = none := by
      intro table rest
      rw [hnode, components_place hname, List.append_assoc, if_pos]
      rw [List.prefix_append_right_inj, List.cons_append, List.cons_prefix_cons]
      exact ⟨rfl, List.nil_prefix⟩
    exact {
      clear := fun q hq data hfile => (h name hdb).clear q hq data (hsub q _ hfile)
      tables := fun table => by
        rw [hgone]
        exact ⟨fun hnone => (nomatch hnone), fun hmem => (nomatch hmem)⟩
      tags := fun table tag => by
        rw [hgone]
        exact ⟨fun hnone => (nomatch hnone), fun hmem => (nomatch hmem)⟩ }
  · intro other hother hne
    apply (h other hother).congr
    · exact fun q hq data hfile => (h other hother).clear q hq data (hsub q _ hfile)
    · intro table rest
      rw [hnode, components_place hother.1, List.append_assoc, if_neg]
      rw [List.prefix_append_right_inj, List.cons_append, List.cons_prefix_cons]
      exact fun hle => hne hle.1.symm

/-- **One statement.** -/
theorem TreeShows.after (h : TreeShows paths t cs) (htiers : TiersApart paths) (hdb : IsDatabase db)
    {stmt : SQLStmt} (hnamed : Named paths stmt) :
    TreeShows paths (runOps t (statementOps paths db stmt)) (cs.after db stmt) := by
  cases stmt with
  | createDatabase name =>
    rw [statementOps, Catalogs.after, executeCreateDatabase]
    by_cases hvalid : isValidName name 64 = true
    · rw [if_pos hvalid, if_pos hvalid]
      exact h.createDatabase htiers (isName_of_isValidName hvalid)
    · rw [if_neg hvalid, if_neg hvalid]
      exact h
  | createTable stmt =>
    rw [statementOps, Catalogs.after, executeCreateTable]
    by_cases hvalid : isValidName stmt.tableName 64 = true
    · rw [if_pos hvalid, if_pos hvalid]
      exact h.createTable htiers hdb (isName_of_isValidName hvalid)
    · rw [if_neg hvalid, if_neg hvalid]
      exact h
  | createTags stmt =>
    rw [statementOps, executeCreateTags_snd]
    exact h.createTags htiers hdb hnamed fun tagDef => isName_of_mem_createdTags
  | dropDatabase name =>
    have hhere := h.dropAllTables htiers hdb
    have hgone := hhere.removeDatabase htiers (isName_of_isValidName hnamed.1)
    rw [← hnamed.2] at hgone
    exact hgone
  | dropTable table => exact h.dropTable htiers hdb hnamed
  | dropTag stmt => exact h.dropTag htiers hdb hnamed.1 hnamed.2
  | delete stmt => exact h.dropTag htiers hdb hnamed.1 hnamed.2
  | update stmt => exact h.dropTag htiers hdb hnamed.1 hnamed.2
  | _ => exact h

end Databases

end Sql
end MiniTSDB
