import MiniTSDB.Os.MakeDirs
import MiniTSDB.Sql.Containment
import MiniTSDB.Sql.Insert
import Mathlib.Data.Set.Insert

/-!
# Which rows an `INSERT` accepts

A tag is registered when there is a directory of its name in the directory of its table's tags, and
a row is accepted when its path leads anywhere. So long as the names are names, and tags are created
in tables that have been created, the directories say what the statements said (`Mirrors`). A row
with other names is accepted when its path leads to something, and a tag of `CREATE TAG` is not.
-/

namespace MiniTSDB
namespace Sql

open Lib Os Storage

/-! ## Statements -/

/-- A statement that registers or drops, or a row of an `INSERT`; `file` is the SSTable, its name
and its bytes, that is written if the row fills the buffer of its tag. -/
inductive NamespaceStmt
  | createTable (stmt : CreateTableStmt)
  | createTag (stmt : CreateTagStmt)
  | createTags (stmt : CreateTagsStmt)
  | dropTag (stmt : DropTagStmt)
  | dropTable (tableName : Bytes)
  | insertRow (table tag : Bytes) (file : Option (Bytes × Bytes))

/-- The checks of `ExecuteInsert`. -/
def acceptsRow (paths : DataPaths) (db : Bytes) (t : Tree) (table tag : Bytes) : Bool :=
  paths.tableExists t db table && paths.tagExists t db table tag

/-- What a flush leaves in the tree. -/
def flushFile (paths : DataPaths) (t : Tree) (tag name data : Bytes) : Tree :=
  (t.createDirectories (dataDir paths ++ slash :: tag)).putFile (dataDir paths ++ slash :: tag)
    name data

/-- The tree after a statement. -/
def NamespaceStmt.run (paths : DataPaths) (db : Bytes) (t : Tree) : NamespaceStmt → Tree
  | .createTable stmt => runOps t (executeCreateTable paths db stmt).2
  | .createTag stmt => runOps t (executeCreateTag stmt).2
  | .createTags stmt => runOps t (executeCreateTags paths db stmt).2
  | .dropTag stmt => runOps t (executeDropTag paths db stmt).2
  | .dropTable name => runOps t (executeDropTable paths db name).2
  | .insertRow table tag file =>
    match file with
    | some (name, data) =>
      if acceptsRow paths db t table tag then flushFile paths t tag name data else t
    | none => t

/-! ## What has been registered -/

/-- The tables that have been created, and the tags: those of `CREATE TAGS` in their table, and those
of `CREATE TAG`, which names no table. -/
structure Registry where
  tables : Set Bytes
  tags : Set (Bytes × Bytes)
  tableless : Set Bytes

def Registry.empty : Registry := { tables := ∅, tags := ∅, tableless := ∅ }

/-- What a statement registers or drops. `CREATE TAGS` gets as far as the first name it refuses. -/
def Registry.after (r : Registry) : NamespaceStmt → Registry
  | .createTable stmt =>
    if isValidName stmt.tableName 64 then { r with tables := insert stmt.tableName r.tables } else r
  | .createTag stmt => { r with tableless := insert stmt.tagName r.tableless }
  | .createTags stmt =>
    { r with tags := r.tags ∪ {e | e.1 = stmt.tableName ∧
      ∃ tagDef ∈ createdTags stmt, tagDef.name = e.2} }
  | .dropTag stmt =>
    { r with
      tags := r.tags \ {(stmt.tableName, stmt.tagName)}
      tableless := r.tableless \ {stmt.tagName} }
  | .dropTable name =>
    { r with tables := r.tables \ {name}, tags := {e | e ∈ r.tags ∧ e.1 ≠ name} }
  | .insertRow _ _ _ => r

/-- The row should be accepted. -/
def Registry.Has (r : Registry) (table tag : Bytes) : Prop :=
  table ∈ r.tables ∧ ((table, tag) ∈ r.tags ∨ tag ∈ r.tableless)

/-! ## Places -/

/-- The directory of the tables of a database. -/
def tablesDir (paths : DataPaths) (db : Bytes) : Bytes :=
  paths.hot ++ slash :: (db ++ ascii "/tables")

/-- The directory of the tags of a table. -/
def tagsDir (paths : DataPaths) (db table : Bytes) : Bytes :=
  tablesDir paths db ++ slash :: (table ++ slash :: ascii "tags")

/-- On the way to the tables, or among them. -/
def Near (place q : Path) : Prop := q <+: place ∨ place <+: q

theorem getTablePath_eq (paths : DataPaths) (db table : Bytes) :
    paths.getTablePath db table = tablesDir paths db ++ slash :: table := by
  unfold DataPaths.getTablePath tablePath tablesDir
  simp only [List.append_assoc, List.cons_append]
  rfl

theorem getTagPath_eq (paths : DataPaths) (db table tag : Bytes) :
    paths.getTagPath db table tag = tagsDir paths db table ++ slash :: tag := by
  unfold DataPaths.getTagPath tagPath tablePath tagsDir tablesDir
  simp only [List.append_assoc, List.cons_append]
  rfl

theorem components_tagsDir {paths : DataPaths} {db table : Bytes} (htable : IsName table) :
    components (tagsDir paths db table)
      = components (tablesDir paths db) ++ [table, ascii "tags"] := by
  rw [tagsDir, components_append, components_append, htable.components_eq,
    isName_tags.components_eq]
  rfl

theorem staysBelow_tablesDir {paths : DataPaths} {db : Bytes} (hhot : StaysBelow paths.hot)
    (hdb : StaysBelow db) : StaysBelow (tablesDir paths db) := by
  have htables : db ++ ascii "/tables" = db ++ slash :: ascii "tables" := rfl
  rw [tablesDir, htables, staysBelow_append, staysBelow_append]
  exact ⟨hhot, hdb, isName_tables.staysBelow⟩

theorem staysBelow_tagsDir {paths : DataPaths} {db table : Bytes}
    (hdir : StaysBelow (tablesDir paths db)) (htable : StaysBelow table) :
    StaysBelow (tagsDir paths db table) := by
  rw [tagsDir, staysBelow_append, staysBelow_append]
  exact ⟨hdir, htable, isName_tags.staysBelow⟩

section Exists

variable {paths : DataPaths} {db table tag : Bytes} {t : Tree}

theorem tagExists_iff (hdir : StaysBelow (tablesDir paths db)) (htable : IsName table)
    (htag : IsName tag) : paths.tagExists t db table tag =
      (t.node (components (tablesDir paths db) ++ [table, ascii "tags", tag])).isSome := by
  rw [DataPaths.tagExists, getTagPath_eq,
    pathExists_name (staysBelow_tagsDir hdir htable.staysBelow) htag, components_tagsDir htable,
    List.append_assoc]
  rfl

/-- The tag's path goes through the table's. -/
theorem tableExists_of_tag (h : paths.tagExists t db table tag = true) :
    paths.tableExists t db table = true := by
  have hpath : paths.getTagPath db table tag
      = paths.getTablePath db table ++ slash :: (ascii "tags" ++ slash :: tag) := by
    rw [getTagPath_eq, getTablePath_eq, tagsDir]
    simp only [List.append_assoc, List.cons_append]
  unfold DataPaths.tagExists at h
  rw [hpath] at h
  exact pathExists_of_append h

theorem acceptsRow_eq : acceptsRow paths db t table tag = paths.tagExists t db table tag := by
  unfold acceptsRow
  cases h : paths.tagExists t db table tag with
  | true => rw [tableExists_of_tag h]; rfl
  | false => rw [Bool.and_false]

/-- **A row is accepted if the tag that it names is there.** -/
theorem scanRow_acceptsRow (conv : Conversions) (now : Timestamp) {columns row : List Bytes}
    (htags : rowTags columns row = [tag]) :
    (paths.tableExists t db table = true ∧
      ∃ scan, scanRow conv (paths.tagExists t db table) now columns row = .ok scan) ↔
        acceptsRow paths db t table tag = true := by
  rw [scanRow_isOk, htags, List.forall_mem_singleton, acceptsRow, Bool.and_eq_true]

end Exists

/-! ## The directories say what the statements said -/

/-- The directories below the tables are the registered tags. -/
structure Mirrors (paths : DataPaths) (db : Bytes) (t : Tree) (r : Registry) : Prop where
  /-- no file is in the way -/
  clear : ∀ q, Near (components (tablesDir paths db)) q → ∀ data, t.node q ≠ some (.file data)
  tables : ∀ table ∈ r.tables, IsName table
  known : ∀ table tag, (table, tag) ∈ r.tags → table ∈ r.tables ∧ IsName tag
  tags : ∀ table tag, IsName table → IsName tag →
    ((t.node (components (tablesDir paths db) ++ [table, ascii "tags", tag])).isSome = true ↔
      (table, tag) ∈ r.tags)

/-- The path leads nowhere near the tables of the database. -/
def Avoids (paths : DataPaths) (db : Bytes) (t : Tree) (path : Bytes) : Prop :=
  ∀ p, t.resolve path = some p → ¬ Near (components (tablesDir paths db)) p

theorem near_of_le {place p q : Path} (hle : p <+: q) (hq : Near place q) : Near place p := by
  cases hq with
  | inl hq => exact .inl (hle.trans hq)
  | inr hq => exact (List.prefix_or_prefix_of_prefix hle hq).imp id id

section Steps

variable {paths : DataPaths} {db : Bytes} {t : Tree} {r : Registry}

/-- What avoids the tables leaves them alone. -/
theorem node_dropPath_avoids {path : Bytes} (h : Avoids paths db t path) {q : Path}
    (hq : Near (components (tablesDir paths db)) q) : (dropPath t path).node q = t.node q := by
  rw [dropPath_eq]
  apply node_removeAll_of_not_le
  intro p hp hle
  exact h p hp (near_of_le hle hq)

theorem Avoids.sub {t' : Tree} {path : Bytes} (h : Avoids paths db t path) (hsub : t'.Sub t) :
    Avoids paths db t' path := fun p hp => h p (hsub.resolve hp)

/-- What is further down than the tables, and nothing else, decides what is registered. -/
theorem Mirrors.congr {t' : Tree} (h : Mirrors paths db t r)
    (hclear : ∀ q, Near (components (tablesDir paths db)) q → ∀ data,
      t'.node q ≠ some (.file data))
    (hsame : ∀ table tag, t'.node (components (tablesDir paths db) ++ [table, ascii "tags", tag])
      = t.node (components (tablesDir paths db) ++ [table, ascii "tags", tag])) :
    Mirrors paths db t' r where
  clear := hclear
  tables := h.tables
  known := h.known
  tags table tag htable htag := by rw [hsame, h.tags table tag htable htag]

theorem near_append (place rest : Path) : Near place (place ++ rest) :=
  .inr (List.prefix_append _ _)

/-- **A drop elsewhere.** -/
theorem Mirrors.avoids {path : Bytes} (h : Mirrors paths db t r) (havoids : Avoids paths db t path) :
    Mirrors paths db (dropPath t path) r := by
  apply h.congr
  · intro q hq data
    rw [node_dropPath_avoids havoids hq]
    exact h.clear q hq data
  · exact fun table tag => node_dropPath_avoids havoids (near_append _ _)

/-- What is made among the tables. -/
theorem Mirrors.node_create {path : Bytes} {rest : Path} (h : Mirrors paths db t r)
    (hbelow : StaysBelow path)
    (hpath : components path = components (tablesDir paths db) ++ rest) (q : Path) :
    (t.createDirectories path).node q =
      if q <+: components (tablesDir paths db) ++ rest then some .dir else t.node q := by
  rw [← hpath]
  apply node_createDirectories hbelow
  intro p hp data
  rw [hpath] at hp
  exact h.clear p (near_of_le hp (near_append _ _)) data

theorem Mirrors.clear_create {path : Bytes} {rest : Path} (h : Mirrors paths db t r)
    (hbelow : StaysBelow path)
    (hpath : components path = components (tablesDir paths db) ++ rest) {q : Path}
    (hq : Near (components (tablesDir paths db)) q) (data : Bytes) :
    (t.createDirectories path).node q ≠ some (.file data) := by
  rw [h.node_create hbelow hpath]
  split
  · exact fun heq => nomatch heq
  · exact h.clear q hq data

theorem Mirrors.clear_drop {path : Bytes} (h : Mirrors paths db t r) {q : Path}
    (hq : Near (components (tablesDir paths db)) q) (data : Bytes) :
    (dropPath t path).node q ≠ some (.file data) :=
  fun hfile => h.clear q hq data (sub_dropPath t path q _ hfile)

/-- **A table.** -/
theorem Mirrors.createTable {table : Bytes} (hdir : StaysBelow (tablesDir paths db))
    (h : Mirrors paths db t r) (htable : IsName table) :
    Mirrors paths db (t.createDirectories (paths.getTablePath db table))
      { r with tables := insert table r.tables } := by
  have hpath : components (paths.getTablePath db table)
      = components (tablesDir paths db) ++ [table] := by
    rw [getTablePath_eq, components_append, htable.components_eq]
  have hbelow : StaysBelow (paths.getTablePath db table) := by
    rw [getTablePath_eq, staysBelow_append]
    exact ⟨hdir, htable.staysBelow⟩
  constructor
  case clear => exact fun q hq data => h.clear_create hbelow hpath hq data
  case tables =>
    intro other hother
    rcases hother with rfl | hother
    · exact htable
    · exact h.tables other hother
  case known => exact fun other tag hmem => (h.known other tag hmem).imp (Set.mem_insert_of_mem _) id
  case tags =>
    intro other tag hother htag
    rw [h.node_create hbelow hpath, if_neg]
    · exact h.tags other tag hother htag
    · intro hle
      have hlen := hle.length_le
      simp at hlen

/-- **A tag of a table that has been created.** -/
theorem Mirrors.createTag {table tag : Bytes} (hdir : StaysBelow (tablesDir paths db))
    (h : Mirrors paths db t r) (htable : table ∈ r.tables) (htag : IsName tag) :
    Mirrors paths db (t.createDirectories (paths.getTagPath db table tag))
      { r with tags := insert (table, tag) r.tags } := by
  have hname := h.tables table htable
  have hpath : components (paths.getTagPath db table tag)
      = components (tablesDir paths db) ++ [table, ascii "tags", tag] := by
    rw [getTagPath_eq, components_append, components_tagsDir hname, htag.components_eq,
      List.append_assoc]
    rfl
  have hbelow : StaysBelow (paths.getTagPath db table tag) := by
    rw [getTagPath_eq, staysBelow_append]
    exact ⟨staysBelow_tagsDir hdir hname.staysBelow, htag.staysBelow⟩
  constructor
  case clear => exact fun q hq data => h.clear_create hbelow hpath hq data
  case tables => exact h.tables
  case known =>
    intro other otherTag hmem
    rcases hmem with heq | hmem
    · cases heq
      exact ⟨htable, htag⟩
    · exact h.known other otherTag hmem
  case tags =>
    intro other otherTag hother hotherTag
    rw [h.node_create hbelow hpath, Set.mem_insert_iff, ← h.tags other otherTag hother hotherTag]
    split
    case isTrue hle =>
      rw [List.prefix_append_right_inj, List.cons_prefix_cons, List.cons_prefix_cons,
        List.cons_prefix_cons] at hle
      rw [hle.1, hle.2.2.1]
      exact ⟨fun _ => .inl rfl, fun _ => rfl⟩
    case isFalse hnot =>
      refine ⟨.inr, fun hmem => hmem.resolve_left ?_⟩
      intro heq
      cases heq
      exact hnot (List.prefix_refl _)

/-- **A tag goes.** -/
theorem Mirrors.dropTag {table tag : Bytes} (hdir : StaysBelow (tablesDir paths db))
    (h : Mirrors paths db t r) (htable : IsName table) (htag : IsName tag) :
    Mirrors paths db (dropPath t (paths.getTagPath db table tag))
      { r with tags := r.tags \ {(table, tag)} } := by
  have hnode : ∀ q, (dropPath t (paths.getTagPath db table tag)).node q =
      if components (tablesDir paths db) ++ [table, ascii "tags", tag] <+: q then none
      else t.node q := by
    intro q
    rw [dropPath_eq, getTagPath_eq,
      node_removeAll_name (staysBelow_tagsDir hdir htable.staysBelow) htag,
      components_tagsDir htable, List.append_assoc]
    rfl
  constructor
  case clear => exact fun q hq data => h.clear_drop hq data
  case tables => exact h.tables
  case known => exact fun other otherTag hmem => h.known other otherTag hmem.1
  case tags =>
    intro other otherTag hother hotherTag
    rw [hnode, Set.mem_sdiff, ← h.tags other otherTag hother hotherTag, Set.mem_singleton_iff]
    split
    case isTrue hle =>
      rw [List.prefix_append_right_inj, List.cons_prefix_cons, List.cons_prefix_cons,
        List.cons_prefix_cons] at hle
      rw [hle.1, hle.2.2.1]
      exact ⟨fun hnone => (nomatch hnone), fun hmem => absurd rfl hmem.2⟩
    case isFalse hnot =>
      refine ⟨fun hmem => ⟨hmem, ?_⟩, fun hmem => hmem.1⟩
      intro heq
      cases heq
      exact hnot (List.prefix_refl _)

/-- **A table goes, with its tags.** -/
theorem Mirrors.dropTable {table : Bytes} (hdir : StaysBelow (tablesDir paths db))
    (h : Mirrors paths db t r) (htable : IsName table) :
    Mirrors paths db (dropPath t (paths.getTablePath db table))
      { r with tables := r.tables \ {table}, tags := {e | e ∈ r.tags ∧ e.1 ≠ table} } := by
  have hnode : ∀ q, (dropPath t (paths.getTablePath db table)).node q =
      if components (tablesDir paths db) ++ [table] <+: q then none else t.node q := by
    intro q
    rw [dropPath_eq, getTablePath_eq, node_removeAll_name hdir htable]
  constructor
  case clear => exact fun q hq data => h.clear_drop hq data
  case tables => exact fun other hother => h.tables other hother.1
  case known =>
    intro other tag hmem
    exact ⟨⟨(h.known other tag hmem.1).1, hmem.2⟩, (h.known other tag hmem.1).2⟩
  case tags =>
    intro other tag hother htag
    rw [hnode]
    change _ ↔ (other, tag) ∈ r.tags ∧ other ≠ table
    rw [← h.tags other tag hother htag]
    split
    case isTrue hle =>
      rw [List.prefix_append_right_inj, List.cons_prefix_cons] at hle
      exact ⟨fun hnone => (nomatch hnone), fun hmem => absurd hle.1.symm hmem.2⟩
    case isFalse hnot =>
      refine ⟨fun hmem => ⟨hmem, ?_⟩, fun hmem => hmem.1⟩
      intro heq
      rw [heq] at hnot
      exact hnot (by rw [List.prefix_append_right_inj]; exact ⟨_, rfl⟩)

end Steps

/-! ## Runs -/

/-- A statement that the directories follow. `CREATE TAGS` has a table that has been created; what is
dropped, in the hot tier, is the directory of a name, or nothing of the tables of this database, and
in the cold one nothing of them; and a row has names, or its path leads nowhere. -/
def StmtFollows (paths : DataPaths) (db : Bytes) (t : Tree) (r : Registry) : NamespaceStmt → Prop
  | .createTable _ => True
  | .createTag _ => True
  | .createTags stmt => stmt.tableName ∈ r.tables ∨ createdTags stmt = []
  | .dropTag stmt =>
    ((IsName stmt.tableName ∧ IsName stmt.tagName) ∨
      Avoids paths db t (paths.getTagPath db stmt.tableName stmt.tagName)) ∧
    Avoids paths db t (paths.coldTag db stmt.tableName stmt.tagName)
  | .dropTable name =>
    (IsName name ∨ Avoids paths db t (paths.getTablePath db name)) ∧
      Avoids paths db t (paths.coldTable db name)
  | .insertRow table tag _ =>
    (IsName table ∧ IsName tag) ∨ t.resolve (paths.getTagPath db table tag) = none

section Runs

variable {paths : DataPaths} {db : Bytes} {t : Tree} {r : Registry}

theorem Mirrors.tableless (h : Mirrors paths db t r) (names : Set Bytes) :
    Mirrors paths db t { r with tableless := names } :=
  ⟨h.clear, h.tables, h.known, h.tags⟩

theorem no_tags (table : Bytes) : {e : Bytes × Bytes | e.1 = table ∧
    ∃ tagDef ∈ ([] : List TagDef), tagDef.name = e.2} = ∅ := by
  ext e
  simp

/-- Any number of tags of one table. -/
theorem Mirrors.createTags {table : Bytes} (hdir : StaysBelow (tablesDir paths db))
    (h : Mirrors paths db t r) (htable : table ∈ r.tables) {tags : List TagDef}
    (htags : ∀ tagDef ∈ tags, IsName tagDef.name) :
    Mirrors paths db
      (runOps t (tags.map fun tagDef =>
        .createDirectories (paths.getTagPath db table tagDef.name)))
      { r with tags := r.tags ∪ {e | e.1 = table ∧ ∃ tagDef ∈ tags, tagDef.name = e.2} } := by
  induction tags generalizing t r with
  | nil =>
    rw [no_tags, Set.union_empty]
    exact h
  | cons tagDef tags ih =>
    rw [List.forall_mem_cons] at htags
    have hfirst := h.createTag hdir htable htags.1
    have hrest := ih hfirst htable htags.2
    have hset : insert (table, tagDef.name) r.tags ∪
        {e | e.1 = table ∧ ∃ tagDef ∈ tags, tagDef.name = e.2}
          = r.tags ∪ {e | e.1 = table ∧ ∃ d ∈ tagDef :: tags, d.name = e.2} := by
      ext ⟨other, tag⟩
      simp only [Set.mem_union, Set.mem_insert_iff, Set.mem_ofPred_eq, Prod.mk.injEq,
        List.mem_cons, exists_eq_or_imp]
      constructor
      · rintro ((⟨rfl, rfl⟩ | hmem) | ⟨rfl, hmem⟩)
        · exact .inr ⟨rfl, .inl rfl⟩
        · exact .inl hmem
        · exact .inr ⟨rfl, .inr hmem⟩
      · rintro (hmem | ⟨rfl, rfl | hmem⟩)
        · exact .inl (.inr hmem)
        · exact .inl (.inl ⟨rfl, rfl⟩)
        · exact .inr ⟨rfl, hmem⟩
    rw [hset] at hrest
    exact hrest

/-- The data of the engine is not among the tables. -/
theorem not_near_data (hdata : ¬ components (dataDir paths) <+: components (tablesDir paths db))
    {q : Path} (hq : components (dataDir paths) <+: q) :
    ¬ Near (components (tablesDir paths db)) q := by
  have hplaces : components (dataDir paths) = components paths.hot ++ [ascii "tags"] ∧
      components (tablesDir paths db)
        = components paths.hot ++ (components db ++ [ascii "tables"]) := by
    have htables : db ++ ascii "/tables" = db ++ slash :: ascii "tables" := rfl
    rw [dataDir, tablesDir, components_append, components_append, htables, components_append,
      isName_tags.components_eq, isName_tables.components_eq]
    exact ⟨rfl, rfl⟩
  rintro (hle | hle)
  · exact hdata (hq.trans hle)
  · cases List.prefix_or_prefix_of_prefix hq hle with
    | inl h => exact hdata h
    | inr h =>
      rw [hplaces.1, hplaces.2, List.prefix_append_right_inj] at h
      cases hdb : components db with
      | nil =>
        rw [hdb] at h
        exact absurd h (by decide)
      | cons name rest =>
        rw [hdb] at h
        have hlen := h.length_le
        simp at hlen

/-- **A flush.** -/
theorem Mirrors.flush {tag name data : Bytes} (hhot : StaysBelow paths.hot)
    (hdata : ¬ components (dataDir paths) <+: components (tablesDir paths db))
    (h : Mirrors paths db t r) (htag : IsName tag) :
    Mirrors paths db (flushFile paths t tag name data) r := by
  have hpath : components (dataDir paths ++ slash :: tag) = components (dataDir paths) ++ [tag] := by
    rw [components_append, htag.components_eq]
  have hbelow : StaysBelow (dataDir paths ++ slash :: tag) := by
    rw [staysBelow_append, dataDir, staysBelow_append]
    exact ⟨⟨hhot, isName_tags.staysBelow⟩, htag.staysBelow⟩
  have hfile : ∀ q, Near (components (tablesDir paths db)) q →
      (flushFile paths t tag name data).node q
        = (t.createDirectories (dataDir paths ++ slash :: tag)).node q := by
    intro q hq
    apply node_putFile_of_ne
    intro cwd hcwd heq
    have hplace := walk_eq hbelow hcwd
    rw [← components, hpath] at hplace
    apply not_near_data hdata _ hq
    rw [heq, hplace, List.append_assoc]
    exact List.prefix_append _ _
  apply h.congr
  · intro q hq bytes
    rw [hfile q hq]
    rcases node_createDirectories_or hbelow q with hsame | ⟨-, hmade, -⟩
    · rw [hsame]
      exact h.clear q hq bytes
    · rw [hmade]
      intro heq
      cases heq
  · intro table otherTag
    rw [hfile _ (near_append _ _)]
    rcases node_createDirectories_or hbelow _ with hsame | ⟨-, -, hle⟩
    · exact hsame
    · rw [hpath] at hle
      exact absurd (.inr ((List.prefix_append _ _).trans hle))
        (not_near_data hdata (List.prefix_append _ _))

/-- A tag without names was never there. -/
theorem Mirrors.dropTag_or {table tag : Bytes} (hdir : StaysBelow (tablesDir paths db))
    (h : Mirrors paths db t r)
    (hor : (IsName table ∧ IsName tag) ∨ Avoids paths db t (paths.getTagPath db table tag)) :
    Mirrors paths db (dropPath t (paths.getTagPath db table tag))
      { r with tags := r.tags \ {(table, tag)} } := by
  by_cases hnames : IsName table ∧ IsName tag
  · exact h.dropTag hdir hnames.1 hnames.2
  · have hnot : (table, tag) ∉ r.tags := fun hmem =>
      hnames ⟨h.tables _ (h.known _ _ hmem).1, (h.known _ _ hmem).2⟩
    rw [Set.sdiff_singleton_eq_self hnot]
    exact h.avoids (hor.resolve_left hnames)

/-- And a table without one. -/
theorem Mirrors.dropTable_or {table : Bytes} (hdir : StaysBelow (tablesDir paths db))
    (h : Mirrors paths db t r)
    (hor : IsName table ∨ Avoids paths db t (paths.getTablePath db table)) :
    Mirrors paths db (dropPath t (paths.getTablePath db table))
      { r with tables := r.tables \ {table}, tags := {e | e ∈ r.tags ∧ e.1 ≠ table} } := by
  by_cases hname : IsName table
  · exact h.dropTable hdir hname
  · have hnot : table ∉ r.tables := fun hmem => hname (h.tables _ hmem)
    have htags : {e | e ∈ r.tags ∧ e.1 ≠ table} = r.tags := by
      ext e
      refine ⟨fun hmem => hmem.1, fun hmem => ⟨hmem, ?_⟩⟩
      intro heq
      exact hnot (heq ▸ (h.known e.1 e.2 hmem).1)
    rw [Set.sdiff_singleton_eq_self hnot, htags]
    exact h.avoids (hor.resolve_left hname)

/-- **One statement.** -/
theorem Mirrors.run (hhot : StaysBelow paths.hot) (hdb : StaysBelow db)
    (hdata : ¬ components (dataDir paths) <+: components (tablesDir paths db))
    (h : Mirrors paths db t r) (stmt : NamespaceStmt) (hfollows : StmtFollows paths db t r stmt) :
    Mirrors paths db (stmt.run paths db t) (r.after stmt) := by
  have hdir : StaysBelow (tablesDir paths db) := staysBelow_tablesDir hhot hdb
  cases stmt with
  | createTable stmt =>
    rw [NamespaceStmt.run, Registry.after, executeCreateTable]
    by_cases hvalid : isValidName stmt.tableName 64 = true
    · rw [if_pos hvalid, if_pos hvalid]
      exact h.createTable hdir (isName_of_isValidName hvalid)
    · rw [if_neg hvalid, if_neg hvalid]
      exact h
  | createTag stmt => exact h.tableless _
  | createTags stmt =>
    rw [NamespaceStmt.run, Registry.after, executeCreateTags_snd]
    cases hfollows with
    | inl htable => exact h.createTags hdir htable fun tagDef => isName_of_mem_createdTags
    | inr hnil =>
      rw [hnil, no_tags, Set.union_empty]
      exact h
  | dropTag stmt =>
    -- the hot directory is where the registry looks; the cold one is apart from it
    obtain ⟨hhotTag, hcold⟩ := hfollows
    change Mirrors paths db (dropPath (dropPath t (paths.getTagPath db stmt.tableName stmt.tagName))
      (paths.coldTag db stmt.tableName stmt.tagName)) _
    have hafter := h.dropTag_or hdir hhotTag
    exact (hafter.avoids (hcold.sub (sub_dropPath t _))).tableless _
  | dropTable name =>
    obtain ⟨hhotTable, hcold⟩ := hfollows
    change Mirrors paths db (dropPath (dropPath t (paths.getTablePath db name))
      (paths.coldTable db name)) _
    have hafter := h.dropTable_or hdir hhotTable
    exact hafter.avoids (hcold.sub (sub_dropPath t _))
  | insertRow table tag file =>
    cases file with
    | none => exact h
    | some file =>
      obtain ⟨name, data⟩ := file
      change Mirrors paths db (if acceptsRow paths db t table tag = true then _ else t) r
      split
      case isFalse => exact h
      case isTrue haccepts =>
        cases hfollows with
        | inl hnames => exact h.flush hhot hdata hnames.2
        | inr hnone =>
          rw [acceptsRow_eq, DataPaths.tagExists, Tree.pathExists, hnone] at haccepts
          cases haccepts

end Runs

/-- One statement in the tree and in what has been registered. -/
def NamespaceStep (paths : DataPaths) (db : Bytes) (s : Tree × Registry) (stmt : NamespaceStmt)
    (s' : Tree × Registry) : Prop := s' = (stmt.run paths db s.1, s.2.after stmt)

/-- A database without tables, and no file where they will be. -/
structure NothingRegistered (paths : DataPaths) (db : Bytes) (t : Tree) : Prop where
  clear : ∀ q, Near (components (tablesDir paths db)) q → ∀ data, t.node q ≠ some (.file data)
  none_there : ∀ table tag, IsName table → IsName tag →
    t.node (components (tablesDir paths db) ++ [table, ascii "tags", tag]) = none

/-- A row with names, and one whose path leads nowhere, has not only been registered by `CREATE TAG`;
any other row has been registered so. -/
def RowFollows (paths : DataPaths) (db : Bytes) (t : Tree) (r : Registry) (table tag : Bytes) :
    Prop :=
  (((IsName table ∧ IsName tag) ∨ t.resolve (paths.getTagPath db table tag) = none) →
    table ∈ r.tables → tag ∈ r.tableless → (table, tag) ∈ r.tags) ∧
  (¬ ((IsName table ∧ IsName tag) ∨ t.resolve (paths.getTagPath db table tag) = none) →
    table ∈ r.tables ∧ tag ∈ r.tableless)

theorem mirrors_run {paths : DataPaths} {db : Bytes} {t₀ t : Tree} {stmts : List NamespaceStmt}
    {r : Registry} (hhot : StaysBelow paths.hot) (hdb : StaysBelow db)
    (hdata : ¬ components (dataDir paths) <+: components (tablesDir paths db))
    (hstart : NothingRegistered paths db t₀)
    (hrun : Run (Guarded (NamespaceStep paths db) fun s stmt => StmtFollows paths db s.1 s.2 stmt)
      (t₀, .empty) stmts (t, r)) : Mirrors paths db t r := by
  have hmirrors : ∀ s : Tree × Registry,
      Run (Guarded (NamespaceStep paths db) fun s stmt => StmtFollows paths db s.1 s.2 stmt)
        (t₀, .empty) stmts s → Mirrors paths db s.1 s.2 := by
    intro s hrun
    refine hrun.invariant (fun _ s => Mirrors paths db s.1 s.2) ?_ ?_
    · exact {
        clear := hstart.clear
        tables := fun table hmem => absurd hmem (Set.notMem_empty table)
        known := fun table tag hmem => absurd hmem (Set.notMem_empty (table, tag))
        tags := by
          intro table tag htable htag
          dsimp only
          rw [hstart.none_there table tag htable htag]
          exact ⟨fun h => (nomatch h), fun h => absurd h (Set.notMem_empty (table, tag))⟩ }
    · rintro _ s stmt _ hs ⟨rfl, hfollows⟩
      exact hs.run hhot hdb hdata stmt hfollows
  exact hmirrors (t, r) hrun

/-- A row is accepted as it should be just when it follows. -/
theorem Mirrors.acceptsRow_iff {paths : DataPaths} {db : Bytes} {t : Tree} {r : Registry}
    {table tag : Bytes} (hdir : StaysBelow (tablesDir paths db)) (h : Mirrors paths db t r) :
    (acceptsRow paths db t table tag = true ↔ r.Has table tag) ↔
      RowFollows paths db t r table tag := by
  rw [acceptsRow_eq]
  unfold Registry.Has RowFollows
  by_cases hnames : IsName table ∧ IsName tag
  · -- the directory of the tag is there exactly if `CREATE TAG` named the table
    rw [tagExists_iff hdir hnames.1 hnames.2, h.tags table tag hnames.1 hnames.2]
    have hknown := h.known table tag
    constructor
    · intro hiff
      exact ⟨fun _ htable hloose => hiff.mpr ⟨htable, .inr hloose⟩,
        fun hnot => absurd (.inl hnames) hnot⟩
    · intro hfollows
      refine ⟨fun hmem => ⟨(hknown hmem).1, .inl hmem⟩, fun hhas => ?_⟩
      cases hhas.2 with
      | inl hmem => exact hmem
      | inr hloose => exact hfollows.1 (.inl hnames) hhas.1 hloose
  · have hnot : (table, tag) ∉ r.tags := fun hmem =>
      hnames ⟨h.tables _ (h.known _ _ hmem).1, (h.known _ _ hmem).2⟩
    cases hpath : t.resolve (paths.getTagPath db table tag) with
    | none =>
      have hmissing : paths.tagExists t db table tag = false := by
        rw [DataPaths.tagExists, Tree.pathExists, hpath]
        rfl
      rw [hmissing]
      constructor
      · intro hiff
        refine ⟨fun _ htable hloose => ?_, fun hno => absurd (.inr rfl) hno⟩
        exact absurd (hiff.mpr ⟨htable, .inr hloose⟩) Bool.false_ne_true
      · intro hfollows
        refine ⟨fun hfalse => absurd hfalse Bool.false_ne_true, fun hhas => ?_⟩
        exact absurd (hfollows.1 (.inr rfl) hhas.1 (hhas.2.resolve_left hnot)) hnot
    | some p =>
      have hthere : paths.tagExists t db table tag = true := by
        rw [DataPaths.tagExists, Tree.pathExists, hpath]
        rfl
      have hneither : ¬ ((IsName table ∧ IsName tag) ∨ some p = none) := by
        rintro (hboth | hno)
        · exact hnames hboth
        · cases hno
      rw [hthere]
      constructor
      · intro hiff
        have hhas := hiff.mp rfl
        exact ⟨fun hyes => absurd hyes hneither, fun _ => ⟨hhas.1, hhas.2.resolve_left hnot⟩⟩
      · intro hfollows
        have hloose := hfollows.2 hneither
        exact ⟨fun _ => ⟨hloose.1, .inr hloose.2⟩, fun _ => rfl⟩

/-- A database `c` without tables. -/
def emptyDatabase : Tree := .ofDirs [[ascii "hot", ascii "c", ascii "tables"]]

/-- `CREATE TABLE t` and `CREATE TAGS IN t (x)`. -/
def createTX : List NamespaceStmt :=
  [.createTable { tableName := ascii "t", properties := [] },
    .createTags { tableName := ascii "t", tags := [{ name := ascii "x", props := [] }] }]

def afterTX : Tree × Registry :=
  createTX.foldl (fun s stmt => (stmt.run twoTiers (ascii "c") s.1, s.2.after stmt))
    (emptyDatabase, .empty)

theorem nothingRegistered_c : NothingRegistered twoTiers (ascii "c") emptyDatabase where
  clear q _ data := by
    change (if _ then some TreeNode.dir else none) ≠ _
    split
    · exact fun h => nomatch h
    · exact fun h => nomatch h
  none_there table tag _ _ := by
    unfold emptyDatabase Tree.ofDirs
    dsimp only
    rw [if_neg]
    rintro (hnil | ⟨p, hp, hle⟩)
    · exact absurd hnil (by simp)
    · rw [List.mem_singleton.mp hp] at hle
      have hplace : components (tablesDir twoTiers (ascii "c"))
          = [ascii "hot", ascii "c", ascii "tables"] := by decide
      have hlen := hle.length_le
      rw [hplace] at hlen
      simp at hlen

theorem run_createTX : Run (Guarded (NamespaceStep twoTiers (ascii "c"))
    fun s stmt => StmtFollows twoTiers (ascii "c") s.1 s.2 stmt) (emptyDatabase, .empty) createTX
      afterTX := by
  have hcreated : ascii "t" ∈ (Registry.empty.after (.createTable
      { tableName := ascii "t", properties := [] })).tables := by
    have hvalid : isValidName (ascii "t") 64 = true := rfl
    rw [Registry.after, if_pos hvalid]
    exact Set.mem_insert _ _
  show Run _ _ ([] ++ [_] ++ [_]) _
  exact .snoc (.snoc .start ⟨rfl, trivial⟩) ⟨rfl, .inl hcreated⟩

/-- What the two statements register. -/
theorem has_afterTX_iff {table tag : Bytes} :
    afterTX.2.Has table tag ↔ table = ascii "t" ∧ tag = ascii "x" := by
  have hvalid : isValidName (ascii "t") 64 = true := rfl
  have hregistry : afterTX.2 =
      { tables := insert (ascii "t") ∅
        tags := ∅ ∪ {e | e.1 = ascii "t" ∧
          ∃ tagDef ∈ [({ name := ascii "x", props := [] } : TagDef)], tagDef.name = e.2}
        tableless := ∅ } := by
    have hafter : afterTX.2 = (Registry.empty.after (.createTable
      { tableName := ascii "t", properties := [] })).after (.createTags
        { tableName := ascii "t", tags := [{ name := ascii "x", props := [] }] }) := rfl
    rw [hafter, Registry.after, Registry.after, if_pos hvalid]
    rfl
  rw [hregistry]
  simp [Registry.Has, eq_comm]

end Sql
end MiniTSDB
