import MiniTSDB.Os.Tree

/-!
# Databases, tables and tags as directories (`engine.cpp`)

A tag is registered when its directory is there, below its table's in the database's. The hot tier
and the cold one have such a tree each. Dropping a tag removes its directory from both, and what is
removed is told by the path that the three names make (`node_dropPath_name`, `node_dropPath_nil`).

The trees are what is below `hot_path` and `cold_path`. The data of the engine, which is in
`hot_path/tags` under flat names, is not part of them but of `Engine`.
-/

namespace MiniTSDB
namespace Storage

open Os

/-- `GetTablePath`, from `hot_path` or `cold_path` on. -/
def tablePath (db table : Bytes) : Bytes := db ++ ascii "/tables/" ++ table

/-- `GetTagPath`. -/
def tagPath (db table tag : Bytes) : Bytes := tablePath db table ++ ascii "/tags/" ++ tag

/-- The directories of the databases in the two tiers. -/
structure Tiers where
  hot : Tree
  cold : Tree

def Tiers.tableExists (s : Tiers) (db table : Bytes) : Bool :=
  s.hot.pathExists (tablePath db table)

def Tiers.tagExists (s : Tiers) (db table tag : Bytes) : Bool :=
  s.hot.pathExists (tagPath db table tag)

/-- A path is removed if it is there. -/
def dropPath (t : Tree) (path : Bytes) : Tree := if t.pathExists path then t.removeAll path else t

/-- `DropTag`. It always returns true. -/
def Tiers.dropTag (s : Tiers) (db table tag : Bytes) : Tiers :=
  { hot := dropPath s.hot (tagPath db table tag), cold := dropPath s.cold (tagPath db table tag) }

/-! ## The place of a tag -/

/-- The names that lead to the tags of a table. -/
def tagsPlace (db table : Bytes) : Path :=
  components db ++ ascii "tables" :: (components table ++ [ascii "tags"])

/-- The names that lead to a tag. -/
def tagPlace (db table tag : Bytes) : Path := tagsPlace db table ++ components tag

/-- The path of a table's tags. -/
def tagsPath (db table : Bytes) : Bytes := tablePath db table ++ ascii "/tags"

theorem isName_tables : IsName (ascii "tables") := ⟨by decide, by decide, by decide, by decide⟩

theorem isName_tags : IsName (ascii "tags") := ⟨by decide, by decide, by decide, by decide⟩

theorem tagPath_eq (db table tag : Bytes) :
    tagPath db table tag = tagsPath db table ++ slash :: tag := by
  unfold tagPath tagsPath
  rw [List.append_assoc, List.append_assoc]
  rfl

theorem tagsPath_eq (db table : Bytes) : tagsPath db table
    = db ++ slash :: (ascii "tables" ++ slash :: (table ++ slash :: ascii "tags")) := by
  unfold tagsPath tablePath
  simp only [List.append_assoc]
  rfl

theorem components_tagsPath (db table : Bytes) :
    components (tagsPath db table) = tagsPlace db table := by
  rw [tagsPath_eq, components_append, components_append, components_append,
    IsName.components_eq isName_tables, IsName.components_eq isName_tags, tagsPlace,
    List.singleton_append]

theorem staysBelow_tagsPath {db table : Bytes} (hdb : StaysBelow db) (htable : StaysBelow table) :
    StaysBelow (tagsPath db table) := by
  rw [tagsPath_eq, staysBelow_append, staysBelow_append, staysBelow_append]
  exact ⟨hdb, IsName.staysBelow isName_tables, htable, IsName.staysBelow isName_tags⟩

/-! ## Places side by side -/

theorem tagsPlace_name {db table : Bytes} (htable : IsName table) :
    tagsPlace db table = components db ++ [ascii "tables", table, ascii "tags"] := by
  rw [tagsPlace, htable.components_eq, List.singleton_append]

theorem tagsPlace_nil (db : Bytes) :
    tagsPlace db [] = components db ++ [ascii "tables", ascii "tags"] := by
  rw [tagsPlace, components_nil, List.nil_append]

theorem tagPlace_name {db table tag : Bytes} (htag : IsName tag) :
    tagPlace db table tag = tagsPlace db table ++ [tag] := by
  rw [tagPlace, htag.components_eq]

/-- The tags of one table, or of one without a name, are not on the way to another's. Only a table
that is called `tags` is where the tags of one without a name would be. -/
theorem not_tagsPlace_le {db table other : Bytes} {q : Path} (htable : IsName table)
    (htags : table ≠ ascii "tags") (hother : other = [] ∨ IsName other) (hne : other ≠ table)
    (hq : tagsPlace db table <+: q) : ¬ tagsPlace db other <+: q := by
  intro h
  rw [tagsPlace_name htable] at hq
  cases hother with
  | inl hnil =>
    rw [hnil, tagsPlace_nil] at h
    have hle := List.prefix_of_prefix_length_le h hq (by simp)
    rw [List.prefix_append_right_inj, List.cons_prefix_cons, List.cons_prefix_cons] at hle
    exact htags hle.2.1.symm
  | inr hname =>
    rw [tagsPlace_name hname] at h
    have hle := List.prefix_of_prefix_length_le h hq (by simp)
    rw [List.prefix_append_right_inj, List.cons_prefix_cons, List.cons_prefix_cons] at hle
    exact hne hle.2.1

/-- One tag is not on the way to another of its table. -/
theorem not_tagPlace_le {db table tag other : Bytes} {q : Path} (htag : IsName tag)
    (hother : IsName other) (hne : other ≠ tag) (hq : tagPlace db table tag <+: q) :
    ¬ tagPlace db table other <+: q := by
  intro h
  rw [tagPlace_name htag] at hq
  rw [tagPlace_name hother] at h
  have hle := List.prefix_of_prefix_length_le h hq (by simp)
  rw [List.prefix_append_right_inj, List.cons_prefix_cons] at hle
  exact hne hle.1

section Drop

variable {db table tag : Bytes}

theorem tagExists_eq (s : Tiers) (hdb : StaysBelow db) (htable : StaysBelow table)
    (htag : IsName tag) :
    s.tagExists db table tag = (s.hot.node (tagPlace db table tag)).isSome := by
  rw [Tiers.tagExists, tagPath_eq, pathExists_name (staysBelow_tagsPath hdb htable) htag,
    components_tagsPath, tagPlace, htag.components_eq]

theorem dropPath_eq (t : Tree) (path : Bytes) : dropPath t path = t.removeAll path := by
  unfold dropPath Tree.pathExists Tree.removeAll
  cases t.resolve path with
  | none => rfl
  | some p => rfl

/-- **What dropping a tag removes**: what is at its place or below. -/
theorem node_dropPath_name (t : Tree) (hdb : StaysBelow db) (htable : StaysBelow table)
    (htag : IsName tag) (q : Path) :
    (dropPath t (tagPath db table tag)).node q =
      if tagPlace db table tag <+: q then none else t.node q := by
  rw [dropPath_eq, tagPath_eq, node_removeAll_name (staysBelow_tagsPath hdb htable) htag,
    components_tagsPath, tagPlace, htag.components_eq]

/-- **What dropping a tag without a name removes**: all the tags of the table. -/
theorem node_dropPath_nil (t : Tree) (hdb : StaysBelow db) (htable : StaysBelow table) {q : Path}
    (hq : q ≠ tagsPlace db table) :
    (dropPath t (tagPath db table [])).node q =
      if tagsPlace db table <+: q then none else t.node q := by
  rw [← components_tagsPath] at hq ⊢
  rw [dropPath_eq, tagPath_eq, node_removeAll_slash (staysBelow_tagsPath hdb htable) hq]

/-- **Dropping a tag leaves the others of its table alone.** -/
theorem node_dropPath_otherTag (t : Tree) {other : Bytes} {q : Path} (hdb : StaysBelow db)
    (htable : StaysBelow table) (htag : IsName tag) (hother : IsName other) (hne : other ≠ tag)
    (hq : tagPlace db table tag <+: q) :
    (dropPath t (tagPath db table other)).node q = t.node q := by
  rw [node_dropPath_name t hdb htable hother, if_neg (not_tagPlace_le htag hother hne hq)]

/-- A dropped tag is not registered. -/
theorem tagExists_dropTag (s : Tiers) (hdb : StaysBelow db) (htable : StaysBelow table)
    (htag : IsName tag) : (s.dropTag db table tag).tagExists db table tag = false := by
  rw [tagExists_eq _ hdb htable htag, Tiers.dropTag, node_dropPath_name _ hdb htable htag,
    if_pos (List.prefix_refl _)]
  rfl

/-- No tag is, once one without a name is dropped. -/
theorem tagExists_dropTag_nil (s : Tiers) (hdb : StaysBelow db) (htable : StaysBelow table)
    (htag : IsName tag) : (s.dropTag db table []).tagExists db table tag = false := by
  have hne : tagPlace db table tag ≠ tagsPlace db table := by
    rw [tagPlace_name htag]
    simp
  have hle : tagsPlace db table <+: tagPlace db table tag := List.prefix_append _ _
  rw [tagExists_eq _ hdb htable htag, Tiers.dropTag, node_dropPath_nil _ hdb htable hne,
    if_pos hle]
  rfl

/-- **Dropping a tag of one table leaves the others' tags alone**, also one without a name, and of
a table without one. -/
theorem node_dropPath_otherTable (t : Tree) {other : Bytes} {q : Path} (hdb : StaysBelow db)
    (htable : IsName table) (htags : table ≠ ascii "tags") (hother : other = [] ∨ IsName other)
    (hne : other ≠ table) (htag : tag = [] ∨ IsName tag) (hq : tagsPlace db table <+: q) :
    (dropPath t (tagPath db other tag)).node q = t.node q := by
  have hbelow : StaysBelow other := by
    cases hother with
    | inl hnil =>
      rw [hnil]
      exact staysBelow_nil
    | inr hname => exact hname.staysBelow
  have hplace := not_tagsPlace_le htable htags hother hne hq
  cases htag with
  | inl hnil =>
    have hq' : q ≠ tagsPlace db other := by
      intro heq
      rw [heq] at hplace
      exact hplace (List.prefix_refl _)
    rw [hnil, node_dropPath_nil t hdb hbelow hq', if_neg hplace]
  | inr hname =>
    rw [node_dropPath_name t hdb hbelow hname, if_neg]
    exact fun h => hplace ((List.prefix_append _ _).trans h)

end Drop

end Storage
end MiniTSDB
