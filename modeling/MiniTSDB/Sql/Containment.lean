import MiniTSDB.Sql.DeleteFrame
import MiniTSDB.Sql.DropDatabase

/-!
# Which paths the names of a client lead to

A name is put into a path as it is. Below the directory it is a name in, the path stays if the name
goes down further than it climbs (`below_iff`); the empty name and `..` do not. Only `CREATE` looks
at a name first.
-/

namespace MiniTSDB
namespace Sql

open Lib Os Storage

/-- The path is strictly below the directory, by their normal forms. -/
def Below (dir path : Bytes) : Prop :=
  normalise dir <+: normalise path ∧ normalise dir ≠ normalise path

instance (dir path : Bytes) : Decidable (Below dir path) :=
  inferInstanceAs (Decidable (normalise dir <+: normalise path ∧ normalise dir ≠ normalise path))

/-- The name comes down again into the directories that it climbs out of, and further. -/
def Descends (dir : Bytes) (name : Bytes) : Prop :=
  (normalise dir).drop ((normalise dir).length - (climb name).1) <+: (climb name).2 ∧
    (normalise dir).drop ((normalise dir).length - (climb name).1) ≠ (climb name).2

/-- **A name leads below its directory just when it descends.** -/
theorem below_iff (dir name : Bytes) : Below dir (dir ++ slash :: name) ↔ Descends dir name := by
  have hcancel : ∀ front rest rest' : Path,
      (front ++ rest <+: front ++ rest' ∧ front ++ rest ≠ front ++ rest') ↔
        (rest <+: rest' ∧ rest ≠ rest') := by
    intro front rest rest'
    rw [List.prefix_append_right_inj, ne_eq, List.append_cancel_left_eq]
  have h := hcancel ((normalise dir).take ((normalise dir).length - (climb name).1))
    ((normalise dir).drop ((normalise dir).length - (climb name).1)) (climb name).2
  rw [List.take_append_drop, ← normalise_climb] at h
  exact h

/-- A name of one piece does. -/
theorem descends_name (dir : Bytes) {name : Bytes} (h : IsName name) : Descends dir name := by
  rw [← below_iff, Below, normalise_name dir h]
  exact ⟨List.prefix_append _ _, by simp⟩

/-- Nothing is not a name. -/
theorem not_descends_nil (dir : Bytes) : ¬ Descends dir [] := by
  rw [← below_iff, Below, normalise_slash]
  exact fun h => h.2 rfl

/-! ## What is asked of a request -/

/-- A statement, or the flush of a tag that has been written to. -/
inductive PathRequest
  | statement (stmt : SQLStmt)
  | flush (tag : Bytes)

/-- The calls of the file system that a statement makes. -/
def statementOps (paths : DataPaths) (currentDb : Bytes) : SQLStmt → List FsOp
  | .dropTag stmt => (executeDropTag paths currentDb stmt).2
  | .dropTable name => (executeDropTable paths currentDb name).2
  | .dropDatabase name => (executeDropDatabase paths currentDb name).2
  | .createDatabase name => (executeCreateDatabase paths name).2
  | .createTable stmt => (executeCreateTable paths currentDb stmt).2
  | .createTags stmt => (executeCreateTags paths currentDb stmt).2
  | .delete stmt => paths.dropTag currentDb stmt.tableName stmt.tagFilter
  | .update stmt => paths.dropTag currentDb stmt.tableName stmt.tagFilter
  | _ => []

/-- `hot_path/tags`. -/
def dataDir (paths : DataPaths) : Bytes := paths.hot ++ slash :: ascii "tags"

/-- The calls that a request makes; a flush makes the directory of its tag. -/
def requestOps (paths : DataPaths) (currentDb : Bytes) : PathRequest → List FsOp
  | .statement stmt => statementOps paths currentDb stmt
  | .flush tag => [.createDirectories (dataDir paths ++ slash :: tag)]

/-- A directory, and what has to be below it: the database below the tier, the table below the
database's tables. -/
def tableDemands (base db table : Bytes) : List (Bytes × Bytes) :=
  [(base, base ++ slash :: db),
    (base ++ slash :: (db ++ ascii "/tables"), base ++ slash :: tablePath db table)]

/-- And the tag below the table's tags, which are below the database's tables. -/
def tagDemands (base db table tag : Bytes) : List (Bytes × Bytes) :=
  tableDemands base db table ++
    [(base ++ slash :: (db ++ ascii "/tables"), base ++ slash :: tagPath db table tag),
      (base ++ slash :: tagsPath db table, base ++ slash :: tagPath db table tag)]

/-- The tags whose directories `CREATE TAGS` makes. -/
def createdTags (stmt : CreateTagsStmt) : List TagDef :=
  stmt.tags.takeWhile fun tagDef => isValidName tagDef.name 128

/-- What is asked of a request. `DROP DATABASE` drops a table without a name in the current
database, and it is the other database whose tables it should stay below. -/
def demands (paths : DataPaths) (currentDb : Bytes) : PathRequest → List (Bytes × Bytes)
  | .statement (.dropTag stmt) =>
    paths.bases.flatMap fun base => tagDemands base currentDb stmt.tableName stmt.tagName
  | .statement (.delete stmt) =>
    paths.bases.flatMap fun base => tagDemands base currentDb stmt.tableName stmt.tagFilter
  | .statement (.update stmt) =>
    paths.bases.flatMap fun base => tagDemands base currentDb stmt.tableName stmt.tagFilter
  | .statement (.dropTable name) => paths.bases.flatMap fun base => tableDemands base currentDb name
  | .statement (.dropDatabase name) =>
    (paths.bases.flatMap fun base => tableDemands base currentDb []) ++
      [(paths.hot ++ slash :: (name ++ ascii "/tables"), databaseDir paths name)]
  | .statement (.createDatabase name) =>
    if isValidName name 64 then
      [(paths.hot, paths.hot ++ slash :: name),
        (paths.hot ++ slash :: (name ++ ascii "/tables"), paths.getTagPath name [] [])]
    else []
  | .statement (.createTable stmt) =>
    if isValidName stmt.tableName 64 then tableDemands paths.hot currentDb stmt.tableName else []
  | .statement (.createTags stmt) =>
    (createdTags stmt).flatMap fun tagDef =>
      tagDemands paths.hot currentDb stmt.tableName tagDef.name
  | .flush tag => [(dataDir paths, dataDir paths ++ slash :: tag)]
  | .statement _ => []

/-- Every path that is made or removed is below what it has to be. -/
def Contained (paths : DataPaths) (currentDb : Bytes) (request : PathRequest) : Prop :=
  ∀ demand ∈ demands paths currentDb request, Below demand.1 demand.2

/-- The calls of `CREATE TAGS`. -/
theorem createTagDirs_snd (paths : DataPaths) (currentDb table : Bytes) (tags : List TagDef) :
    (createTagDirs paths currentDb table tags).2 =
      (tags.takeWhile fun tagDef => isValidName tagDef.name 128).map fun tagDef =>
        .createDirectories (paths.getTagPath currentDb table tagDef.name) := by
  induction tags with
  | nil => rfl
  | cons tagDef tags ih =>
    rw [createTagDirs]
    split
    case isTrue hvalid =>
      rw [List.takeWhile_cons, if_pos hvalid, List.map_cons, ← ih]
    case isFalse hnot =>
      rw [List.takeWhile_cons, if_neg hnot]
      rfl

theorem executeCreateTags_snd (paths : DataPaths) (currentDb : Bytes) (stmt : CreateTagsStmt) :
    (executeCreateTags paths currentDb stmt).2 = (createdTags stmt).map fun tagDef =>
      .createDirectories (paths.getTagPath currentDb stmt.tableName tagDef.name) := by
  rw [createdTags, ← createTagDirs_snd, executeCreateTags]
  split
  case h_1 name ops hdirs => rw [hdirs]
  case h_2 ops hdirs => rw [hdirs]

theorem isName_of_mem_createdTags {stmt : CreateTagsStmt} {tagDef : TagDef}
    (h : tagDef ∈ createdTags stmt) : IsName tagDef.name := by
  unfold createdTags at h
  have hvalid := List.mem_takeWhile_imp h
  exact isName_of_isValidName hvalid

theorem exists_tableDemand (paths : DataPaths) (db table : Bytes) :
    ∀ op ∈ paths.dropTable db table,
      ∃ dir, (dir, op.path) ∈ paths.bases.flatMap fun base => tableDemands base db table := by
  intro op hop
  simp only [DataPaths.dropTable, List.mem_cons, List.not_mem_nil, or_false] at hop
  rcases hop with rfl | rfl
  · exact ⟨_, List.mem_flatMap.mpr ⟨paths.hot, by simp [DataPaths.bases],
      List.mem_cons_of_mem _ List.mem_cons_self⟩⟩
  · exact ⟨_, List.mem_flatMap.mpr ⟨paths.cold, by simp [DataPaths.bases],
      List.mem_cons_of_mem _ List.mem_cons_self⟩⟩

theorem exists_tagDemand (paths : DataPaths) (db table tag : Bytes) :
    ∀ op ∈ paths.dropTag db table tag,
      ∃ dir, (dir, op.path) ∈ paths.bases.flatMap fun base => tagDemands base db table tag := by
  intro op hop
  simp only [DataPaths.dropTag, List.mem_cons, List.not_mem_nil, or_false] at hop
  rcases hop with rfl | rfl
  · exact ⟨_, List.mem_flatMap.mpr ⟨paths.hot, by simp [DataPaths.bases],
      List.mem_append_right _ List.mem_cons_self⟩⟩
  · exact ⟨_, List.mem_flatMap.mpr ⟨paths.cold, by simp [DataPaths.bases],
      List.mem_append_right _ List.mem_cons_self⟩⟩

/-- **Something is asked of every path that is made or removed.** -/
theorem exists_demand (paths : DataPaths) (currentDb : Bytes) (request : PathRequest) :
    ∀ op ∈ requestOps paths currentDb request,
      ∃ dir, (dir, op.path) ∈ demands paths currentDb request := by
  intro op hop
  cases request with
  | flush tag =>
    cases List.mem_singleton.mp hop
    exact ⟨_, List.mem_singleton_self _⟩
  | statement stmt =>
    cases stmt with
    | dropTag stmt => exact exists_tagDemand _ _ _ _ op hop
    | delete stmt => exact exists_tagDemand _ _ _ _ op hop
    | update stmt => exact exists_tagDemand _ _ _ _ op hop
    | dropTable name => exact exists_tableDemand _ _ _ op hop
    | dropDatabase name =>
      rcases List.mem_append.mp hop with hop | hop
      · obtain ⟨dir, hdir⟩ := exists_tableDemand paths currentDb [] op hop
        exact ⟨dir, List.mem_append_left _ hdir⟩
      · cases List.mem_singleton.mp hop
        exact ⟨_, List.mem_append_right _ (List.mem_singleton_self _)⟩
    | createDatabase name =>
      rw [requestOps, statementOps, executeCreateDatabase] at hop
      rw [demands]
      split at hop
      case isFalse => cases hop
      case isTrue hvalid =>
        cases List.mem_singleton.mp hop
        rw [if_pos hvalid]
        exact ⟨_, List.mem_cons_of_mem _ List.mem_cons_self⟩
    | createTable stmt =>
      rw [requestOps, statementOps, executeCreateTable] at hop
      rw [demands]
      split at hop
      case isFalse => cases hop
      case isTrue hvalid =>
        cases List.mem_singleton.mp hop
        rw [if_pos hvalid]
        exact ⟨_, List.mem_cons_of_mem _ List.mem_cons_self⟩
    | createTags stmt =>
      rw [requestOps, statementOps, executeCreateTags_snd] at hop
      obtain ⟨tagDef, hmem, rfl⟩ := List.mem_map.mp hop
      exact ⟨_, List.mem_flatMap.mpr ⟨tagDef, hmem, List.mem_append_right _ List.mem_cons_self⟩⟩
    | _ => cases hop

/-! ## Which requests are contained -/

/-- The names of a table descend. -/
def TableDescends (base db table : Bytes) : Prop :=
  Descends base db ∧ Descends (base ++ slash :: (db ++ ascii "/tables")) table

/-- And that of a tag. -/
def TagDescends (base db table tag : Bytes) : Prop :=
  TableDescends base db table ∧ Descends (base ++ slash :: tagsPath db table) tag

/-- The requests whose names stay where they belong. -/
def NamesDescend (paths : DataPaths) (currentDb : Bytes) : PathRequest → Prop
  | .statement (.dropTag stmt) =>
    ∀ base ∈ paths.bases, TagDescends base currentDb stmt.tableName stmt.tagName
  | .statement (.delete stmt) =>
    ∀ base ∈ paths.bases, TagDescends base currentDb stmt.tableName stmt.tagFilter
  | .statement (.update stmt) =>
    ∀ base ∈ paths.bases, TagDescends base currentDb stmt.tableName stmt.tagFilter
  | .statement (.dropTable name) => ∀ base ∈ paths.bases, TableDescends base currentDb name
  | .statement (.dropDatabase _) => False
  | .statement (.createTable stmt) =>
    isValidName stmt.tableName 64 = true → Descends paths.hot currentDb
  | .statement (.createTags stmt) =>
    createdTags stmt ≠ [] → TableDescends paths.hot currentDb stmt.tableName
  | .flush tag => Descends (dataDir paths) tag
  | .statement _ => True

theorem tableDemands_below {base db table : Bytes} :
    (∀ demand ∈ tableDemands base db table, Below demand.1 demand.2) ↔
      TableDescends base db table := by
  have hpath : base ++ slash :: tablePath db table
      = (base ++ slash :: (db ++ ascii "/tables")) ++ slash :: table := by
    unfold tablePath
    simp only [List.append_assoc, List.cons_append]
    rfl
  unfold tableDemands TableDescends
  rw [List.forall_mem_cons, List.forall_mem_singleton, below_iff, hpath, below_iff]

theorem normalise_tagsPath (base db table : Bytes) : normalise (base ++ slash :: tagsPath db table)
    = normalise (base ++ slash :: tablePath db table) ++ [ascii "tags"] := by
  have hpath : base ++ slash :: tagsPath db table
      = (base ++ slash :: tablePath db table) ++ slash :: ascii "tags" := by
    unfold tagsPath
    simp only [List.append_assoc, List.cons_append]
    rfl
  rw [hpath, normalise_name _ isName_tags]

theorem tagDemands_below {base db table tag : Bytes} :
    (∀ demand ∈ tagDemands base db table tag, Below demand.1 demand.2) ↔
      TagDescends base db table tag := by
  have hpath : base ++ slash :: tagPath db table tag
      = (base ++ slash :: tagsPath db table) ++ slash :: tag := by
    rw [tagPath_eq]
    simp only [List.append_assoc, List.cons_append]
  have htag : Below (base ++ slash :: tagsPath db table) (base ++ slash :: tagPath db table tag) ↔
      Descends (base ++ slash :: tagsPath db table) tag := by
    rw [hpath, below_iff]
  unfold tagDemands TagDescends
  rw [List.forall_mem_append, tableDemands_below, List.forall_mem_cons, List.forall_mem_singleton,
    htag]
  refine and_congr_right fun htable => ⟨fun h => h.2, fun h => ⟨?_, h⟩⟩
  -- what is below the table's tags is below the database's tables
  have hbelow := htag.mpr h
  rw [← tableDemands_below] at htable
  have htables := htable _ (List.mem_cons_of_mem _ List.mem_cons_self)
  dsimp only at htables
  have hle := hbelow.1
  rw [normalise_tagsPath] at hle
  have hlonger := htables.1.trans ((List.prefix_append _ _).trans hle)
  refine ⟨hlonger, ?_⟩
  intro heq
  dsimp only at heq
  rw [← heq] at hle
  have hlen := hle.length_le
  have hlen' := htables.1.length_le
  rw [List.length_append, List.length_singleton] at hlen
  omega

/-- What `CREATE DATABASE` makes is the directory of the tags of a table without a name, which is one
of the name `tags` among the tables. -/
theorem below_databaseTags (paths : DataPaths) (name : Bytes) :
    Below (paths.hot ++ slash :: (name ++ ascii "/tables")) (paths.getTagPath name [] []) := by
  have hpath : paths.getTagPath name [] []
      = paths.hot ++ slash :: tagsPath name [] ++ slash :: [] := by
    rw [DataPaths.getTagPath, tagPath_eq]
    simp only [List.append_assoc, List.cons_append]
  have htable : paths.hot ++ slash :: tablePath name []
      = (paths.hot ++ slash :: (name ++ ascii "/tables")) ++ slash :: [] := by
    unfold tablePath
    simp only [List.append_assoc, List.cons_append, List.append_nil]
    rfl
  rw [Below, hpath, normalise_slash, normalise_tagsPath, htable, normalise_slash]
  exact ⟨List.prefix_append _ _, by simp⟩

/-- A `CREATE DATABASE` with a valid name is contained. -/
theorem contained_createDatabase (paths : DataPaths) (currentDb name : Bytes) :
    Contained paths currentDb (.statement (.createDatabase name)) := by
  intro demand hdemand
  change demand ∈ (if isValidName name 64 = true then _ else []) at hdemand
  split at hdemand
  case isFalse => cases hdemand
  case isTrue hvalid =>
    have hname := isName_of_isValidName hvalid
    rcases List.mem_cons.mp hdemand with rfl | hdemand
    · exact (below_iff _ _).mpr (descends_name _ hname)
    · rw [List.mem_singleton.mp hdemand]
      exact below_databaseTags paths name

/-- A `CREATE TAGS` is if the table is, as the names of its tags are valid. -/
theorem contained_createTags_iff (paths : DataPaths) (currentDb : Bytes) (stmt : CreateTagsStmt) :
    Contained paths currentDb (.statement (.createTags stmt)) ↔
      (createdTags stmt ≠ [] → TableDescends paths.hot currentDb stmt.tableName) := by
  constructor
  · intro h hne
    obtain ⟨tagDef, hmem⟩ := List.exists_mem_of_ne_nil _ hne
    have htag : ∀ demand ∈ tagDemands paths.hot currentDb stmt.tableName tagDef.name,
        Below demand.1 demand.2 := fun demand hdemand =>
      h demand (List.mem_flatMap.mpr ⟨tagDef, hmem, hdemand⟩)
    rw [tagDemands_below] at htag
    exact htag.1
  · intro h demand hdemand
    obtain ⟨tagDef, hmem, hdemand⟩ := List.mem_flatMap.mp hdemand
    have htable := h (List.ne_nil_of_mem hmem)
    have htag : ∀ demand ∈ tagDemands paths.hot currentDb stmt.tableName tagDef.name,
        Below demand.1 demand.2 := by
      rw [tagDemands_below]
      exact ⟨htable, descends_name _ (isName_of_mem_createdTags hmem)⟩
    exact htag demand hdemand

end Sql
end MiniTSDB
