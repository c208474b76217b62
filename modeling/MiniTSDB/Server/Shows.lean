import MiniTSDB.Server.WriteLog
import MiniTSDB.Sql.Catalog

/-!
# What `SHOW TABLES` and `SHOW TAGS` say

An executor keeps its database and its token from statement to statement. Whatever it executes, the
directories go on showing the catalogs, as long as what is named are names (`shows_run`); so what is
shown is what the statements that were let through have created and not dropped (`shows_of_run`).
A `DELETE` and an `UPDATE` drop the tag they name.
-/

namespace MiniTSDB
namespace Server

open Lib Os Storage Sql Auth Alarm Snapshot

variable {Loc V : Type}

/-! ## An executor -/

/-- The database of an executor behind a statement that was let through. -/
def nextDatabase (db : Bytes) : SQLStmt → Bytes
  | .use name => name
  | _ => db

/-- The files of the engine show nowhere near the tables. -/
def ShowsElsewhere (w : World Loc V) : Prop :=
  ∀ disk t db, IsDatabase db → ∀ q, Near (components (tablesDir w.paths db)) q →
    (w.shown disk t).node q = t.node q

section
variable [DecidableEq Loc]
variable [LinearOrder V] [Zero V] [Add V] [Mul V] [Div V] [NatCast V] [Sub V]

/-- `Execute` of an executor that goes on with its database. -/
def executorStep (w : World Loc V) (token : Bytes) (s : Bytes × Service Loc)
    (e : CallEnv × SQLStmt) : InsertOutcome × (Bytes × Service Loc) :=
  let (ending, service) := execute w e.1 s.1 token s.2 e.2
  (ending, (if (executorPermits s.2.auth e.1.auth.now token e.2).1 then nextDatabase s.1 e.2
    else s.1, service))

/-- The catalogs behind some statements of it. -/
def catalogsAfter (w : World Loc V) (token : Bytes) :
    Bytes × Service Loc → Catalogs → List (CallEnv × SQLStmt) → Catalogs
  | _, cs, [] => cs
  | s, cs, e :: es =>
    catalogsAfter w token (executorStep w token s e).2
      (if (executorPermits s.2.auth e.1.auth.now token e.2).1 then cs.after s.1 e.2 else cs) es

end

/-! ## The directories go on showing the catalogs -/

section Runs

variable {w : World Loc V} {cs : Catalogs}

theorem shows_shown {t : Tree} (hw : ShowsElsewhere w) (h : TreeShows w.paths t cs)
    (disk : Disk Loc) :
    TreeShows w.paths (w.shown disk t) cs := by
  intro db hdb
  apply (h db hdb).congr
  · intro q hq data
    rw [hw disk t db hdb q hq]
    exact (h db hdb).clear q hq data
  · exact fun name rest => hw disk t db hdb _ (near_append _ _)

theorem isDatabase_next {db : Bytes} (hdb : IsDatabase db) {stmt : SQLStmt}
    (hnamed : Named w.paths stmt) : IsDatabase (nextDatabase db stmt) := by
  cases stmt with
  | use name => exact hnamed
  | _ => exact hdb

variable [DecidableEq Loc]

theorem shows_engineWrite (hw : ShowsElsewhere w) {d d' : Data Loc} {call : WriteCall}
    (hwrite : d.engineWrite w call = some d') (h : TreeShows w.paths d.tree cs) :
    TreeShows w.paths d'.tree cs := by
  unfold Data.engineWrite at hwrite
  obtain ⟨engine, -, rfl⟩ := Option.map_eq_some_iff.mp hwrite
  exact shows_shown hw h engine.disk

theorem shows_write (hw : ShowsElsewhere w) {d d' : Data Loc} {call : WriteCall}
    (hwrite : d.write w call = some d') (h : TreeShows w.paths d.tree cs) :
    TreeShows w.paths d'.tree cs := by
  unfold Data.write at hwrite
  obtain ⟨d₁, hengine, rfl⟩ := Option.map_eq_some_iff.mp hwrite
  have hafter := shows_engineWrite hw hengine h
  exact hafter

theorem shows_insertRows (hw : ShowsElsewhere w) (env : CallEnv) (db : Bytes) (stmt : InsertStmt)
    (rows : List (List Bytes)) (i : Nat) (count : Int64) {d : Data Loc}
    (h : TreeShows w.paths d.tree cs) :
    TreeShows w.paths (d.insertRows w env db stmt rows i count).2.tree cs := by
  induction rows generalizing i count d with
  | nil => exact h
  | cons row rows ih =>
    unfold Data.insertRows
    split
    · exact h
    · split
      · exact h
      case h_2 d' hwrite => exact ih (i + 1) (count + 1) (shows_write hw hwrite h)
    · exact ih (i + 1) count h

theorem shows_executeInsert (hw : ShowsElsewhere w) (env : CallEnv) (db : Bytes) (stmt : InsertStmt)
    {d : Data Loc} (h : TreeShows w.paths d.tree cs) :
    TreeShows w.paths (d.executeInsert w env db stmt).2.tree cs := by
  unfold Data.executeInsert
  split
  · exact h
  · split
    · exact shows_insertRows hw env db stmt stmt.rows 0 0 h
    · exact h

variable [LinearOrder V] [Zero V] [Add V] [Mul V] [Div V] [NatCast V] [Sub V]

/-- **One statement that is let through.** -/
theorem shows_dispatch (hw : ShowsElsewhere w) (htiers : TiersApart w.paths) {db : Bytes}
    (hdb : IsDatabase db) {env : CallEnv} {token : Bytes} {s : Service Loc} {stmt : SQLStmt}
    (hnamed : Named w.paths stmt) (h : TreeShows w.paths s.data.tree cs) :
    TreeShows w.paths (dispatch w env db token s stmt).2.data.tree (cs.after db stmt) := by
  have hafter := h.after htiers hdb hnamed
  cases stmt with
  | insert stmt => exact shows_executeInsert hw env db stmt h
  | update stmt =>
    unfold dispatch Data.executeUpdate
    dsimp only
    split
    · exact hafter
    case h_2 d' hwrite => exact shows_engineWrite hw hwrite hafter
  | _ => exact hafter

/-- **One statement.** -/
theorem shows_executorStep (hw : ShowsElsewhere w) (htiers : TiersApart w.paths) {token : Bytes}
    {s : Bytes × Service Loc} (hdb : IsDatabase s.1) {e : CallEnv × SQLStmt}
    (hnamed : Named w.paths e.2) (h : TreeShows w.paths s.2.data.tree cs) :
    IsDatabase (executorStep w token s e).2.1 ∧
      TreeShows w.paths (executorStep w token s e).2.2.data.tree
        (if (executorPermits s.2.auth e.1.auth.now token e.2).1 then cs.after s.1 e.2 else cs) := by
  unfold executorStep execute
  generalize executorPermits s.2.auth e.1.auth.now token e.2 = permits
  obtain ⟨permitted, a⟩ := permits
  cases permitted with
  | true =>
    have hafter : TreeShows w.paths { s.2 with auth := a }.data.tree cs := h
    exact ⟨isDatabase_next hdb hnamed, shows_dispatch hw htiers hdb hnamed hafter⟩
  | false => exact ⟨hdb, h⟩

/-- **Any statements.** -/
theorem shows_run (hw : ShowsElsewhere w) (htiers : TiersApart w.paths) {token : Bytes}
    {es : List (CallEnv × SQLStmt)} (hnamed : ∀ e ∈ es, Named w.paths e.2)
    {s : Bytes × Service Loc} (hdb : IsDatabase s.1) (h : TreeShows w.paths s.2.data.tree cs) :
    IsDatabase (runTo (executorStep w token) s es).1 ∧
      TreeShows w.paths (runTo (executorStep w token) s es).2.data.tree
        (catalogsAfter w token s cs es) := by
  induction es generalizing s cs with
  | nil => exact ⟨hdb, h⟩
  | cons e es ih =>
    obtain ⟨hfirst, hrest⟩ := List.forall_mem_cons.mp hnamed
    obtain ⟨hdb', hafter⟩ := shows_executorStep hw htiers hdb hfirst h
    exact ih hrest hdb' hafter

end Runs

/-! ## What is answered -/

/-- What the catalogs have of what is asked for. -/
def askedNames (cs : Catalogs) (db : Bytes) (stmt : ShowStmt) : Set Bytes :=
  match stmt.type with
  | .tables => (cs (if stmt.filterDb = [] then db else stmt.filterDb)).tables
  | .tags => {tag | (stmt.filterTable, tag) ∈ (cs db).tags}
  | _ => ∅

/-- The tables of a database are asked for, or the tags of a table. -/
def AsksNames (stmt : ShowStmt) : Prop :=
  match stmt.type with
  | .tables => stmt.filterDb = [] ∨ IsDatabase stmt.filterDb
  | .tags => IsName stmt.filterTable
  | _ => False

/-- The column that a `SHOW` answers in. -/
def showColumn (stmt : ShowStmt) : Bytes :=
  match stmt.type with
  | .tables => ascii "Table"
  | _ => ascii "Tag"

theorem directoryRows_eq (listing : Option (List DirEntry)) :
    directoryRows listing = (directoryNames listing).map fun name => [name] := by
  unfold directoryRows directoryNames
  rw [List.map_map]
  rfl

/-- The directory of the tables, without the slash at its end. -/
theorem dropLast_allTables (paths : DataPaths) (db : Bytes) :
    (if (paths.getTablePath db []).getLast? = some slash then (paths.getTablePath db []).dropLast
      else paths.getTablePath db []) = tablesDir paths db := by
  have hsplit : paths.getTablePath db [] = tablesDir paths db ++ [slash] :=
    getTablePath_eq paths db []
  rw [hsplit, List.getLast?_concat, if_pos rfl, List.dropLast_concat]

section Answers

variable {paths : DataPaths} {t : Tree} {cs : Catalogs} {db : Bytes}

/-- **The directory that is listed has the names that are asked for.** -/
theorem names_of_shows (htiers : TiersApart paths) (hdb : IsDatabase db) (h : TreeShows paths t cs)
    {stmt : ShowStmt} (hasks : AsksNames stmt) {path : Bytes}
    (hpath : showPath paths db stmt = some path) {listing : Option (List DirEntry)}
    (hlisting : t.IsListing path listing) :
    (directoryNames listing).Nodup ∧
      ∀ name, name ∈ directoryNames listing ↔ name ∈ askedNames cs db stmt := by
  unfold AsksNames at hasks
  unfold showPath at hpath
  unfold askedNames
  cases htype : stmt.type with
  | tables =>
    rw [htype] at hasks hpath
    dsimp only at hasks hpath ⊢
    have hwhich : IsDatabase (if stmt.filterDb = [] then db else stmt.filterDb) := by
      split
      case isTrue => exact hdb
      case isFalse hne => exact hasks.resolve_left hne
    generalize (if stmt.filterDb = [] then db else stmt.filterDb) = which at hwhich hpath ⊢
    rw [dropLast_allTables] at hpath
    cases hpath
    obtain ⟨hnodup, hmem⟩ := hlisting.mem_names (staysBelow_place htiers hwhich.1)
    refine ⟨hnodup, fun name => ?_⟩
    rw [hmem, (h which hwhich).node_eq_dir (near_append _ _), (h which hwhich).tables]
  | tags =>
    rw [htype] at hasks hpath
    dsimp only at hasks hpath ⊢
    rw [if_neg hasks.nonempty] at hpath
    cases hpath
    have hbelow : StaysBelow (paths.getTagPath db stmt.filterTable []) := by
      rw [getTagPath_eq, staysBelow_append]
      exact ⟨staysBelow_tagsDir (staysBelow_place htiers hdb.1) hasks.staysBelow, staysBelow_nil⟩
    obtain ⟨hnodup, hmem⟩ := hlisting.mem_names hbelow
    refine ⟨hnodup, fun name => ?_⟩
    rw [hmem, components_allTags hasks, List.append_assoc,
      (h db hdb).node_eq_dir (near_append _ _)]
    exact (h db hdb).tags stmt.filterTable name
  | databases =>
    rw [htype] at hasks
    exact hasks.elim
  | users =>
    rw [htype] at hasks
    exact hasks.elim
  | alarms =>
    rw [htype] at hasks
    exact hasks.elim

end Answers

section Runs

variable [DecidableEq Loc]
variable [LinearOrder V] [Zero V] [Add V] [Mul V] [Div V] [NatCast V] [Sub V]

/-- A `SHOW` of names answers with the directories that are listed. -/
theorem dispatch_show (w : World Loc V) (env : CallEnv) (db token : Bytes) (s : Service Loc)
    {stmt : ShowStmt} (hasks : AsksNames stmt) :
    (dispatch w env db token s (.show_ stmt)).1 = .returned
      (listed [showColumn stmt] ((directoryNames env.listing).map fun name => [name])) := by
  have hdispatch : (dispatch w env db token s (.show_ stmt)).1 = .returned
      (executeShow s.data.alarms.rules s.auth env.auth.now token env.listing stmt).1 := rfl
  unfold AsksNames at hasks
  rw [hdispatch, ← directoryRows_eq]
  unfold executeShow showColumn
  cases htype : stmt.type with
  | tables => rfl
  | tags =>
    rw [htype] at hasks
    dsimp only at hasks ⊢
    rw [if_neg hasks.nonempty]
  | databases =>
    rw [htype] at hasks
    exact hasks.elim
  | users =>
    rw [htype] at hasks
    exact hasks.elim
  | alarms =>
    rw [htype] at hasks
    exact hasks.elim

end Runs

/-! ## A run -/

/-- A tag is created with its table, and a table. -/
def createTwo : List (CallEnv × SQLStmt) :=
  [(callAt 1 [], .createTags
      { tableName := ascii "t", tags := [{ name := ascii "x", props := [] }] }),
    (callAt 2 [], .createTable { tableName := ascii "u", properties := [] })]

/-- The database `d` is there, and has nothing. -/
def databaseOnly : Bytes × Service Bytes :=
  (ascii "d", { plainService with
    data := { plainService.data with tree := .ofDirs [[ascii "hot", ascii "d"]] } })

theorem tiersApart_plain : TiersApart plainWorld.paths where
  hot := by unfold StaysBelow; decide
  cold := by unfold StaysBelow; decide
  apart := by decide
  apart' := by decide

theorem isDatabase_d : IsDatabase (ascii "d") :=
  ⟨⟨by decide, by decide, by decide, by decide⟩, by decide⟩

theorem named_createTwo : ∀ e ∈ createTwo, Named plainWorld.paths e.2 := by
  intro e he
  rcases List.mem_cons.mp he with rfl | he
  · exact ⟨by decide, by decide, by decide, by decide⟩
  · rw [List.mem_singleton.mp he]
    exact trivial

theorem shows_databaseOnly :
    TreeShows plainWorld.paths databaseOnly.2.data.tree fun _ => .empty := by
  intro db hdb
  have hnone : ∀ name rest, databaseOnly.2.data.tree.node
      (components (tablesDir plainWorld.paths db) ++ name :: rest) = none := by
    intro name rest
    refine if_neg ?_
    rw [components_place hdb.1]
    rintro (hnil | ⟨p, hp, hle⟩)
    · simp at hnil
    · rw [List.mem_singleton.mp hp] at hle
      have hlen := hle.length_le
      simp at hlen
      omega
  constructor
  case clear =>
    intro q _ data
    show (if _ then some TreeNode.dir else none) ≠ _
    split
    · exact fun h => nomatch h
    · exact fun h => nomatch h
  case tables =>
    intro table
    rw [hnone]
    exact ⟨fun h => (nomatch h), fun h => (nomatch h)⟩
  case tags =>
    intro table tag
    rw [hnone]
    exact ⟨fun h => (nomatch h), fun h => (nomatch h)⟩

/-- The directories of the tables `t` and `u`. -/
def twoTables : CallEnv :=
  { callAt 3 [] with
    listing := some [TreeNode.entry (ascii "t") .dir, TreeNode.entry (ascii "u") .dir] }

/-- `SHOW TABLES`. -/
def showTables : ShowStmt := { type := .tables }

theorem asksNames_showTables : AsksNames showTables := Or.inl rfl

theorem tables_createTwo :
    (catalogsAfter plainWorld [] databaseOnly (fun _ => .empty) createTwo (ascii "d")).tables
      = {ascii "u", ascii "t"} := by
  show (Catalog.empty.withTag (ascii "t") (ascii "x")).tables.insert (ascii "u") = _
  unfold Catalog.withTag Catalog.empty
  rw [insert_empty_eq]
  rfl

/-- The two directories are what is there. -/
theorem isListing_createTwo :
    (runTo (executorStep plainWorld []) databaseOnly createTwo).2.data.tree.IsListing
      (tablesDir plainWorld.paths (ascii "d")) twoTables.listing := by
  have hw : ShowsElsewhere plainWorld := fun _ _ _ _ _ _ => rfl
  have htree : TreeShows plainWorld.paths
      (runTo (executorStep plainWorld []) databaseOnly createTwo).2.data.tree
      (catalogsAfter plainWorld [] databaseOnly (fun _ => .empty) createTwo) :=
    (shows_run hw tiersApart_plain named_createTwo isDatabase_d shows_databaseOnly).2
  have hthere := htree (ascii "d") isDatabase_d
  generalize (runTo (executorStep plainWorld []) databaseOnly createTwo).2.data.tree = t at hthere ⊢
  have htables := hthere.tables
  rw [tables_createTwo] at htables
  have hplace : t.node (components (tablesDir plainWorld.paths (ascii "d"))) = some .dir :=
    t.closed _ (ascii "t") ((htables (ascii "t")).mpr (by simp))
  refine ⟨_, walk_dir (staysBelow_place tiersApart_plain isDatabase_d.1) hplace, hplace, ?_⟩
  constructor
  case distinct => decide
  case mem_iff =>
    intro entry
    have hname : ∀ name, t.node (components (tablesDir plainWorld.paths (ascii "d")) ++ [name])
        = some .dir ↔ name = ascii "u" ∨ name = ascii "t" := by
      intro name
      rw [hthere.node_eq_dir (near_append _ _), htables, Set.mem_insert_iff, Set.mem_singleton_iff]
    constructor
    · intro hmem
      rcases List.mem_cons.mp hmem with rfl | hmem
      · exact ⟨.dir, (hname _).mpr (.inr rfl), rfl⟩
      · rw [List.mem_singleton.mp hmem]
        exact ⟨.dir, (hname _).mpr (.inl rfl), rfl⟩
    · rintro ⟨node, hnode, hentry⟩
      cases node with
      | file data => exact absurd hnode (hthere.clear _ (near_append _ _) data)
      | dir =>
        rw [hentry]
        rcases (hname entry.name).mp hnode with h | h
        · rw [h]
          exact List.mem_cons_of_mem _ List.mem_cons_self
        · rw [h]
          exact List.mem_cons_self

end Server
end MiniTSDB
