import MiniTSDB.Sql.Ddl

/-!
# What a `DROP DATABASE` removes

It should be the directory of the database. The tables of the current database go as well, and
the directory is found by a text that may be in `hot_path`: `dropDatabase_confined_iff`.
-/

namespace MiniTSDB
namespace Sql

open Lib Os Storage

/-- The current database, and every database but the one dropped. -/
def StaysAs (currentDb dbName other : Bytes) : Prop :=
  other = currentDb ∨ (isValidName other 64 = true ∧ other ≠ dbName)

/-- The directory of the database goes, and nothing of the others. -/
structure DropConfined (paths : DataPaths) (currentDb dbName : Bytes) (before after : Tree) :
    Prop where
  removes : after.pathExists (paths.hot ++ slash :: dbName) = false
  keeps : ∀ other, StaysAs currentDb dbName other → ∀ base ∈ paths.bases, ∀ place,
    before.resolve (base ++ slash :: other) = some place →
      ∀ q, place <+: q → after.node q = before.node q

/-- The current database has no directory of tables. -/
def NoTables (paths : DataPaths) (t : Tree) (currentDb : Bytes) : Prop :=
  ∀ base ∈ paths.bases, t.pathExists (base ++ slash :: tablePath currentDb []) = false

/-- The directory removed is not in that of another database, nor around it. -/
def Apart (paths : DataPaths) (t : Tree) (currentDb dbName : Bytes) : Prop :=
  ∀ other, StaysAs currentDb dbName other → ∀ base ∈ paths.bases, ∀ place removed,
    t.resolve (base ++ slash :: other) = some place →
      t.resolve (databaseDir paths dbName) = some removed →
        ¬ place <+: removed ∧ ¬ removed <+: place

/-! ## The directory that is removed -/

theorem getTagPath_database (paths : DataPaths) (dbName : Bytes) : paths.getTagPath dbName [] []
    = paths.hot ++ slash :: dbName ++ (ascii "/tables/" ++ ascii "/tags/") := by
  unfold DataPaths.getTagPath tagPath tablePath
  simp only [List.append_nil, List.append_assoc, List.cons_append]

/-- **What is removed is the database's directory, or one on the way to it.** -/
theorem databaseDir_spec (paths : DataPaths) (dbName : Bytes) :
    (∃ before, databaseDir paths dbName = before ++ dbName) ∧
      ∃ rest, paths.hot ++ slash :: dbName = databaseDir paths dbName ++ rest ∧
        (rest = [] ∨ ∃ after, rest = slash :: after) := by
  refine ⟨⟨_, rfl⟩, ?_⟩
  have hplace : dbName ++ ascii "/tables/"
      <+: (paths.getTagPath dbName [] []).drop (paths.hot.length + 1) := by
    have hcut : paths.getTagPath dbName [] [] = (paths.hot ++ [slash])
        ++ (dbName ++ ascii "/tables/" ++ ascii "/tags/") := by
      rw [getTagPath_database]
      simp only [List.append_assoc, List.cons_append, List.nil_append]
    have hlen : (paths.hot ++ [slash]).length = paths.hot.length + 1 := List.length_append
    rw [hcut, ← hlen, List.drop_left]
    exact List.prefix_append _ _
  -- the name is found at its place or in front of it, in the path of the tier
  obtain ⟨i, hi⟩ := exists_find (hplace.isInfix.trans (List.drop_suffix _ _).isInfix)
  have hle : i ≤ paths.hot.length + 1 := find_le hi hplace
  obtain ⟨⟨behind, hbehind⟩, -⟩ := find_eq_some hi
  have hdir : databaseDir paths dbName = (paths.getTagPath dbName [] []).take i ++ dbName := by
    rw [databaseDir, hi, Option.getD_some]
  -- both are at the front of one text, so one is at the front of the other
  have hfull : databaseDir paths dbName ++ (ascii "/tables/" ++ behind)
      = paths.getTagPath dbName [] [] := by
    rw [hdir, List.append_assoc, ← List.append_assoc dbName, hbehind, List.take_append_drop]
  have hlonger : paths.hot ++ slash :: dbName <+: paths.getTagPath dbName [] [] := by
    rw [getTagPath_database]
    exact List.prefix_append _ _
  have hshort : (databaseDir paths dbName).length ≤ (paths.hot ++ slash :: dbName).length := by
    rw [hdir, List.length_append, List.length_append, List.length_cons, List.length_take]
    omega
  have hprefix : databaseDir paths dbName <+: paths.hot ++ slash :: dbName := by
    refine List.prefix_of_prefix_length_le ?_ hlonger hshort
    rw [← hfull]
    exact List.prefix_append _ _
  obtain ⟨rest, hrest⟩ := hprefix
  refine ⟨rest, hrest.symm, ?_⟩
  obtain ⟨more, hmore⟩ := hlonger
  rw [← hrest, ← hfull, List.append_assoc, List.append_cancel_left_eq] at hmore
  cases rest with
  | nil => exact .inl rfl
  | cons c rest =>
    right
    have hc : c = slash := (List.cons.inj hmore).1
    exact ⟨rest, by rw [hc]⟩

/-- A name at the end of a piece makes it neither `.` nor `..`. -/
theorem component_of_name {name : Bytes} (hne : name ≠ [])
    (hchars : ∀ c ∈ name, isNameChar c = true) (front : Bytes) :
    isComponent (front ++ name) = true ∧ front ++ name ≠ dotDot := by
  obtain ⟨init, last, hlast⟩ : ∃ init last, name = init ++ [last] :=
    ⟨_, _, (List.dropLast_append_getLast hne).symm⟩
  have hchar : isNameChar last = true := hchars last (by rw [hlast]; simp)
  have hdot : last ≠ 46 := fun heq => absurd (heq ▸ hchar) (by decide)
  have hend : ∀ word, front ++ name = word ++ [46] → False := by
    intro word heq
    rw [hlast, ← List.append_assoc] at heq
    exact hdot (List.cons.inj (List.append_inj' heq rfl).2).1
  constructor
  · rw [isComponent, decide_eq_true_eq]
    exact ⟨List.append_ne_nil_of_right_ne_nil _ hne, hend []⟩
  · exact hend Os.dot

theorem endsInName_databaseDir (paths : DataPaths) {dbName : Bytes}
    (h : isValidName dbName 64 = true) : EndsInName (databaseDir paths dbName) := by
  obtain ⟨hne, hchars⟩ := chars_of_isValidName h
  exact endsInName_append _ (isName_of_isValidName h).noSlash (component_of_name hne hchars)

/-! ## Confined or not -/

/-- The path of all tables leads to the directory `tables` of the database. -/
theorem resolve_allTables {t : Tree} {base currentDb : Bytes} {tables : Path} :
    t.resolve (base ++ slash :: tablePath currentDb []) = some tables ↔
      ∃ place, t.resolve (base ++ slash :: currentDb) = some place ∧ t.node place = some .dir ∧
        tables = place ++ [ascii "tables"] ∧ t.node tables = some .dir := by
  have hpath : base ++ slash :: tablePath currentDb []
      = (base ++ slash :: currentDb) ++ slash :: (ascii "tables" ++ slash :: []) := by
    unfold tablePath
    simp only [List.append_nil, List.append_assoc, List.cons_append]
    rfl
  rw [hpath, resolve_append, Option.bind_eq_some_iff]
  refine exists_congr fun place => and_congr_right fun _ => ?_
  rw [walk_append, walk_name isName_tables, Option.bind_eq_some_iff]
  constructor
  · rintro ⟨cwd, hcwd, hlast⟩
    split at hcwd
    case isFalse => cases hcwd
    case isTrue hthere =>
      cases hcwd
      rw [walk_nil] at hlast
      split at hlast
      case isFalse => cases hlast
      case isTrue hdir =>
        cases hlast
        exact ⟨hthere.1, rfl, hdir⟩
  · rintro ⟨hdir, rfl, htables⟩
    refine ⟨place ++ [ascii "tables"], ?_, ?_⟩
    · rw [if_pos ⟨hdir, by rw [htables]; rfl⟩]
    · rw [walk_nil, if_pos htables]

/-- Dropping all tables of a database takes its directory of tables away. -/
theorem node_dropAllTables {t : Tree} {base currentDb : Bytes} {tables : Path}
    (h : t.resolve (base ++ slash :: tablePath currentDb []) = some tables) :
    (dropPath t (base ++ slash :: tablePath currentDb [])).node tables = none := by
  have hne : tables ≠ [] := by
    rw [resolve_allTables] at h
    obtain ⟨place, -, -, rfl, -⟩ := h
    simp
  have hlast : ∀ piece ∈ ((base ++ slash :: tablePath currentDb []).splitOn slash).getLast?,
      piece ≠ Os.dot ∧ piece ≠ dotDot := by
    have hpath : base ++ slash :: tablePath currentDb []
        = (base ++ slash :: (currentDb ++ ascii "/tables")) ++ slash :: [] := by
      unfold tablePath
      simp only [List.append_nil, List.append_assoc, List.cons_append]
      rfl
    have hnil : ([] : Bytes).splitOn slash = [[]] := by decide
    intro piece hpiece
    rw [hpath, splitOn_slash_append, hnil, List.getLast?_concat, Option.mem_some_iff] at hpiece
    rw [← hpiece]
    exact ⟨by decide, by decide⟩
  rw [dropPath_eq, node_removeAll h hne hlast, if_pos (List.prefix_refl _)]

theorem sub_dropPath (t : Tree) (path : Bytes) : (dropPath t path).Sub t := by
  rw [dropPath_eq]
  exact sub_removeAll t path

theorem runOps_dropDatabase (paths : DataPaths) (currentDb dbName : Bytes) (t : Tree) :
    runOps t (executeDropDatabase paths currentDb dbName).2 =
      (dropPath (dropPath t (paths.getTablePath currentDb [])) (paths.coldTable currentDb
        [])).removeAll (databaseDir paths dbName) := rfl

/-- With no tables to drop, only the directory is removed. -/
theorem dropDatabase_noTables {paths : DataPaths} {currentDb : Bytes} {t : Tree}
    (h : NoTables paths t currentDb) (dbName : Bytes) :
    runOps t (executeDropDatabase paths currentDb dbName).2
      = t.removeAll (databaseDir paths dbName) := by
  have hhot : dropPath t (paths.getTablePath currentDb []) = t :=
    if_neg (by rw [DataPaths.getTablePath, h _ List.mem_cons_self]; decide)
  have hcold : dropPath t (paths.coldTable currentDb []) = t :=
    if_neg (by rw [DataPaths.coldTable, h _ (by simp [DataPaths.bases])]; decide)
  rw [runOps_dropDatabase, hhot, hcold]

/-- The tables of the current database are kept only if there are none. -/
theorem noTables_of_kept {paths : DataPaths} {currentDb dbName : Bytes} {t : Tree}
    (hkept : ∀ base ∈ paths.bases, ∀ tables,
      t.resolve (base ++ slash :: tablePath currentDb []) = some tables →
        (runOps t (executeDropDatabase paths currentDb dbName).2).node tables = some .dir) :
    NoTables paths t currentDb := by
  rw [runOps_dropDatabase] at hkept
  have hhot : t.resolve (paths.getTablePath currentDb []) = none := by
    cases htables : t.resolve (paths.getTablePath currentDb []) with
    | none => rfl
    | some tables =>
      have hthere := hkept paths.hot List.mem_cons_self tables htables
      have hbefore := ((sub_removeAll _ _).trans (sub_dropPath _ _)) _ _ hthere
      rw [DataPaths.getTablePath, node_dropAllTables htables] at hbefore
      cases hbefore
  have hcold : t.resolve (paths.coldTable currentDb []) = none := by
    have hstays : dropPath t (paths.getTablePath currentDb []) = t := by
      rw [dropPath_eq, removeAll_missing hhot]
    rw [hstays] at hkept
    cases htables : t.resolve (paths.coldTable currentDb []) with
    | none => rfl
    | some tables =>
      have hmem : paths.cold ∈ paths.bases := List.mem_cons_of_mem _ List.mem_cons_self
      have hbefore := (sub_removeAll _ _) _ _ (hkept paths.cold hmem tables htables)
      rw [DataPaths.coldTable, node_dropAllTables htables] at hbefore
      cases hbefore
  intro base hbase
  rw [Tree.pathExists]
  rcases List.mem_cons.mp hbase with rfl | hbase
  · rw [← DataPaths.getTablePath, hhot]
    rfl
  · rw [List.mem_singleton.mp hbase, ← DataPaths.coldTable, hcold]
    rfl

/-- **A `DROP DATABASE` is confined just when the current database has no tables and the removed
directory is apart from the others.** -/
theorem dropDatabase_confined_iff {paths : DataPaths} {currentDb dbName : Bytes} {t : Tree}
    (hd : isValidName dbName 64 = true) :
    DropConfined paths currentDb dbName t
        (runOps t (executeDropDatabase paths currentDb dbName).2) ↔
      NoTables paths t currentDb ∧ Apart paths t currentDb dbName := by
  have hends := endsInName_databaseDir paths hd
  constructor
  · intro hconfined
    have hkept : ∀ base ∈ paths.bases, ∀ tables,
        t.resolve (base ++ slash :: tablePath currentDb []) = some tables →
          (runOps t (executeDropDatabase paths currentDb dbName).2).node tables = some .dir := by
      intro base hbase tables htables
      rw [resolve_allTables] at htables
      obtain ⟨place, hplace, -, rfl, hdir⟩ := htables
      rw [hconfined.keeps currentDb (.inl rfl) base hbase place hplace _ (List.prefix_append _ _)]
      exact hdir
    have hnone := noTables_of_kept hkept
    refine ⟨hnone, ?_⟩
    rw [dropDatabase_noTables hnone] at hconfined
    intro other hother base hbase place removed hplace hremoved
    have hkeeps := hconfined.keeps other hother base hbase place hplace
    constructor
    · -- the removed directory would have been under a kept one
      intro hle
      have hsame := hkeeps removed hle
      rw [hends.node_removeAll hremoved, if_pos (List.prefix_refl _)] at hsame
      have hthere := node_of_resolve hremoved
      rw [← hsame] at hthere
      cases hthere
    · -- a kept directory would have been under the removed one
      intro hle
      have hsame := hkeeps place (List.prefix_refl _)
      rw [hends.node_removeAll hremoved, if_pos hle] at hsame
      have hthere := node_of_resolve hplace
      rw [← hsame] at hthere
      cases hthere
  · intro ⟨hnone, hapart⟩
    rw [dropDatabase_noTables hnone]
    constructor
    case removes =>
      obtain ⟨-, rest, hpath, hrest⟩ := databaseDir_spec paths dbName
      rw [Tree.pathExists, hpath]
      rcases hrest with rfl | ⟨after, rfl⟩
      · rw [List.append_nil, hends.resolve_removeAll]
        rfl
      · rw [resolve_append, hends.resolve_removeAll]
        rfl
    case keeps =>
      intro other hother base hbase place hplace q hq
      cases hremoved : t.resolve (databaseDir paths dbName) with
      | none => rw [removeAll_missing hremoved]
      | some removed =>
        rw [hends.node_removeAll hremoved, if_neg]
        intro hle
        obtain ⟨hnot, hnot'⟩ := hapart other hother base hbase place removed hplace hremoved
        cases List.prefix_or_prefix_of_prefix hle hq with
        | inl h => exact hnot' h
        | inr h => exact hnot h

/-- The tiers in two directories. -/
def twoTiers : DataPaths := { hot := ascii "hot", cold := ascii "cold" }

/-- Two databases, the current one without tables. -/
def emptyCurrent : Tree :=
  .ofDirs [[ascii "hot", ascii "c"], [ascii "hot", ascii "d", ascii "tables", ascii "tags"]]

theorem apart_emptyCurrent : Apart twoTiers emptyCurrent (ascii "c") (ascii "d") := by
  intro other hother base hbase place removed hplace hremoved
  have hvalid : isValidName other 64 = true ∧ other ≠ ascii "d" := by
    cases hother with
    | inl h =>
      rw [h]
      exact ⟨rfl, by decide⟩
    | inr h => exact h
  have hname := isName_of_isValidName hvalid.1
  have hd : emptyCurrent.resolve (databaseDir twoTiers (ascii "d"))
      = some [ascii "hot", ascii "d"] := by decide
  rw [hd] at hremoved
  cases hremoved
  have hbelow : StaysBelow base ∧ ∃ tier, components base = [tier] := by
    rcases List.mem_cons.mp hbase with rfl | hbase
    · exact ⟨by unfold StaysBelow; decide, ascii "hot", by decide⟩
    · rw [List.mem_singleton.mp hbase]
      exact ⟨by unfold StaysBelow; decide, ascii "cold", by decide⟩
  obtain ⟨hbelow, tier, htier⟩ := hbelow
  rw [resolve_name hbelow hname, htier] at hplace
  split at hplace
  case isFalse => cases hplace
  case isTrue =>
    cases hplace
    constructor
    · intro hle
      rw [List.singleton_append, List.cons_prefix_cons, List.cons_prefix_cons] at hle
      exact hvalid.2 hle.2.1
    · intro hle
      rw [List.singleton_append, List.cons_prefix_cons, List.cons_prefix_cons] at hle
      exact hvalid.2 hle.2.1.symm

theorem dropDatabase_confined_empty : DropConfined twoTiers (ascii "c") (ascii "d") emptyCurrent
    (runOps emptyCurrent (executeDropDatabase twoTiers (ascii "c") (ascii "d")).2) := by
  refine (dropDatabase_confined_iff rfl).mpr ⟨?_, apart_emptyCurrent⟩
  intro base hbase
  rcases List.mem_cons.mp hbase with rfl | hbase
  · decide
  · rw [List.mem_singleton.mp hbase]
    decide

/-- Two databases, and the current one has a table. -/
def tableInCurrent : Tree :=
  .ofDirs [[ascii "hot", ascii "c", ascii "tables", ascii "t"], [ascii "hot", ascii "d"]]

/-- `DROP DATABASE d` removes the tables of `c`. -/
theorem dropDatabase_drops_current : ¬ DropConfined twoTiers (ascii "c") (ascii "d") tableInCurrent
    (runOps tableInCurrent (executeDropDatabase twoTiers (ascii "c") (ascii "d")).2) := by
  intro hconfined
  have hplace : tableInCurrent.resolve (ascii "hot" ++ slash :: ascii "c")
      = some [ascii "hot", ascii "c"] := by decide
  have hsame := hconfined.keeps (ascii "c") (.inl rfl) (ascii "hot") List.mem_cons_self _ hplace
    [ascii "hot", ascii "c", ascii "tables"] (List.prefix_append _ [ascii "tables"])
  have hgone : (runOps tableInCurrent (executeDropDatabase twoTiers (ascii "c")
      (ascii "d")).2).node [ascii "hot", ascii "c", ascii "tables"] = none := by decide
  have hthere : tableInCurrent.node [ascii "hot", ascii "c", ascii "tables"] = some .dir := by
    decide
  rw [hgone, hthere] at hsame
  cases hsame

end Sql
end MiniTSDB
