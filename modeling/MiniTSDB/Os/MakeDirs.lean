import MiniTSDB.Os.Walk

/-!
# What making directories and files changes

`createDirectories` makes the directories on the way that are missing. Of a path without `..` that
is every beginning of it (`node_createDirectories`), unless a file is in the way; and whether or not
one is, nothing else changes (`node_createDirectories_or`).
-/

namespace MiniTSDB
namespace Os

variable {t : Tree}

/-! ## Directories -/

/-- `mkdir` makes a directory where nothing is. -/
theorem node_mkdir {done : List Bytes} {name : Bytes} (hbelow : dotDot ∉ done) (hup : name ≠ dotDot)
    (hdir : t.node (done.filter isComponent) = some .dir) (q : Path) :
    (t.mkdir done name).node q =
      if q = (done ++ [name]).filter isComponent ∧ t.node q = none then some .dir
      else t.node q := by
  unfold Tree.mkdir
  rw [walk_dir hbelow hdir, List.filter_append]
  dsimp only
  by_cases hname : isComponent name = true
  · rw [List.filter_cons_of_pos hname, List.filter_nil]
    split
    case isTrue hnew =>
      unfold Tree.addDir
      dsimp only
      by_cases hq : q = done.filter isComponent ++ [name]
      · rw [if_pos hq, hq, if_pos ⟨rfl, hnew.2.2⟩]
      · rw [if_neg hq, if_neg fun h => hq h.1]
    case isFalse hold =>
      rw [if_neg]
      rintro ⟨rfl, hnone⟩
      exact hold ⟨hname, hup, hnone⟩
  · rw [List.filter_cons_of_neg hname, List.filter_nil, List.append_nil, if_neg fun h => hname h.1,
      if_neg]
    rintro ⟨rfl, hnone⟩
    rw [hdir] at hnone
    cases hnone

/-- Nothing changes but that directories are made. -/
theorem node_mkdirs_or {done rest : List Bytes} (hbelow : dotDot ∉ done ++ rest) (q : Path) :
    (t.mkdirs done rest).node q = t.node q ∨
      (t.node q = none ∧ (t.mkdirs done rest).node q = some .dir ∧
        q <+: (done ++ rest).filter isComponent) := by
  induction rest generalizing t done with
  | nil => exact .inl rfl
  | cons name rest ih =>
    have hsplit : done ++ name :: rest = (done ++ [name]) ++ rest := by
      rw [List.append_assoc]
      rfl
    rw [hsplit] at hbelow
    have hrest := ih (t := t.mkdir done name) hbelow
    rw [List.mem_append, List.mem_append, List.mem_singleton, not_or, not_or] at hbelow
    rw [hsplit]
    unfold Tree.mkdirs
    by_cases hdir : t.node (done.filter isComponent) = some .dir
    · have hone := node_mkdir hbelow.1.1 (Ne.symm hbelow.1.2) hdir q
      split at hone
      case isTrue hnew =>
        have hle : q <+: ((done ++ [name]) ++ rest).filter isComponent := by
          rw [List.filter_append, hnew.1]
          exact List.prefix_append _ _
        rcases hrest with hrest | ⟨hnone, -⟩
        · exact .inr ⟨hnew.2, hrest.trans hone, hle⟩
        · rw [hone] at hnone
          cases hnone
      case isFalse => rwa [hone] at hrest
    · -- behind what is no directory nothing is made
      have hsame : t.mkdir done name = t := by
        unfold Tree.mkdir
        split
        case h_1 => rfl
        case h_2 cwd hcwd =>
          rw [walk_eq hbelow.1.1 hcwd]
          split
          · rfl
          · rfl
      rwa [hsame] at hrest ⊢

/-- **The whole way is there**, if no file is on it. -/
theorem node_mkdirs {done rest : List Bytes} (hbelow : dotDot ∉ done ++ rest)
    (hdir : t.node (done.filter isComponent) = some .dir)
    (hclear : ∀ p, p <+: (done ++ rest).filter isComponent → ∀ data,
      t.node p ≠ some (.file data)) :
    (t.mkdirs done rest).node ((done ++ rest).filter isComponent) = some .dir := by
  induction rest generalizing t done with
  | nil => rwa [List.append_nil]
  | cons name rest ih =>
    have hsplit : done ++ name :: rest = (done ++ [name]) ++ rest := by
      rw [List.append_assoc]
      rfl
    rw [hsplit] at hbelow hclear ⊢
    have hparts := hbelow
    rw [List.mem_append, List.mem_append, List.mem_singleton, not_or, not_or] at hparts
    have hone := node_mkdir hparts.1.1 (Ne.symm hparts.1.2) hdir
    have hnofile : ∀ p, p <+: ((done ++ [name]) ++ rest).filter isComponent → ∀ data,
        (t.mkdir done name).node p ≠ some (.file data) := by
      intro p hp data
      rw [hone]
      split
      · exact fun h => nomatch h
      · exact hclear p hp data
    apply ih hbelow _ hnofile
    -- what was not there is made, and what was there is a directory
    have hle : (done ++ [name]).filter isComponent <+:
        ((done ++ [name]) ++ rest).filter isComponent := by
      rw [List.filter_append (done ++ [name])]
      exact List.prefix_append _ _
    rw [hone]
    split
    case isTrue => rfl
    case isFalse hnot =>
      cases hnode : t.node ((done ++ [name]).filter isComponent) with
      | none => exact absurd ⟨rfl, hnode⟩ hnot
      | some node =>
        cases node with
        | dir => rfl
        | file data => exact absurd hnode (hclear _ hle data)

/-- **Nothing changes but that directories are made on the way.** -/
theorem node_createDirectories_or {path : Bytes} (hpath : StaysBelow path) (q : Path) :
    (t.createDirectories path).node q = t.node q ∨
      (t.node q = none ∧ (t.createDirectories path).node q = some .dir ∧ q <+: components path) := by
  have hpieces : dotDot ∉ [] ++ path.splitOn slash := hpath
  exact node_mkdirs_or hpieces q

/-- **All beginnings of the path are directories afterwards.** -/
theorem node_createDirectories {path : Bytes} (hpath : StaysBelow path)
    (hclear : ∀ p, p <+: components path → ∀ data, t.node p ≠ some (.file data)) (q : Path) :
    (t.createDirectories path).node q =
      if q <+: components path then some .dir else t.node q := by
  have hpieces : dotDot ∉ [] ++ path.splitOn slash := hpath
  have hall : (t.createDirectories path).node (components path) = some .dir :=
    node_mkdirs hpieces t.root hclear
  split
  case isTrue hle =>
    obtain ⟨rest, hrest⟩ := hle
    by_cases hnil : rest = []
    · rw [hnil, List.append_nil] at hrest
      rw [hrest, hall]
    · apply Tree.node_append hnil
      rw [hrest, hall]
      rfl
  case isFalse hnot =>
    rcases node_createDirectories_or hpath q with hsame | ⟨-, -, hle⟩
    · exact hsame
    · exact absurd hle hnot

/-! ## Files -/

/-- The tree with a file, where there is no directory. -/
def Tree.setFile (t : Tree) (cwd : Path) (name data : Bytes) (hdir : t.node cwd = some .dir)
    (hfile : t.node (cwd ++ [name]) ≠ some .dir) : Tree where
  node q := if q = cwd ++ [name] then some (.file data) else t.node q
  root := by rw [if_neg (by simp), t.root]
  closed := by
    intro q last hthere
    split at hthere
    case isTrue heq =>
      have hq : q = cwd := (List.append_inj' heq rfl).1
      rw [hq, if_neg (by simp), hdir]
    case isFalse =>
      have hq := t.closed q last hthere
      rw [if_neg, hq]
      intro heq
      rw [heq] at hq
      exact hfile hq

/-- `File::Open` with `READ_WRITE` of a name in a directory, the bytes written to it, and `Close`. It
does not open where the directory is none, or the name is that of one. -/
def Tree.putFile (t : Tree) (dir name data : Bytes) : Tree :=
  match t.resolve dir with
  | none => t
  | some cwd =>
    if h : t.node cwd = some .dir ∧ t.node (cwd ++ [name]) ≠ some .dir then
      t.setFile cwd name data h.1 h.2
    else t

theorem node_putFile_of_ne {dir name data : Bytes} {q : Path}
    (h : ∀ cwd, t.resolve dir = some cwd → q ≠ cwd ++ [name]) :
    (t.putFile dir name data).node q = t.node q := by
  unfold Tree.putFile
  split
  case h_1 => rfl
  case h_2 cwd hcwd =>
    split
    case isTrue => exact if_neg (h cwd hcwd)
    case isFalse => rfl

end Os
end MiniTSDB
