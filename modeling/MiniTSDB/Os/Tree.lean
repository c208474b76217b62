import MiniTSDB.Common.Types
import Mathlib.Data.List.Induction

/-!
# `common/os/fs.h`: a tree of directories

Below one directory: what each path from there names. Every entry lies in a directory, and that is
part of what a tree is. A path in the code is a text, which `resolve` goes along the way the system
does: an empty piece and `.` stay, `..` goes up, and any other piece has to be there.

Of a path without `..` only the names count (`components`), and what is there is what the whole
path names: `resolve_name`, `resolve_slash`.
-/

namespace MiniTSDB
namespace Os

/-- The names on the way. -/
abbrev Path := List Bytes

inductive TreeNode
  | dir
  | file (data : Bytes)
  deriving DecidableEq, Repr

structure Tree where
  node : Path → Option TreeNode
  root : node [] = some .dir
  closed : ∀ p name, (node (p ++ [name])).isSome = true → node p = some .dir

abbrev slash : UInt8 := 47

def dot : Bytes := ascii "."

def dotDot : Bytes := ascii ".."

/-- One piece of a path, gone along from a directory. -/
def Tree.step (t : Tree) (cwd : Path) (name : Bytes) : Option Path :=
  if t.node cwd ≠ some .dir then none
  else if name = [] ∨ name = dot then some cwd
  else if name = dotDot then some cwd.dropLast
  else if (t.node (cwd ++ [name])).isSome then some (cwd ++ [name])
  else none

/-- What the path leads to, if it leads anywhere. -/
def Tree.resolve (t : Tree) (path : Bytes) : Option Path := (path.splitOn slash).foldlM t.step []

/-- `fs::Exists`. -/
def Tree.pathExists (t : Tree) (path : Bytes) : Bool := (t.resolve path).isSome

/-- The tree without what is at the path and below it, or only without what is below. -/
def Tree.remove (t : Tree) (p : Path) (stays : Bool) : Tree where
  node q := if p <+: q ∧ (q = p → stays = false ∧ p ≠ []) then none else t.node q
  root := by
    rw [if_neg, t.root]
    intro ⟨hle, hself⟩
    exact (hself (List.prefix_nil.mp hle).symm).2 (List.prefix_nil.mp hle)
  closed := by
    intro q name h
    split at h
    case isTrue => cases h
    case isFalse hkept =>
      rw [if_neg, t.closed q name h]
      intro ⟨hle, _⟩
      apply hkept
      refine ⟨hle.trans (List.prefix_append _ _), ?_⟩
      intro heq
      have hlen := hle.length_le
      rw [← heq, List.length_append, List.length_singleton] at hlen
      omega

/-- `fs::RemoveAll`: a directory goes with everything below it. One that the path names by `.` or
`..` is emptied, as no such path can be given to `rmdir`. -/
def Tree.removeAll (t : Tree) (path : Bytes) : Tree :=
  match t.resolve path with
  | none => t
  | some p =>
    let last := (path.splitOn slash).getLast?
    t.remove p (last = some dot ∨ last = some dotDot)

/-- The tree of these directories, and those on the way to them. -/
def Tree.ofDirs (dirs : List Path) : Tree where
  node q := if q = [] ∨ ∃ p ∈ dirs, q <+: p then some .dir else none
  root := if_pos (.inl rfl)
  closed := by
    intro p name h
    split at h
    case isFalse => cases h
    case isTrue hthere =>
      rw [if_pos]
      right
      cases hthere with
      | inl hnil => exact absurd hnil (by simp)
      | inr hbelow =>
        obtain ⟨dir, hdir, hle⟩ := hbelow
        exact ⟨dir, hdir, (List.prefix_append p [name]).trans hle⟩

/-! ## Entries and directories -/

theorem Tree.node_append {t : Tree} {p : Path} {rest : Path} (hne : rest ≠ [])
    (h : (t.node (p ++ rest)).isSome = true) : t.node p = some .dir := by
  induction rest using List.reverseRecOn with
  | nil => exact absurd rfl hne
  | append_singleton rest name ih =>
    rw [← List.append_assoc] at h
    have hdir := t.closed _ _ h
    cases rest with
    | nil => rwa [List.append_nil] at hdir
    | cons r rest =>
      apply ih (List.cons_ne_nil r rest)
      rw [hdir]
      rfl

/-- Below what is no directory there is nothing. -/
theorem Tree.node_below {t : Tree} {p q : Path} (hp : t.node p ≠ some .dir) (hle : p <+: q)
    (hne : q ≠ p) : t.node q = none := by
  obtain ⟨rest, rfl⟩ := hle
  cases h : t.node (p ++ rest) with
  | none => rfl
  | some node =>
    have hrest : rest ≠ [] := by
      intro hnil
      rw [hnil, List.append_nil] at hne
      exact hne rfl
    exact absurd (t.node_append hrest (by rw [h]; rfl)) hp

/-! ## The names of a path -/

/-- A piece that is a name. -/
def isComponent (name : Bytes) : Bool := name ≠ [] ∧ name ≠ dot

/-- The names of a path without `..`. -/
def components (path : Bytes) : Path := (path.splitOn slash).filter isComponent

/-- The path does not go up. -/
def StaysBelow (path : Bytes) : Prop := dotDot ∉ path.splitOn slash

theorem splitOn_slash_append (a b : Bytes) :
    (a ++ slash :: b).splitOn slash = a.splitOn slash ++ b.splitOn slash :=
  List.splitOn_append_cons_self a b

theorem components_append (a b : Bytes) :
    components (a ++ slash :: b) = components a ++ components b := by
  rw [components, splitOn_slash_append, List.filter_append]
  rfl

theorem components_nil : components [] = [] := by decide

theorem staysBelow_nil : StaysBelow [] := by
  unfold StaysBelow
  decide

theorem staysBelow_append {a b : Bytes} :
    StaysBelow (a ++ slash :: b) ↔ StaysBelow a ∧ StaysBelow b := by
  unfold StaysBelow
  rw [splitOn_slash_append, List.mem_append, not_or]

/-- A name of one piece. -/
structure IsName (name : Bytes) : Prop where
  noSlash : slash ∉ name
  nonempty : name ≠ []
  notDot : name ≠ dot
  notDotDot : name ≠ dotDot

theorem IsName.splitOn {name : Bytes} (h : IsName name) : name.splitOn slash = [name] :=
  List.splitOn_eq_singleton h.noSlash

theorem IsName.components_eq {name : Bytes} (h : IsName name) : components name = [name] := by
  have hname : isComponent name = true := decide_eq_true ⟨h.nonempty, h.notDot⟩
  rw [components, h.splitOn, List.filter_cons_of_pos hname, List.filter_nil]

theorem IsName.staysBelow {name : Bytes} (h : IsName name) : StaysBelow name := by
  unfold StaysBelow
  rw [h.splitOn, List.mem_singleton]
  exact fun heq => h.notDotDot heq.symm

/-! ## Where a path leads -/

variable {t : Tree}

/-- A directory is reached by its names, whatever is between them. -/
theorem walk_dir {pieces : List Bytes} (hbelow : dotDot ∉ pieces)
    (h : t.node (pieces.filter isComponent) = some .dir) :
    pieces.foldlM t.step [] = some (pieces.filter isComponent) := by
  induction pieces using List.reverseRecOn with
  | nil => rfl
  | append_singleton pieces name ih =>
    rw [List.mem_append, List.mem_singleton, not_or] at hbelow
    rw [List.foldlM_append]
    rw [List.filter_append] at h ⊢
    by_cases hname : isComponent name = true
    · have hparts := of_decide_eq_true hname
      rw [List.filter_cons_of_pos hname, List.filter_nil] at h ⊢
      have hdir := t.closed _ _ (by rw [h]; rfl)
      rw [ih hbelow.1 hdir]
      simp only [Option.bind_eq_bind, Option.bind_some, List.foldlM_cons, List.foldlM_nil,
        Tree.step, hdir, ne_eq, not_true_eq_false, if_false, hparts.1, hparts.2, or_self,
        Ne.symm hbelow.2, h, Option.isSome_some, if_true, Option.pure_def]
    · have hstays : name = [] ∨ name = dot := by
        rw [isComponent, decide_eq_true_eq, not_and_or, not_not, not_not] at hname
        exact hname
      rw [List.filter_cons_of_neg hname, List.filter_nil, List.append_nil] at h ⊢
      rw [ih hbelow.1 h]
      simp only [Option.bind_eq_bind, Option.bind_some, List.foldlM_cons, List.foldlM_nil,
        Tree.step, h, ne_eq, not_true_eq_false, if_false, hstays, if_true, Option.pure_def]

/-- What is reached is what the names say. -/
theorem walk_eq {pieces : List Bytes} {p : Path} (hbelow : dotDot ∉ pieces)
    (h : pieces.foldlM t.step [] = some p) : p = pieces.filter isComponent := by
  induction pieces using List.reverseRecOn generalizing p with
  | nil =>
    cases h
    rfl
  | append_singleton pieces name ih =>
    rw [List.mem_append, List.mem_singleton, not_or] at hbelow
    rw [List.foldlM_append] at h
    obtain ⟨cwd, hcwd, h⟩ := Option.bind_eq_some_iff.mp h
    rw [List.foldlM_cons] at h
    obtain ⟨q, hq, h⟩ := Option.bind_eq_some_iff.mp h
    cases h
    have hcwd' := ih hbelow.1 hcwd
    rw [Tree.step] at hq
    rw [List.filter_append, ← hcwd']
    by_cases hname : name = [] ∨ name = dot
    · have hpiece : isComponent name = false := by
        rw [isComponent, decide_eq_false_iff_not, not_and_or, not_not, not_not]
        exact hname
      rw [List.filter_cons_of_neg (by rw [hpiece]; decide), List.filter_nil, List.append_nil]
      simp only [hname, if_true] at hq
      split at hq
      case isTrue => cases hq
      case isFalse => exact (Option.some.inj hq).symm
    · have hpiece : isComponent name = true := by
        rw [isComponent, decide_eq_true_eq]
        exact not_or.mp hname
      rw [List.filter_cons_of_pos hpiece, List.filter_nil]
      simp only [hname, if_false, Ne.symm hbelow.2] at hq
      split at hq
      case isTrue => cases hq
      case isFalse =>
        split at hq
        case isTrue => exact (Option.some.inj hq).symm
        case isFalse => cases hq

/-- Behind what is no directory nothing is reached. -/
theorem walk_past_no_dir {dir : Bytes} (hdir : StaysBelow dir)
    (h : t.node (components dir) ≠ some .dir) (piece : Bytes) :
    ((dir.splitOn slash).foldlM t.step [] >>= fun p => [piece].foldlM t.step p) = none := by
  cases hwalk : (dir.splitOn slash).foldlM t.step [] with
  | none => rfl
  | some p =>
    have hp := walk_eq hdir hwalk
    simp only [Option.bind_eq_bind, Option.bind_some, List.foldlM_cons, Tree.step, hp]
    rw [← components]
    simp only [ne_eq, h, not_false_eq_true, if_true, Option.bind_none]

/-- **A path that ends in a name leads there if there is something of that name.** -/
theorem resolve_name {dir name : Bytes} (hdir : StaysBelow dir) (hname : IsName name) :
    t.resolve (dir ++ slash :: name) =
      if (t.node (components dir ++ [name])).isSome then some (components dir ++ [name])
      else none := by
  rw [Tree.resolve, splitOn_slash_append, hname.splitOn, List.foldlM_append]
  have hstays : ¬ (name = [] ∨ name = dot) := not_or.mpr ⟨hname.nonempty, hname.notDot⟩
  by_cases h : t.node (components dir) = some .dir
  · rw [walk_dir hdir h]
    simp only [Option.bind_eq_bind, Option.bind_some, List.foldlM_cons, List.foldlM_nil, Tree.step]
    rw [← components]
    simp only [h, ne_eq, not_true_eq_false, if_false, hstays, hname.notDotDot]
    split
    · rfl
    · rfl
  · have hnone : t.node (components dir ++ [name]) = none :=
      t.node_below h (List.prefix_append _ _) (by simp)
    rw [hnone, walk_past_no_dir hdir h]
    rfl

/-- **A path that ends in a slash leads to a directory.** -/
theorem resolve_slash {dir : Bytes} (hdir : StaysBelow dir) :
    t.resolve (dir ++ [slash]) =
      if t.node (components dir) = some .dir then some (components dir) else none := by
  have hsplit : (dir ++ [slash]).splitOn slash = dir.splitOn slash ++ [[]] :=
    splitOn_slash_append dir []
  rw [Tree.resolve, hsplit, List.foldlM_append]
  by_cases h : t.node (components dir) = some .dir
  · rw [walk_dir hdir h]
    simp only [Option.bind_eq_bind, Option.bind_some, List.foldlM_cons, List.foldlM_nil, Tree.step]
    rw [← components]
    simp only [h, ne_eq, not_true_eq_false, if_false, true_or, if_true]
    rfl
  · rw [if_neg h, walk_past_no_dir hdir h]

theorem pathExists_name {dir name : Bytes} (hdir : StaysBelow dir) (hname : IsName name) :
    t.pathExists (dir ++ slash :: name) = (t.node (components dir ++ [name])).isSome := by
  rw [Tree.pathExists, resolve_name hdir hname]
  split
  case isTrue h => rw [h, Option.isSome_some]
  case isFalse h => rw [Bool.not_eq_true _ |>.mp h, Option.isSome_none]

/-! ## What `RemoveAll` leaves -/

/-- **What a name stands for goes, with everything below it.** -/
theorem node_removeAll_name {dir name : Bytes} (hdir : StaysBelow dir) (hname : IsName name)
    (q : Path) :
    (t.removeAll (dir ++ slash :: name)).node q =
      if components dir ++ [name] <+: q then none else t.node q := by
  have hlast : ((dir ++ slash :: name).splitOn slash).getLast? = some name := by
    rw [splitOn_slash_append, hname.splitOn, List.getLast?_concat]
  unfold Tree.removeAll
  rw [resolve_name hdir hname]
  by_cases hthere : (t.node (components dir ++ [name])).isSome = true
  · have hstays : decide (some name = some dot ∨ some name = some dotDot) = false := by
      simp [hname.notDot, hname.notDotDot]
    rw [if_pos hthere]
    simp only [hlast, hstays, Tree.remove]
    simp
  · rw [if_neg hthere]
    dsimp only
    split
    case isFalse => rfl
    case isTrue hle =>
      by_cases hq : q = components dir ++ [name]
      · rw [hq]
        exact Option.not_isSome_iff_eq_none.mp hthere
      · exact t.node_below (fun hdir => hthere (by rw [hdir]; rfl)) hle hq

/-- **A directory goes with everything below it**, its path with a slash at the end. -/
theorem node_removeAll_slash {dir : Bytes} (hdir : StaysBelow dir) {q : Path}
    (hq : q ≠ components dir) :
    (t.removeAll (dir ++ [slash])).node q =
      if components dir <+: q then none else t.node q := by
  unfold Tree.removeAll
  rw [resolve_slash hdir]
  by_cases hthere : t.node (components dir) = some .dir
  · rw [if_pos hthere]
    simp only [Tree.remove, hq, false_imp_iff, and_true]
  · rw [if_neg hthere]
    dsimp only
    split
    case isFalse => rfl
    case isTrue hle => exact t.node_below hthere hle hq

end Os
end MiniTSDB
