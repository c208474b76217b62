import MiniTSDB.Os.Dir
import MiniTSDB.Os.Walk

/-!
# `ListDirectory` of a tree

What a directory has in it, in no particular order: each name once, with what it stands for.
-/

namespace MiniTSDB
namespace Os

/-- What `stat` says of an entry. -/
def TreeNode.entry (name : Bytes) : TreeNode → DirEntry
  | .dir => { name := name, isDirectory := true, fileSize := 0 }
  | .file data => { name := name, isDirectory := false, fileSize := data.length }

/-- These are the entries of the directory. -/
structure Tree.IsEntries (t : Tree) (dir : Path) (entries : List DirEntry) : Prop where
  distinct : (entries.map DirEntry.name).Nodup
  mem_iff : ∀ entry, entry ∈ entries ↔
    ∃ node, t.node (dir ++ [entry.name]) = some node ∧ entry = node.entry entry.name

/-- What `ListDirectory` may answer; `none` where it returns false. -/
def Tree.IsListing (t : Tree) (path : Bytes) : Option (List DirEntry) → Prop
  | none => ∀ dir, t.resolve path = some dir → t.node dir ≠ some .dir
  | some entries => ∃ dir, t.resolve path = some dir ∧ t.node dir = some .dir ∧
      t.IsEntries dir entries

/-- The names of the directories in a listing. -/
def directoryNames (listing : Option (List DirEntry)) : List Bytes :=
  ((listing.getD []).filter (·.isDirectory)).map DirEntry.name

variable {t : Tree} {dir : Path} {entries : List DirEntry}

theorem Tree.IsEntries.nodup_names (h : t.IsEntries dir entries) :
    (directoryNames (some entries)).Nodup :=
  h.distinct.sublist (List.filter_sublist.map _)

/-- The directories among the entries are those in the tree. -/
theorem Tree.IsEntries.mem_names (h : t.IsEntries dir entries) {name : Bytes} :
    name ∈ directoryNames (some entries) ↔ t.node (dir ++ [name]) = some .dir := by
  unfold directoryNames
  rw [Option.getD_some, List.mem_map]
  constructor
  · rintro ⟨entry, hmem, rfl⟩
    obtain ⟨hmem, hdir⟩ := List.mem_filter.mp hmem
    obtain ⟨node, hnode, hentry⟩ := (h.mem_iff entry).mp hmem
    cases node with
    | dir => exact hnode
    | file data =>
      rw [hentry] at hdir
      cases hdir
  · intro hnode
    refine ⟨TreeNode.entry name .dir, List.mem_filter.mpr ⟨?_, rfl⟩, rfl⟩
    exact (h.mem_iff _).mpr ⟨.dir, hnode, rfl⟩

/-- **A path without `..` lists what is below its names.** -/
theorem Tree.IsListing.mem_names {path : Bytes} {listing : Option (List DirEntry)}
    (h : t.IsListing path listing) (hpath : StaysBelow path) :
    (directoryNames listing).Nodup ∧ ∀ name, name ∈ directoryNames listing ↔
      t.node (components path ++ [name]) = some .dir := by
  cases listing with
  | none =>
    -- nothing is listed where there is no directory, and below that there is nothing
    refine ⟨List.nodup_nil, fun name => ⟨fun hmem => (nomatch hmem), fun hnode => ?_⟩⟩
    have hdir : t.node (components path) = some .dir := t.closed _ name (by rw [hnode]; rfl)
    exact absurd hdir (h _ (walk_dir hpath hdir))
  | some entries =>
    obtain ⟨dir, hresolve, -, hentries⟩ := h
    have hplace : dir = components path := walk_eq hpath hresolve
    subst hplace
    exact ⟨hentries.nodup_names, fun name => hentries.mem_names⟩

end Os
end MiniTSDB
