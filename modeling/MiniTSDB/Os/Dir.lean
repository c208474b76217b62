import MiniTSDB.Common.Types
import Mathlib.Data.List.AList

/-!
# `common/os/fs.h`: one directory

A directory is a map from names to what they name. Each operation is what the POSIX call under it
does to the map: creating a file over a directory fails, `rename` replaces a file and fails on a
directory, `remove` takes a file or an empty directory away, and `ListDirectory` gives the
entries in no particular order.
-/

namespace MiniTSDB
namespace Os

/-- What a name in a directory stands for. -/
inductive Node
  | file (data : Bytes)
  | dir (empty : Bool)
  deriving DecidableEq, Repr

structure Dir where
  nodes : AList fun _ : Bytes => Node

def Dir.lookup (d : Dir) (name : Bytes) : Option Node := d.nodes.lookup name

def Dir.set (d : Dir) (name : Bytes) (node : Node) : Dir := { nodes := d.nodes.insert name node }

def Dir.erase (d : Dir) (name : Bytes) : Dir := { nodes := d.nodes.erase name }

def Dir.empty : Dir := { nodes := ∅ }

/-- `DirEntry`, as far as it is read. -/
structure DirEntry where
  name : Bytes
  isDirectory : Bool
  fileSize : Nat
  deriving DecidableEq, Repr

def Node.entry (name : Bytes) : Node → DirEntry
  | .file data => { name := name, isDirectory := false, fileSize := data.length }
  | .dir _ => { name := name, isDirectory := true, fileSize := 0 }

/-- What `ListDirectory` may answer. -/
def Dir.IsListing (d : Dir) (entries : List DirEntry) : Prop :=
  entries.Perm (d.nodes.entries.map fun e => e.2.entry e.1)

/-- The bytes of the file of a name. A directory opens for reading too, but nothing can be read
from it. -/
def Dir.readFile (d : Dir) (name : Bytes) : Option Bytes :=
  match d.lookup name with
  | some (.file data) => some data
  | _ => none

/-- The name is that of a directory, which no file can be opened over. -/
def Dir.isDir (d : Dir) (name : Bytes) : Bool :=
  match d.lookup name with
  | some (.dir _) => true
  | _ => false

/-- `File::Open` with `READ_WRITE`, the bytes written to it, and `Close`. -/
def Dir.create (d : Dir) (name data : Bytes) : Option Dir :=
  match d.lookup name with
  | some (.dir _) => none
  | _ => some (d.set name (.file data))

/-- `fs::Rename`; `none` where it returns false. -/
def Dir.rename (d : Dir) (src dst : Bytes) : Option Dir :=
  match d.lookup src, d.lookup dst with
  | none, _ => none
  | some (.file _), some (.dir _) => none
  | some (.dir _), some (.file _) => none
  | some (.dir _), some (.dir false) => none
  | some node, _ => some ((d.erase src).set dst node)

/-- `fs::Remove`. -/
def Dir.remove (d : Dir) (name : Bytes) : Dir :=
  match d.lookup name with
  | some (.dir false) => d
  | _ => d.erase name

namespace Dir

variable {d : Dir} {entries : List DirEntry} {name other data : Bytes}

@[simp] theorem lookup_empty : Dir.empty.lookup name = none := rfl

@[simp] theorem lookup_set {node : Node} : (d.set name node).lookup name = some node :=
  AList.lookup_insert _

theorem lookup_set_ne {node : Node} (h : other ≠ name) :
    (d.set name node).lookup other = d.lookup other :=
  AList.lookup_insert_ne h

@[simp] theorem lookup_erase : (d.erase name).lookup name = none := AList.lookup_erase _ _

theorem lookup_erase_ne (h : other ≠ name) : (d.erase name).lookup other = d.lookup other :=
  AList.lookup_erase_ne h

theorem IsListing.mem_iff (h : d.IsListing entries) {e : DirEntry} :
    e ∈ entries ↔ ∃ node, d.lookup e.name = some node ∧ e = node.entry e.name := by
  rw [List.Perm.mem_iff h, List.mem_map]
  constructor
  · rintro ⟨⟨name, node⟩, hmem, rfl⟩
    have hname : (node.entry name).name = name := by cases node <;> rfl
    rw [hname]
    exact ⟨node, AList.mem_lookup_iff.mpr hmem, rfl⟩
  · rintro ⟨node, hlookup, he⟩
    exact ⟨⟨e.name, node⟩, AList.mem_lookup_iff.mp hlookup, he.symm⟩

theorem readFile_congr {d' : Dir} (h : d'.lookup name = d.lookup name) :
    d'.readFile name = d.readFile name := by
  rw [readFile, readFile, h]

@[simp] theorem readFile_set_file : (d.set name (.file data)).readFile name = some data := by
  rw [readFile, lookup_set]

theorem readFile_set_ne {node : Node} (h : other ≠ name) :
    (d.set name node).readFile other = d.readFile other :=
  readFile_congr (lookup_set_ne h)

theorem create_of_not_dir (h : ∀ empty, d.lookup name ≠ some (.dir empty)) (data : Bytes) :
    d.create name data = some (d.set name (.file data)) := by
  unfold create
  split
  case h_1 empty hdir => exact absurd hdir (h empty)
  case h_2 => rfl

/-- A file is created where no directory is, and then there is none either. -/
theorem create_spec (d : Dir) (name data : Bytes) :
    d.create name data = if d.isDir name then none else some (d.set name (.file data)) := by
  unfold create isDir
  cases d.lookup name with
  | none => rfl
  | some node =>
    cases node with
    | file _ => rfl
    | dir empty => rfl

theorem isDir_set_file (h : d.isDir name = false) :
    (d.set name (.file data)).isDir other = d.isDir other := by
  by_cases hother : other = name
  · subst hother
    rw [h, isDir, lookup_set]
  · rw [isDir, lookup_set_ne hother, isDir]

theorem create_eq_some {d' : Dir} (h : d.create name data = some d') :
    d' = d.set name (.file data) := by
  unfold create at h
  split at h
  · cases h
  · exact (Option.some.inj h).symm

/-- Renaming a file either replaces what the name stood for or finds a directory there. -/
theorem rename_file {src : Bytes} (h : d.lookup src = some (.file data)) (dst : Bytes) :
    ((∃ empty, d.lookup dst = some (.dir empty)) ∧ d.rename src dst = none) ∨
      d.rename src dst = some ((d.erase src).set dst (.file data)) := by
  cases hdst : d.lookup dst with
  | none => exact .inr (by simp [rename, h, hdst])
  | some node =>
    cases node with
    | file _ => exact .inr (by simp [rename, h, hdst])
    | dir empty => exact .inl ⟨⟨empty, rfl⟩, by simp [rename, h, hdst]⟩

/-- What has been renamed is not there any more. -/
theorem lookup_rename {src dst : Bytes} {d' : Dir} (hne : src ≠ dst)
    (h : d.rename src dst = some d') : d'.lookup src = none := by
  have hmoved : ∃ node, d' = (d.erase src).set dst node := by
    unfold rename at h
    split at h
    case h_5 node hsrc _ _ _ => exact ⟨node, (Option.some.inj h).symm⟩
    all_goals cases h
  obtain ⟨node, rfl⟩ := hmoved
  rw [lookup_set_ne hne, lookup_erase]

theorem remove_file (h : d.lookup name = some (.file data)) : d.remove name = d.erase name := by
  rw [remove, h]

theorem lookup_remove_ne (h : other ≠ name) : (d.remove name).lookup other = d.lookup other := by
  unfold remove
  split
  · rfl
  · exact lookup_erase_ne h

end Dir

end Os
end MiniTSDB
