import MiniTSDB.Os.Dir
import Mathlib.Data.List.Induction
import Mathlib.Data.List.Infix
import Mathlib.Data.List.Perm.Basic

/-!
# `SnapshotStore` (`snapshot_store.cpp`)

The latest value of each tag, as a map in memory and as a file. Saving moves the file that is
there to `snapshot.pb.bak` and writes `snapshot.pb` anew; loading reads `snapshot.pb`, and the
backup when that cannot be parsed.

The file is a protocol buffer, and what reads and writes it is not part of the repository:
`SnapshotFormat` stands for it, and `SnapshotFormat.Documents` says what is known of it.
-/

namespace MiniTSDB
namespace Snapshot

open Os

/-- `CachedSnapshot`, and the `SnapshotEntry` of the file, which has the same fields. The value is
the bit pattern of a double. -/
structure CachedSnapshot where
  timestamp : Timestamp := 0
  value : UInt64 := 0
  tag : Bytes := []
  valid : Bool := false
  deriving DecidableEq, Repr

/-- `snapshot_`: an entry is filed under its own tag. -/
structure SnapshotMap where
  map : AList fun _ : Bytes => CachedSnapshot
  keyed : ∀ tag entry, map.lookup tag = some entry → entry.tag = tag

def SnapshotMap.empty : SnapshotMap where
  map := ∅
  keyed := fun _ _ h => nomatch h

/-- `snapshot_[entry.tag] = entry`. -/
def SnapshotMap.put (m : SnapshotMap) (entry : CachedSnapshot) : SnapshotMap where
  map := m.map.insert entry.tag entry
  keyed := by
    intro tag other h
    by_cases htag : tag = entry.tag
    · rw [htag, AList.lookup_insert, Option.some.injEq] at h
      rw [htag, h]
    · rw [AList.lookup_insert_ne htag] at h
      exact m.keyed tag other h

/-- The entry that `OnWrite` makes. The value of a text stays 0. -/
def CachedSnapshot.ofPoint (tag : Bytes) (point : DataPoint) : CachedSnapshot where
  timestamp := point.ts
  value := match point.value with
    | .double bits => bits
    | .int64 i => doubleOfInt i
    | .string _ => 0
  tag := tag
  valid := true

/-- `OnWrite`. -/
def SnapshotMap.onWrite (m : SnapshotMap) (tag : Bytes) (point : DataPoint) : SnapshotMap :=
  m.put (.ofPoint tag point)

/-- `Get`. -/
def SnapshotMap.get (m : SnapshotMap) (tag : Bytes) : Option CachedSnapshot := m.map.lookup tag

theorem get_onWrite (m : SnapshotMap) (tag : Bytes) (point : DataPoint) (other : Bytes) :
    (m.onWrite tag point).get other =
      if other = tag then some (.ofPoint tag point) else m.get other := by
  unfold SnapshotMap.get SnapshotMap.onWrite SnapshotMap.put
  split
  case isTrue h =>
    rw [h]
    exact AList.lookup_insert _
  case isFalse h => exact AList.lookup_insert_ne h

/-- `Count`. -/
def SnapshotMap.count (m : SnapshotMap) : Nat := m.map.entries.length

/-- What going over the map may give, in the order it comes in. -/
def SnapshotMap.Lists (m : SnapshotMap) (order : List CachedSnapshot) : Prop :=
  (order.map fun entry => (⟨entry.tag, entry⟩ : Sigma fun _ : Bytes => CachedSnapshot)).Perm
    m.map.entries

/-- The same map, whatever the order of its entries. -/
def SnapshotMap.Same (m m' : SnapshotMap) : Prop := ∀ tag, m.get tag = m'.get tag

/-! ## The file -/

structure SnapshotFile where
  saveTime : Int64 := 0
  version : Int64 := 0
  entries : List CachedSnapshot := []
  deriving DecidableEq, Repr

/-- A field of the file: a scalar, or one entry of the repeated field. -/
inductive Field
  | saveTime (t : Int64)
  | version (v : Int64)
  | entry (e : CachedSnapshot)
  deriving DecidableEq, Repr

def Field.entry? : Field → Option CachedSnapshot
  | .entry e => some e
  | _ => none

/-- The fields that are written, by their numbers; a scalar that is zero is not. -/
def SnapshotFile.fields (file : SnapshotFile) : List Field :=
  (if file.saveTime = 0 then [] else [.saveTime file.saveTime])
    ++ (if file.version = 0 then [] else [.version file.version]) ++ file.entries.map .entry

/-- What reading a field does to the message. -/
def SnapshotFile.merge (file : SnapshotFile) : Field → SnapshotFile
  | .saveTime t => { file with saveTime := t }
  | .version v => { file with version := v }
  | .entry e => { file with entries := file.entries ++ [e] }

def SnapshotFile.ofFields (fields : List Field) : SnapshotFile := fields.foldl SnapshotFile.merge {}

/-- The protocol buffer: how a field is written, what of a text is UTF-8, and what
`ParseFromIstream` makes of the bytes of a file. -/
structure SnapshotFormat where
  encode : Field → Bytes
  isUtf8 : Bytes → Bool
  parse : Bytes → Option SnapshotFile

/-- A `string` field that is not UTF-8 is written, and not read. -/
def SnapshotFormat.readable (format : SnapshotFormat) : Field → Bool
  | .entry e => format.isUtf8 e.tag
  | _ => true

/-- `SerializeToOstream`. -/
def SnapshotFormat.serialize (format : SnapshotFormat) (file : SnapshotFile) : Bytes :=
  file.fields.flatMap format.encode

/-- What is documented of the parser, for the bytes of this message: the fields up to a boundary
make a message, with the defaults for what has not come, and bytes that end within a field make
none. -/
structure SnapshotFormat.Documents (format : SnapshotFormat) (file : SnapshotFile) : Prop where
  boundary : ∀ fields, fields <+: file.fields →
    format.parse (fields.flatMap format.encode)
      = if fields.all format.readable then some (.ofFields fields) else none
  cut : ∀ fields f n, fields ++ [f] <+: file.fields → 0 < n → n < (format.encode f).length →
    format.parse (fields.flatMap format.encode ++ (format.encode f).take n) = none

/-- It can be checked of a message. -/
theorem documents_iff {format : SnapshotFormat} {file : SnapshotFile} :
    format.Documents file ↔
      (∀ fields ∈ file.fields.inits, format.parse (fields.flatMap format.encode)
        = if fields.all format.readable then some (.ofFields fields) else none) ∧
      ∀ fields ∈ file.fields.inits, ∀ f ∈ fields.getLast?, ∀ n < (format.encode f).length, 0 < n →
        format.parse (fields.dropLast.flatMap format.encode ++ (format.encode f).take n) = none := by
  constructor
  · intro h
    refine ⟨fun fields hfields => h.boundary fields ((List.mem_inits _ _).mp hfields), ?_⟩
    intro fields hfields f hlast n hlt hpos
    have hsplit : fields = fields.dropLast ++ [f] :=
      (List.dropLast_append_getLast? f hlast).symm
    rw [hsplit, List.mem_inits] at hfields
    exact h.cut _ f n hfields hpos hlt
  · intro ⟨hboundary, hcut⟩
    refine ⟨fun fields hfields => hboundary fields ((List.mem_inits _ _).mpr hfields), ?_⟩
    intro fields f n hfields hpos hlt
    have hnone := hcut _ ((List.mem_inits _ _).mpr hfields) f List.getLast?_concat n hlt hpos
    rwa [List.dropLast_concat] at hnone

instance (format : SnapshotFormat) (file : SnapshotFile) : Decidable (format.Documents file) :=
  decidable_of_iff' _ documents_iff

/-! ## Saving and loading -/

/-- `snapshot_path_`, in the directory of the store. -/
def snapshotPath : Bytes := ascii "snapshot.pb"

def bakPath : Bytes := snapshotPath ++ ascii ".bak"

/-- The file that is there is moved to the backup. Whether that went well is not asked. -/
def backup (d : Dir) : Dir :=
  if (d.lookup snapshotPath).isSome then (d.rename snapshotPath bakPath).getD d else d

/-- The message of a save: the clock, a version, and the entries as the map gives them. -/
def snapshotFile (now : Int64) (order : List CachedSnapshot) : SnapshotFile :=
  { saveTime := now, version := 1, entries := order }

/-- `SaveToFile`, up to the first `n` bytes of the message. -/
def saveUpTo (format : SnapshotFormat) (d : Dir) (now : Int64) (order : List CachedSnapshot)
    (n : Nat) : Option Dir :=
  (backup d).create snapshotPath ((format.serialize (snapshotFile now order)).take n)

/-- `SaveToFile`: what it returns, and the directory. -/
def saveToFile (format : SnapshotFormat) (d : Dir) (now : Int64) (order : List CachedSnapshot) :
    Bool × Dir :=
  match saveUpTo format d now order (format.serialize (snapshotFile now order)).length with
  | some d' => (true, d')
  | none => (false, backup d)

/-- What a crash within `SaveToFile` may leave of the directory. -/
inductive CrashPoint (format : SnapshotFormat) (d : Dir) (now : Int64)
    (order : List CachedSnapshot) : Dir → Prop
  | before : CrashPoint format d now order d
  | renamed : CrashPoint format d now order (backup d)
  | written (n : Nat) (d' : Dir) (h : saveUpTo format d now order n = some d') :
      CrashPoint format d now order d'

/-- The entries that were read, each put into the map. -/
def loadData (entries : List CachedSnapshot) : SnapshotMap := entries.foldl SnapshotMap.put .empty

/-- `LoadFromFile` when `snapshot.pb` cannot be parsed. -/
def loadBackup (format : SnapshotFormat) (d : Dir) : Bool × SnapshotMap :=
  match (d.readFile bakPath).bind format.parse with
  | some file => (true, loadData file.entries)
  | none => (false, .empty)

/-- `LoadFromFile` of a store that has just been made. -/
def loadFromFile (format : SnapshotFormat) (d : Dir) : Bool × SnapshotMap :=
  if (d.lookup snapshotPath).isNone then (true, .empty)
  else
    match (d.readFile snapshotPath).bind format.parse with
    | some file => (true, loadData file.entries)
    | none => loadBackup format d

/-! ## What the map holds -/

theorem get_put (m : SnapshotMap) (entry : CachedSnapshot) (tag : Bytes) :
    (m.put entry).get tag = if tag = entry.tag then some entry else m.get tag := by
  unfold SnapshotMap.get SnapshotMap.put
  split
  case isTrue h => rw [h, AList.lookup_insert]
  case isFalse h => exact AList.lookup_insert_ne h

@[simp] theorem get_empty (tag : Bytes) : SnapshotMap.empty.get tag = none := rfl

theorem loadData_concat (entries : List CachedSnapshot) (entry : CachedSnapshot) :
    loadData (entries ++ [entry]) = (loadData entries).put entry := by
  rw [loadData, List.foldl_append]
  rfl

/-- Nothing is loaded for a tag that no entry has. -/
theorem get_loadData_eq_none {entries : List CachedSnapshot} {tag : Bytes} :
    (loadData entries).get tag = none ↔ ∀ entry ∈ entries, entry.tag ≠ tag := by
  induction entries using List.reverseRecOn with
  | nil => simp [loadData]
  | append_singleton entries entry ih =>
    rw [loadData_concat, get_put]
    split
    case isTrue h => simp [h]
    case isFalse h =>
      rw [ih]
      simp [or_imp, forall_and, Ne.symm h]

/-- An entry whose tag comes once is loaded. -/
theorem get_loadData_of_mem {entries : List CachedSnapshot} {entry : CachedSnapshot}
    (hnodup : (entries.map CachedSnapshot.tag).Nodup) (h : entry ∈ entries) :
    (loadData entries).get entry.tag = some entry := by
  induction entries using List.reverseRecOn with
  | nil => cases h
  | append_singleton entries last ih =>
    rw [loadData_concat, get_put]
    rw [List.map_append, List.nodup_append] at hnodup
    rw [List.mem_append, List.mem_singleton] at h
    cases h with
    | inl hmem =>
      have hne : entry.tag ≠ last.tag :=
        hnodup.2.2 _ (List.mem_map_of_mem hmem) _ (by simp)
      rw [if_neg hne]
      exact ih hnodup.1 hmem
    | inr hlast => rw [hlast, if_pos rfl]

namespace SnapshotMap

variable {m : SnapshotMap} {order : List CachedSnapshot}

theorem Lists.nodup (h : m.Lists order) : (order.map CachedSnapshot.tag).Nodup := by
  have hkeys : (order.map CachedSnapshot.tag).Perm m.map.keys := by
    have hperm := h.map Sigma.fst
    rw [List.map_map] at hperm
    exact hperm
  exact hkeys.nodup_iff.mpr m.map.keys_nodup

theorem Lists.mem_iff (h : m.Lists order) {entry : CachedSnapshot} :
    entry ∈ order ↔ m.get entry.tag = some entry := by
  unfold SnapshotMap.get
  rw [← Option.mem_def, AList.mem_lookup_iff, ← List.Perm.mem_iff h, List.mem_map]
  constructor
  · intro hmem
    exact ⟨entry, hmem, rfl⟩
  · intro ⟨other, hmem, heq⟩
    rw [← eq_of_heq (Sigma.mk.inj heq).2]
    exact hmem

/-- **Loading what was saved gives the map**, in whatever order it was gone over. -/
theorem Lists.load (h : m.Lists order) : (loadData order).Same m := by
  intro tag
  cases hget : m.get tag with
  | none =>
    rw [get_loadData_eq_none]
    intro entry hmem htag
    rw [← htag, h.mem_iff.mp hmem] at hget
    cases hget
  | some entry =>
    have htag : entry.tag = tag := m.keyed tag entry hget
    rw [← htag] at hget ⊢
    exact get_loadData_of_mem h.nodup (h.mem_iff.mpr hget)

/-- The map is gone over in different orders only. -/
theorem Lists.perm {order' : List CachedSnapshot} (h : m.Lists order) (h' : m.Lists order') :
    order.Perm order' := by
  have hinj : Function.Injective fun entry : CachedSnapshot =>
      (⟨entry.tag, entry⟩ : Sigma fun _ : Bytes => CachedSnapshot) := by
    intro entry other heq
    exact eq_of_heq (Sigma.mk.inj heq).2
  exact (List.map_perm_map_iff hinj).mp (List.Perm.trans h (List.Perm.symm h'))

theorem Lists.length (h : m.Lists order) : order.length = m.count := by
  have hlen := h.length_eq
  rwa [List.length_map] at hlen

/-- The map without an entry is the empty one. -/
theorem same_empty_iff : SnapshotMap.empty.Same m ↔ m.count = 0 := by
  unfold SnapshotMap.count
  rw [List.length_eq_zero_iff]
  constructor
  · intro h
    rw [List.eq_nil_iff_forall_not_mem]
    intro entry hmem
    have hget := AList.mem_lookup_iff.mpr hmem
    have hnone := h entry.1
    rw [get_empty, SnapshotMap.get, Option.mem_def.mp hget] at hnone
    cases hnone
  · intro h tag
    have hempty : m.map = ∅ := AList.ext h
    rw [get_empty, SnapshotMap.get, hempty, AList.lookup_empty]

theorem Same.symm {m' : SnapshotMap} (h : m.Same m') : m'.Same m := fun tag => (h tag).symm

theorem Same.trans {m' m'' : SnapshotMap} (h : m.Same m') (h' : m'.Same m'') : m.Same m'' :=
  fun tag => (h tag).trans (h' tag)

end SnapshotMap

end Snapshot
end MiniTSDB
