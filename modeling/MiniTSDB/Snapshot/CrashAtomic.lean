import MiniTSDB.Lib.Framing
import MiniTSDB.Snapshot.SnapshotStore

/-!
# A crash while a snapshot is saved

Between the rename and the end of the write there is no `snapshot.pb`, an empty one, or one that
ends early. The loader looks at the backup only for the ones that cannot be parsed, so it comes
back with less than either map unless there is next to nothing to lose: `crashAtomic_iff`.
-/

namespace MiniTSDB
namespace Snapshot

open Lib Os

theorem snapshotPath_ne_bakPath : snapshotPath ≠ bakPath := by decide

/-! ## The fields of the message -/

theorem entries_ofFields (fields : List Field) :
    (SnapshotFile.ofFields fields).entries = fields.filterMap Field.entry? := by
  induction fields using List.reverseRecOn with
  | nil => rfl
  | append_singleton fields f ih =>
    rw [SnapshotFile.ofFields, List.foldl_append, List.filterMap_append, ← ih]
    cases f with
    | saveTime t => exact (List.append_nil _).symm
    | version v => exact (List.append_nil _).symm
    | entry e => rfl

/-- The scalars in front of the entries. -/
def scalars (now : Int64) : List Field :=
  (if now = 0 then [] else [.saveTime now]) ++ [.version 1]

theorem fields_snapshotFile (now : Int64) (order : List CachedSnapshot) :
    (snapshotFile now order).fields = scalars now ++ order.map .entry := rfl

theorem filterMap_scalars (now : Int64) : (scalars now).filterMap Field.entry? = [] := by
  unfold scalars
  split
  · rfl
  · rfl

theorem filterMap_entries (order : List CachedSnapshot) :
    (order.map Field.entry).filterMap Field.entry? = order := by
  rw [List.filterMap_map]
  exact List.filterMap_some

theorem all_scalars (format : SnapshotFormat) (now : Int64) :
    (scalars now).all format.readable = true := by
  unfold scalars
  split
  · rfl
  · rfl

/-- The entries of a front of the message are a front of the entries. -/
theorem front_entries {now : Int64} {order : List CachedSnapshot} {fields : List Field}
    (h : fields <+: (snapshotFile now order).fields) :
    (SnapshotFile.ofFields fields).entries <+: order := by
  have hfront := h.filterMap Field.entry?
  rwa [fields_snapshotFile, List.filterMap_append, filterMap_scalars, List.nil_append,
    filterMap_entries, ← entries_ofFields] at hfront

/-- Only what is UTF-8 is read. -/
theorem isUtf8_of_all {format : SnapshotFormat} {fields : List Field} {entry : CachedSnapshot}
    (hall : fields.all format.readable = true)
    (hmem : entry ∈ (SnapshotFile.ofFields fields).entries) : format.isUtf8 entry.tag = true := by
  rw [entries_ofFields, List.mem_filterMap] at hmem
  obtain ⟨f, hf, hentry⟩ := hmem
  have hread := List.all_eq_true.mp hall f hf
  cases f with
  | saveTime t => cases hentry
  | version v => cases hentry
  | entry e =>
    cases hentry
    exact hread

/-! ## What is in the directory -/

/-- The map is on disk: there is a `snapshot.pb`, and it is the one this is read from. -/
def OnDisk (format : SnapshotFormat) (d : Dir) (old : SnapshotMap) : Prop :=
  ∃ data file, d.lookup snapshotPath = some (.file data) ∧ format.parse data = some file ∧
    (loadData file.entries).Same old

/-- A `snapshot.pb` that can be parsed is what is loaded. -/
theorem loadFromFile_file {format : SnapshotFormat} {d : Dir} {data : Bytes} {file : SnapshotFile}
    (h : d.lookup snapshotPath = some (.file data)) (hparse : format.parse data = some file) :
    loadFromFile format d = (true, loadData file.entries) := by
  unfold loadFromFile Dir.readFile
  simp only [h, Option.isNone_some, Bool.false_eq_true, if_false, Option.bind_some, hparse]

theorem loadFromFile_none {format : SnapshotFormat} {d : Dir}
    (h : d.lookup snapshotPath = none) : loadFromFile format d = (true, .empty) := by
  unfold loadFromFile
  simp only [h, Option.isNone_none, if_true]

/-- A `snapshot.pb` that cannot be parsed leaves it to the backup. -/
theorem loadFromFile_torn {format : SnapshotFormat} {d : Dir} {data : Bytes}
    (h : d.lookup snapshotPath = some (.file data)) (hparse : format.parse data = none) :
    loadFromFile format d = loadBackup format d := by
  have hread : d.readFile snapshotPath = some data := by rw [Dir.readFile, h]
  unfold loadFromFile
  simp only [h, hread, Option.isNone_some, Bool.false_eq_true, if_false, Option.bind_some, hparse]

theorem OnDisk.load {format : SnapshotFormat} {d : Dir} {old : SnapshotMap}
    (h : OnDisk format d old) : (loadFromFile format d).2.Same old := by
  obtain ⟨data, file, hlookup, hparse, hsame⟩ := h
  rw [loadFromFile_file hlookup hparse]
  exact hsame

/-- The rename takes the file to the backup, or leaves everything as it is because there is a
directory of that name. -/
theorem backup_cases {d : Dir} {data : Bytes} (h : d.lookup snapshotPath = some (.file data)) :
    ((backup d).lookup snapshotPath = none ∧ (backup d).lookup bakPath = some (.file data)) ∨
      (backup d = d ∧ ∃ empty, d.lookup bakPath = some (.dir empty)) := by
  unfold backup
  rw [h, Option.isSome_some, if_pos rfl]
  cases Dir.rename_file h bakPath with
  | inl hdir => exact .inr ⟨by rw [hdir.2, Option.getD_none], hdir.1⟩
  | inr hrenamed =>
    rw [hrenamed, Option.getD_some]
    exact .inl ⟨by rw [Dir.lookup_set_ne snapshotPath_ne_bakPath, Dir.lookup_erase], Dir.lookup_set⟩

/-- The write always finds a file to write to. -/
theorem saveUpTo_eq (format : SnapshotFormat) {d : Dir} (now : Int64)
    (order : List CachedSnapshot) {data : Bytes} (n : Nat)
    (h : d.lookup snapshotPath = some (.file data)) :
    saveUpTo format d now order n = some ((backup d).set snapshotPath
      (.file ((format.serialize (snapshotFile now order)).take n))) := by
  apply Dir.create_of_not_dir
  intro empty hdir
  cases backup_cases h with
  | inl hrenamed =>
    rw [hrenamed.1] at hdir
    cases hdir
  | inr hstays =>
    rw [hstays.1, h] at hdir
    cases hdir

/-! ## What a crash leaves to load -/

/-- What is loaded after a crash is the old map or the new one. -/
def CrashAtomic (format : SnapshotFormat) (d : Dir) (old new : SnapshotMap) (now : Int64)
    (order : List CachedSnapshot) : Prop :=
  ∀ d', CrashPoint format d now order d' →
    (loadFromFile format d').2.Same old ∨ (loadFromFile format d').2.Same new

/-- A write that ends within a field leaves the old map to load, or none if there is no backup. -/
theorem load_torn {format : SnapshotFormat} {d : Dir} {old : SnapshotMap} {now : Int64}
    {order : List CachedSnapshot} {n : Nat} {d' : Dir} (hold : OnDisk format d old)
    (hsave : saveUpTo format d now order n = some d')
    (hparse : format.parse ((format.serialize (snapshotFile now order)).take n) = none) :
    (loadFromFile format d').2.Same old ∨ (loadFromFile format d').2 = .empty := by
  obtain ⟨data, file, hlookup, hfile, hsame⟩ := hold
  rw [saveUpTo_eq format now order n hlookup, Option.some.injEq] at hsave
  subst hsave
  rw [loadFromFile_torn Dir.lookup_set hparse]
  unfold loadBackup
  rw [Dir.readFile_set_ne snapshotPath_ne_bakPath.symm, Dir.readFile]
  cases backup_cases hlookup with
  | inl hrenamed =>
    left
    simp only [hrenamed.2, Option.bind_some, hfile]
    exact hsame
  | inr hstays =>
    obtain ⟨empty, hdir⟩ := hstays.2
    right
    simp only [hstays.1, hdir, Option.bind_none]

/-- A write that ends behind a field leaves what the fields up to there say. -/
theorem load_boundary {format : SnapshotFormat} {d : Dir} {old : SnapshotMap} {now : Int64}
    {order : List CachedSnapshot} {n : Nat} {d' : Dir} {fields : List Field}
    (hold : OnDisk format d old) (hdoc : format.Documents (snapshotFile now order))
    (hfields : fields <+: (snapshotFile now order).fields)
    (hall : fields.all format.readable = true)
    (hsave : saveUpTo format d now order n = some d')
    (htake : (format.serialize (snapshotFile now order)).take n = fields.flatMap format.encode) :
    (loadFromFile format d').2 = loadData (SnapshotFile.ofFields fields).entries := by
  obtain ⟨data, file, hlookup, -, -⟩ := hold
  rw [saveUpTo_eq format now order n hlookup, Option.some.injEq, htake] at hsave
  subst hsave
  have hparse := hdoc.boundary fields hfields
  rw [if_pos hall] at hparse
  rw [loadFromFile_file Dir.lookup_set hparse]

/-- **What a crash leaves to load**: the old map, or some first entries of the new one, of which
all are UTF-8. -/
theorem load_crashPoint {format : SnapshotFormat} {d d' : Dir} {old : SnapshotMap} {now : Int64}
    {order : List CachedSnapshot} (hold : OnDisk format d old)
    (hdoc : format.Documents (snapshotFile now order)) (hcrash : CrashPoint format d now order d') :
    (loadFromFile format d').2.Same old ∨
      ∃ front, front <+: order ∧ (∀ entry ∈ front, format.isUtf8 entry.tag = true) ∧
        (loadFromFile format d').2 = loadData front := by
  cases hcrash with
  | before => exact .inl hold.load
  | renamed =>
    have hload := hold.load
    obtain ⟨data, file, hlookup, -, -⟩ := hold
    cases backup_cases hlookup with
    | inl hrenamed =>
      rw [loadFromFile_none hrenamed.1]
      exact .inr ⟨[], List.nil_prefix, by simp, rfl⟩
    | inr hstays =>
      rw [hstays.1]
      exact .inl hload
  | written n _ hsave =>
    have hnone : ∀ hparse : format.parse ((format.serialize (snapshotFile now order)).take n)
        = none, (loadFromFile format d').2.Same old ∨
          ∃ front, front <+: order ∧ (∀ entry ∈ front, format.isUtf8 entry.tag = true) ∧
            (loadFromFile format d').2 = loadData front := by
      intro hparse
      cases load_torn hold hsave hparse with
      | inl hsame => exact .inl hsame
      | inr hempty => exact .inr ⟨[], List.nil_prefix, by simp, hempty⟩
    -- the bytes written end between two fields, or in one
    cases take_flatMap_cases format.encode (snapshotFile now order).fields n with
    | inl hwhole =>
      obtain ⟨fields, hfields, htake⟩ := hwhole
      cases hall : fields.all format.readable with
      | true =>
        right
        exact ⟨_, front_entries hfields, fun entry hmem => isUtf8_of_all hall hmem,
          load_boundary hold hdoc hfields hall hsave htake⟩
      | false =>
        apply hnone
        rw [SnapshotFormat.serialize, htake, hdoc.boundary fields hfields, hall]
        rfl
    | inr htorn =>
      obtain ⟨fields, f, m, hfields, hpos, hlt, htake⟩ := htorn
      apply hnone
      rw [SnapshotFormat.serialize, htake, hdoc.cut fields f m hfields hpos hlt]

/-- A crash may come behind any field. -/
theorem crash_at_boundary {format : SnapshotFormat} {d : Dir} {old : SnapshotMap} {now : Int64}
    {order : List CachedSnapshot} {fields : List Field} (hold : OnDisk format d old)
    (hdoc : format.Documents (snapshotFile now order))
    (hfields : fields <+: (snapshotFile now order).fields)
    (hall : fields.all format.readable = true) :
    ∃ d', CrashPoint format d now order d' ∧
      (loadFromFile format d').2 = loadData (SnapshotFile.ofFields fields).entries := by
  have htake : (format.serialize (snapshotFile now order)).take
      (fields.flatMap format.encode).length = fields.flatMap format.encode := by
    obtain ⟨rest, hrest⟩ := hfields
    rw [SnapshotFormat.serialize, ← hrest, List.flatMap_append, List.take_left]
  obtain ⟨data, file, hlookup, hparsed⟩ := hold
  have hsave := saveUpTo_eq format now order (fields.flatMap format.encode).length hlookup
  exact ⟨_, .written _ _ hsave,
    load_boundary ⟨data, file, hlookup, hparsed⟩ hdoc hfields hall hsave htake⟩

/-- **Some first entries of the new map may be all there is to load**, if they are UTF-8. -/
theorem crash_at_front {format : SnapshotFormat} {d : Dir} {old : SnapshotMap} {now : Int64}
    {order front : List CachedSnapshot} (hold : OnDisk format d old)
    (hdoc : format.Documents (snapshotFile now order)) (hfront : front <+: order)
    (hread : ∀ entry ∈ front, format.isUtf8 entry.tag = true) :
    ∃ d', CrashPoint format d now order d' ∧ (loadFromFile format d').2 = loadData front := by
  have hfields : scalars now ++ front.map .entry <+: (snapshotFile now order).fields :=
    (List.prefix_append_right_inj _).mpr (hfront.map Field.entry)
  have hall : (scalars now ++ front.map Field.entry).all format.readable = true := by
    rw [List.all_append, all_scalars, Bool.true_and, List.all_map, List.all_eq_true]
    exact hread
  obtain ⟨d', hcrash, hload⟩ := crash_at_boundary hold hdoc hfields hall
  refine ⟨d', hcrash, ?_⟩
  rw [hload, entries_ofFields, List.filterMap_append, filterMap_scalars, filterMap_entries]
  rfl

/-- A map of which the first entry is all has one entry. -/
theorem length_of_same_singleton {new : SnapshotMap} {order rest : List CachedSnapshot}
    {first : CachedSnapshot} (hnew : new.Lists order) (horder : order = first :: rest)
    (hsame : (loadData [first]).Same new) : (first :: rest).length = 1 := by
  cases rest with
  | nil => rfl
  | cons second rest =>
    have hmem : second ∈ order := by rw [horder]; simp
    have hsecond := hnew.mem_iff.mp hmem
    rw [← hsame second.tag] at hsecond
    have hne : second.tag ≠ first.tag := by
      have hnodup := hnew.nodup
      rw [horder, List.map_cons, List.map_cons, List.nodup_cons] at hnodup
      intro heq
      exact hnodup.1 (by rw [heq]; exact List.mem_cons_self)
    have hnone : (loadData [first]).get second.tag = none := by
      rw [get_loadData_eq_none]
      intro entry hentry htag
      rw [List.mem_singleton.mp hentry] at htag
      exact hne htag.symm
    rw [hnone] at hsecond
    cases hsecond

/-- Where some first entries that can be read are none or all of them, they make one of the two
maps. -/
theorem same_of_front {format : SnapshotFormat} {old new : SnapshotMap}
    {order front : List CachedSnapshot} (hnew : new.Lists order) (hfront : front <+: order)
    (hread : ∀ entry ∈ front, format.isUtf8 entry.tag = true)
    (hcond : new.count = 0 ∨ (old.count = 0 ∧
      (new.count = 1 ∨ ∃ first, order.head? = some first ∧ format.isUtf8 first.tag = false))) :
    (loadData front).Same old ∨ (loadData front).Same new := by
  cases hcond with
  | inl hempty =>
    have horder : order = [] := List.length_eq_zero_iff.mp (hnew.length.trans hempty)
    rw [horder, List.prefix_nil] at hfront
    rw [hfront]
    exact .inr (SnapshotMap.same_empty_iff.mpr hempty)
  | inr hold =>
    cases hlist : front with
    | nil => exact .inl (SnapshotMap.same_empty_iff.mpr hold.1)
    | cons first rest =>
      rw [hlist] at hfront hread
      obtain ⟨after, hafter⟩ := hfront
      cases hold.2 with
      | inl hone =>
        right
        have hlen : (first :: rest ++ after).length = 1 := by rw [hafter, hnew.length, hone]
        have hrest : rest = [] ∧ after = [] := by
          rw [List.cons_append, List.length_cons, Nat.add_eq_right, List.length_eq_zero_iff,
            List.append_eq_nil_iff] at hlen
          exact hlen
        rw [hrest.1, hrest.2, List.append_nil] at hafter
        rw [hrest.1, hafter]
        exact hnew.load
      | inr hutf =>
        -- the first entry has been read, and cannot be
        obtain ⟨first', hhead, hfalse⟩ := hutf
        rw [← hafter, List.cons_append, List.head?_cons, Option.some.injEq] at hhead
        rw [← hhead, hread first List.mem_cons_self] at hfalse
        cases hfalse

/-- **Saving is atomic when nothing is saved, or when nothing was there and what is saved cannot
be read in part**: a single entry, or one in front that is not UTF-8. -/
theorem crashAtomic_iff {format : SnapshotFormat} {d : Dir} {old new : SnapshotMap} {now : Int64}
    {order : List CachedSnapshot} (hold : OnDisk format d old) (hnew : new.Lists order)
    (hdoc : format.Documents (snapshotFile now order)) :
    CrashAtomic format d old new now order ↔
      new.count = 0 ∨ (old.count = 0 ∧
        (new.count = 1 ∨ ∃ first, order.head? = some first ∧ format.isUtf8 first.tag = false)) := by
  constructor
  · intro hatomic
    by_cases hempty : new.count = 0
    · exact .inl hempty
    · right
      -- a crash in front of the first entry
      obtain ⟨d₀, hcrash₀, hload₀⟩ := crash_at_front hold hdoc List.nil_prefix (by simp)
      have hold₀ : old.count = 0 := by
        have hone := hatomic d₀ hcrash₀
        rw [hload₀] at hone
        cases hone with
        | inl hsame => exact SnapshotMap.same_empty_iff.mp hsame
        | inr hsame => exact absurd (SnapshotMap.same_empty_iff.mp hsame) hempty
      refine ⟨hold₀, ?_⟩
      rw [← hnew.length] at hempty ⊢
      cases horder : order with
      | nil => exact absurd (congrArg List.length horder) hempty
      | cons first rest =>
        cases hutf : format.isUtf8 first.tag with
        | false => exact .inr ⟨first, rfl, hutf⟩
        | true =>
          -- a crash behind the first entry
          left
          have hfront : [first] <+: order := horder ▸ List.prefix_append [first] rest
          obtain ⟨d₁, hcrash₁, hload₁⟩ := crash_at_front hold hdoc hfront
            (fun entry hmem => List.mem_singleton.mp hmem ▸ hutf)
          have hone := hatomic d₁ hcrash₁
          rw [hload₁] at hone
          have hfirst : (loadData [first]).get first.tag = some first :=
            get_loadData_of_mem (by simp) (by simp)
          cases hone with
          | inl hsame =>
            -- the old map is empty, and the first entry has been loaded
            have hnone := SnapshotMap.same_empty_iff.mpr hold₀ first.tag
            rw [← hsame first.tag, hfirst] at hnone
            cases hnone
          | inr hsame => exact length_of_same_singleton hnew horder hsame
  · intro hcond d' hcrash
    cases load_crashPoint hold hdoc hcrash with
    | inl hsame => exact .inl hsame
    | inr hfront =>
      obtain ⟨front, hfront, hread, hload⟩ := hfront
      rw [hload]
      exact same_of_front hnew hfront hread hcond

/-- **A save that is not cut short is loaded**, if every tag is UTF-8. -/
theorem load_saveToFile {format : SnapshotFormat} {d : Dir} {old new : SnapshotMap} {now : Int64}
    {order : List CachedSnapshot} (hold : OnDisk format d old) (hnew : new.Lists order)
    (hdoc : format.Documents (snapshotFile now order))
    (hutf : ∀ entry ∈ order, format.isUtf8 entry.tag = true) :
    (saveToFile format d now order).1 = true ∧
      (loadFromFile format (saveToFile format d now order).2).2.Same new := by
  have hall : (snapshotFile now order).fields.all format.readable = true := by
    rw [fields_snapshotFile, List.all_append, all_scalars, Bool.true_and, List.all_map,
      List.all_eq_true]
    exact hutf
  have hentries : (SnapshotFile.ofFields (snapshotFile now order).fields).entries = order := by
    rw [entries_ofFields, fields_snapshotFile, List.filterMap_append, filterMap_scalars,
      filterMap_entries]
    rfl
  obtain ⟨data, file, hlookup, hparsed⟩ := hold
  have hsave := saveUpTo_eq format now order
    (format.serialize (snapshotFile now order)).length hlookup
  have hload := load_boundary ⟨data, file, hlookup, hparsed⟩ hdoc (List.prefix_refl _) hall hsave
    List.take_length
  unfold saveToFile
  simp only [hsave]
  rw [hload, hentries]
  exact ⟨trivial, hnew.load⟩

/-! ## Two saves -/

/-- The parser, as far as files of at most one entry go, of a tag of one letter and of numbers
below 128. -/
def smallFormat : SnapshotFormat where
  encode
    | .saveTime t => [8, t.toUInt64.toUInt8]
    | .version v => [16, v.toUInt64.toUInt8]
    | .entry e => [26, 7, 10, 1] ++ e.tag ++ [16, e.timestamp.toUInt64.toUInt8, 32, 1]
  isUtf8 := fun s => s.all (· < 128)
  parse
    | [] => some {}
    | [8, t] => some { saveTime := .ofNat t.toNat }
    | [8, t, 16, v] => some { saveTime := .ofNat t.toNat, version := .ofNat v.toNat }
    | [8, t, 16, v, 26, 7, 10, 1, letter, 16, ts, 32, 1] =>
      some
        { saveTime := .ofNat t.toNat
          version := .ofNat v.toNat
          entries := [{ timestamp := .ofNat ts.toNat, tag := [letter], valid := true }] }
    | _ => none

/-- The entry of `a`, and the map of it alone. -/
def entryA (ts : Timestamp) : CachedSnapshot := { timestamp := ts, tag := ascii "a", valid := true }

def mapA (ts : Timestamp) : SnapshotMap := SnapshotMap.empty.put (entryA ts)

theorem lists_mapA (ts : Timestamp) : (mapA ts).Lists [entryA ts] := .refl _

/-- A directory with one snapshot in it. -/
def savedDir (entries : List CachedSnapshot) : Dir :=
  Dir.empty.set snapshotPath (.file (smallFormat.serialize (snapshotFile 1 entries)))

/-- The first entry of all is saved or is not. -/
theorem crashAtomic_first :
    CrashAtomic smallFormat (savedDir []) .empty (mapA 1) 2 [entryA 1] :=
  (crashAtomic_iff ⟨_, { saveTime := 1, version := 1 }, Dir.lookup_set, by decide,
    fun _ => rfl⟩ (lists_mapA 1) (by decide)).mpr (.inr ⟨rfl, .inl rfl⟩)

/-- The value of `a` at 1 was saved, and the one at 2 is being saved: after the rename there is
neither. -/
theorem snapshot_lost :
    OnDisk smallFormat (savedDir [entryA 1]) (mapA 1) ∧ (mapA 2).Lists [entryA 2] ∧
      smallFormat.Documents (snapshotFile 2 [entryA 2]) ∧
      ¬ CrashAtomic smallFormat (savedDir [entryA 1]) (mapA 1) (mapA 2) 2 [entryA 2] := by
  refine ⟨?_, lists_mapA 2, by decide, ?_⟩
  · exact ⟨_, { saveTime := 1, version := 1, entries := [entryA 1] }, Dir.lookup_set,
      by decide, fun _ => rfl⟩
  · intro hatomic
    have hempty : (loadFromFile smallFormat (backup (savedDir [entryA 1]))).2.get (ascii "a")
        = none := by decide
    cases hatomic _ .renamed with
    | inl hsame => exact absurd (hempty.symm.trans (hsame (ascii "a"))) (by decide)
    | inr hsame => exact absurd (hempty.symm.trans (hsame (ascii "a"))) (by decide)

end Snapshot
end MiniTSDB
