import MiniTSDB.Snapshot.LatestStores
import MiniTSDB.Sql.Executor
import MiniTSDB.Storage.Rewrites

/-!
# What is left of a tag that was dropped

A point that is written under a database, a table and a tag goes under `db:table:tag`: to the write
buffer, to the cache of latest values, to the snapshot store, and with a flush to a directory in
`hot_path/tags`. `DropTag` and `DropTable` remove a directory in `hot_path/<db>/tables`, and none of
these. So a drop leaves nothing behind just where there was nothing (`dropErases_iff`).

Here there is one file system, of which directories are known by their places.
-/

namespace MiniTSDB
namespace Sql

open Lib Os Storage Snapshot

/-! ## Names, and where their data is -/

/-- A table, with valid names. -/
structure TableName where
  db : Bytes
  table : Bytes
  valid_db : isValidName db 64 = true
  valid_table : isValidName table 64 = true

/-- A tag of a table. -/
structure TagName extends TableName where
  tag : Bytes
  valid_tag : isValidName tag 128 = true

/-- What the data of the tag goes under. -/
def TagName.key (name : TagName) : Bytes := flatKey name.db name.table name.tag

/-- The places of `hot_path` and `cold_path`. The one is not within the other. -/
structure DataPlaces where
  hot : Path
  cold : Path
  apart : ∀ name rest, hot ≠ cold ++ name :: rest

/-- `hot_path/tags/<key>`. -/
def DataPlaces.dataDir (places : DataPlaces) (key : Bytes) : Path :=
  places.hot ++ [ascii "tags", key]

/-- What the system makes of the path of a tag's data. -/
def DataPlaces.Resolves (places : DataPlaces) (env : Env Path) : Prop :=
  ∀ name : TagName, env.resolve name.key = places.dataDir name.key

/-- The names that lead to a table. -/
def tablePlace (db table : Bytes) : Path := components db ++ ascii "tables" :: components table

/-! ## The engine -/

/-- A directory goes with all those below it. What is not there has nothing in it. -/
def removePlace (disk : Disk Path) (place : Path) : Disk Path :=
  { disk with dirs := fun q => if place <+: q then .empty else disk.dirs q }

/-- What is at these names is removed from both tiers. -/
def DataPlaces.drop (places : DataPlaces) (s : Stores Path) (names : Path) : Stores Path :=
  { s with engine := { s.engine with
      disk :=
        removePlace (removePlace s.engine.disk (places.hot ++ names)) (places.cold ++ names) } }

/-- An engine initialised on this disk and this log, with what its snapshot file held. -/
def startStores (env : Env Path) (config : StorageConfig) (disk : Disk Path) (log : Option Bytes)
    (saved : SnapshotMap) : Stores Path :=
  { engine := Engine.init env config disk log, snapshot := saved }

/-- A call of the engine. -/
inductive NamedOp
  | write (pad : HeaderPad) (name : TagName) (point : DataPoint)
  | flush (order : List Bytes)
  | dropTag (name : TagName)
  | dropTable (table : TableName)

/-- One call that returns. -/
inductive NamedStep (env : Env Path) (places : DataPlaces) :
    Stores Path → NamedOp → Stores Path → Prop
  | write {s s' : Stores Path} {pad : HeaderPad} {name : TagName} {point : DataPoint}
      (h : s.write env pad name.key point = some s') :
      NamedStep env places s (.write pad name point) s'
  | flush {s : Stores Path} {order : List Bytes}
      (h : order.Perm s.engine.memTable.buffers.keys) :
      NamedStep env places s (.flush order) { s with engine := s.engine.flush env order }
  | dropTag {s : Stores Path} {name : TagName} :
      NamedStep env places s (.dropTag name)
        (places.drop s (tagPlace name.db name.table name.tag))
  | dropTable {s : Stores Path} {table : TableName} :
      NamedStep env places s (.dropTable table) (places.drop s (tablePlace table.db table.table))

/-- The call drops the tag. -/
def NamedOp.Drops : NamedOp → TagName → Prop
  | .dropTag other, name => other = name
  | .dropTable table, name => table = name.toTableName
  | .write _ _ _, _ => False
  | .flush _, _ => False

/-- The call writes to the tag. -/
def NamedOp.WritesTo : NamedOp → TagName → Prop
  | .write _ other _, name => other = name
  | _, _ => False

/-! ## What a drop is for -/

/-- Nothing of the tag is found. -/
structure Erased (env : Env Path) (name : TagName) (s : Stores Path) : Prop where
  raw : ∀ (sort : KeySort tsKey) (range : TimeRange) (entries : List DirEntry),
    (s.engine.disk.tagDir env name.key).IsListing entries →
      s.engine.readRaw env sort name.key range entries = []
  latest : s.engine.latest.lookup name.key = none
  snapshot : s.snapshot.get name.key = none

/-- All there is of the tag is as it was. -/
structure SameData (env : Env Path) (name : TagName) (s s' : Stores Path) : Prop where
  dir : s'.engine.disk.tagDir env name.key = s.engine.disk.tagDir env name.key
  buffer : s'.engine.memTable.buffer name.key = s.engine.memTable.buffer name.key
  latest : s'.engine.latest.lookup name.key = s.engine.latest.lookup name.key
  snapshot : s'.snapshot.get name.key = s.snapshot.get name.key

/-- Nothing is found of a tag from its drop on, and the drop leaves the other tags alone. -/
structure DropErases (env : Env Path) (op : NamedOp) (name : TagName)
    (before after now : Stores Path) : Prop where
  erased : Erased env name now
  others : ∀ other, ¬ op.Drops other → SameData env other before after

/-- The directory has nothing that a query finds. -/
def Bare (d : Dir) : Prop := ∀ range t, ¬ FoundInTables d range t

/-! ## Keys -/

/-- **Tags with one key are one.** -/
theorem key_inj {name other : TagName} : name.key = other.key ↔ name = other := by
  refine ⟨?_, fun h => congrArg TagName.key h⟩
  intro h
  obtain ⟨⟨db, table, hdb, htable⟩, tag, htag⟩ := name
  obtain ⟨⟨db', table', hdb', htable'⟩, tag', htag'⟩ := other
  obtain ⟨rfl, rfl, rfl⟩ := flatKey_inj (colon_notMem_of_isValidName htable)
    (colon_notMem_of_isValidName htag) (colon_notMem_of_isValidName htable')
    (colon_notMem_of_isValidName htag') h
  rfl

section Places

variable {places : DataPlaces} {env : Env Path}

theorem resolve_key_inj (henv : places.Resolves env) {name other : TagName} :
    env.resolve name.key = env.resolve other.key ↔ name = other := by
  rw [henv, henv, DataPlaces.dataDir, DataPlaces.dataDir, List.append_cancel_left_eq]
  simp only [List.cons.injEq, and_true, true_and]
  exact key_inj

/-- The directory of a tag's data is too high up to be in what is dropped. -/
theorem not_drop_le_dataDir (places : DataPlaces) {names : Path} (hlen : 2 < names.length)
    (key : Bytes) :
    ¬ places.hot ++ names <+: places.dataDir key ∧
      ¬ places.cold ++ names <+: places.dataDir key := by
  unfold DataPlaces.dataDir
  constructor
  · intro h
    have hle := h.length_le
    simp only [List.length_append, List.length_cons, List.length_nil] at hle
    omega
  · intro h
    have hcold := (List.prefix_append places.cold names).trans h
    have hhot := List.prefix_append places.hot [ascii "tags", key]
    cases Nat.lt_or_ge places.cold.length places.hot.length with
    | inl hlt =>
      obtain ⟨rest, hrest⟩ := List.prefix_of_prefix_length_le hcold hhot hlt.le
      cases rest with
      | nil =>
        rw [List.append_nil] at hrest
        rw [hrest] at hlt
        exact absurd hlt (lt_irrefl _)
      | cons n rest => exact places.apart n rest hrest.symm
    | inr hge =>
      have hle := h.length_le
      simp only [List.length_append, List.length_cons, List.length_nil] at hle
      omega

theorem two_lt_length_tablePlace (name : TableName) :
    2 < (tablePlace name.db name.table).length := by
  rw [tablePlace, (isName_of_isValidName name.valid_db).components_eq,
    (isName_of_isValidName name.valid_table).components_eq]
  exact Nat.lt_succ_self 2

theorem two_lt_length_tagPlace (name : TagName) :
    2 < (tagPlace name.db name.table name.tag).length := by
  rw [tagPlace_name (isName_of_isValidName name.valid_tag),
    tagsPlace_name (isName_of_isValidName name.valid_table), List.append_assoc,
    List.length_append]
  exact Nat.lt_add_left _ (by simp)

/-- **A drop leaves every tag's data alone.** -/
theorem sameData_drop (henv : places.Resolves env) (s : Stores Path) {names : Path}
    (hlen : 2 < names.length) (name : TagName) : SameData env name s (places.drop s names) where
  dir := by
    obtain ⟨hhot, hcold⟩ := not_drop_le_dataDir places hlen name.key
    unfold Disk.tagDir
    rw [henv]
    change (if _ then _ else if _ then _ else _) = _
    rw [if_neg hcold, if_neg hhot]
  buffer := rfl
  latest := rfl
  snapshot := rfl

/-! ## A tag that is not written to -/

/-- Nothing of the tag has come in: its directory and its entry in the snapshot store are what they
were, and the rest is empty. -/
structure Untouched (env : Env Path) (name : TagName) (d : Dir) (entry : Option CachedSnapshot)
    (s : Stores Path) : Prop where
  buffers : ∀ tag, env.resolve name.key = env.resolve tag →
    (s.engine.memTable.buffer tag).points = []
  dir : s.engine.disk.tagDir env name.key = d
  latest : s.engine.latest.lookup name.key = none
  snapshot : s.snapshot.get name.key = entry

/-- What the write buffer does without points for the directory. -/
theorem quiet_calls {name : TagName} (disk : Disk Path) {added : MemTable × List FlushCall}
    (hne : ∀ call ∈ added.2, call.points ≠ [])
    (h : ∀ tag, env.resolve name.key = env.resolve tag → pointsOf tag added = []) :
    (∀ tag, env.resolve name.key = env.resolve tag → (added.1.buffer tag).points = []) ∧
      (runCalls env disk added.2).tagDir env name.key = disk.tagDir env name.key := by
  constructor
  · intro tag htag
    exact (quiet_of_pointsOf hne (h tag htag)).1
  · apply tagDir_runCalls_of_apart
    intro call hcall heq
    exact (quiet_of_pointsOf hne (h call.tag heq)).2 call hcall rfl

/-- What a `Write` that returns does. -/
theorem write_spec {s s' : Stores Path} {pad : HeaderPad} {tag : Bytes} {point : DataPoint}
    (h : s.write env pad tag point = some s') :
    s'.engine.memTable = (s.engine.memTable.add tag point).1 ∧
      s'.engine.disk = runCalls env s.engine.disk (s.engine.memTable.add tag point).2 ∧
      s'.engine.latest = s.engine.latest.update tag point ∧
      s'.snapshot = s.snapshot.onWrite tag point := by
  obtain ⟨engine, hengine, hs⟩ := Option.bind_eq_some_iff.mp h
  obtain ⟨data, -, he⟩ := Option.bind_eq_some_iff.mp hengine
  cases he
  cases hs
  exact ⟨rfl, rfl, rfl, rfl⟩

/-- **One call.** -/
theorem Untouched.step (henv : places.Resolves env) {name : TagName} {d : Dir}
    {entry : Option CachedSnapshot} {s s' : Stores Path} {op : NamedOp}
    (h : Untouched env name d entry s)
    (hstep : NamedStep env places s op s') (hop : ¬ op.WritesTo name) :
    Untouched env name d entry s' := by
  cases hstep with
  | @write _ pad other point hwrite =>
    obtain ⟨htable, hdisk, hlatest, hsnapshot⟩ := write_spec hwrite
    have hkey : name.key ≠ other.key := fun heq => hop (key_inj.mp heq).symm
    have hpoints : ∀ tag, env.resolve name.key = env.resolve tag →
        pointsOf tag (s.engine.memTable.add other.key point) = [] := by
      intro tag htag
      have hne : tag ≠ other.key := by
        intro heq
        rw [heq, resolve_key_inj henv] at htag
        exact hop htag.symm
      rw [pointsOf_add, h.buffers tag htag, if_neg hne]
      rfl
    obtain ⟨hbuffers, hdir⟩ := quiet_calls s.engine.disk nonempty_add hpoints
    constructor
    · rw [htable]
      exact hbuffers
    · rw [hdisk, hdir, h.dir]
    · rw [hlatest, lookup_update, if_neg hkey, h.latest]
    · rw [hsnapshot, get_onWrite, if_neg hkey, h.snapshot]
  | @flush order _ =>
    have hpoints : ∀ tag, env.resolve name.key = env.resolve tag →
        pointsOf tag (s.engine.memTable.flushAll order) = [] := by
      intro tag htag
      rw [pointsOf_flushAll, h.buffers tag htag]
    obtain ⟨hbuffers, hdir⟩ := quiet_calls s.engine.disk nonempty_flushAll hpoints
    exact ⟨hbuffers, hdir.trans h.dir, h.latest, h.snapshot⟩
  | @dropTag other =>
    have hdir := (sameData_drop henv s (two_lt_length_tagPlace other) name).dir
    exact ⟨h.buffers, hdir.trans h.dir, h.latest, h.snapshot⟩
  | @dropTable table =>
    have hdir := (sameData_drop henv s (two_lt_length_tablePlace table) name).dir
    exact ⟨h.buffers, hdir.trans h.dir, h.latest, h.snapshot⟩

/-- **A run without writes to the tag.** -/
theorem Untouched.run (henv : places.Resolves env) {name : TagName} {d : Dir}
    {entry : Option CachedSnapshot} {s s' : Stores Path} {ops : List NamedOp}
    (h : Untouched env name d entry s)
    (hrun : Run (NamedStep env places) s ops s') (hops : ∀ op ∈ ops, ¬ op.WritesTo name) :
    Untouched env name d entry s' := by
  revert hops
  refine hrun.invariant
    (fun ops s => (∀ op ∈ ops, ¬ op.WritesTo name) → Untouched env name d entry s) (fun _ => h) ?_
  intro ops s op s' ih hstep hops
  have hbefore := ih fun op hop => hops op (List.mem_append_left _ hop)
  exact hbefore.step henv hstep (hops op (List.mem_append_right _ List.mem_cons_self))

/-- What `Init` leaves of a tag that the log has no points of. -/
theorem untouched_start {config : StorageConfig} {disk : Disk Path} {log : Option Bytes}
    {saved : SnapshotMap} {name : TagName}
    (hlog : ∀ e ∈ replayPoints (walEntries (WalFile.open log).data),
      env.resolve name.key ≠ env.resolve e.1) :
    Untouched env name (disk.tagDir env name.key) (saved.get name.key)
      (startStores env config disk log saved) := by
  have hpoints : ∀ tag, env.resolve name.key = env.resolve tag →
      pointsOf tag (MemTable.addAll { flushThreshold := config.memtableSize
                                      sizeofDataPoint := config.sizeofDataPoint }
        (replayPoints (walEntries (WalFile.open log).data))) = [] := by
    intro tag htag
    rw [pointsOf_addAll_of_ne fun e he heq => hlog e he (heq ▸ htag)]
    rfl
  obtain ⟨hbuffers, hdir⟩ := quiet_calls disk nonempty_addAll hpoints
  exact ⟨hbuffers, hdir, rfl, rfl⟩

/-! ## A tag that is -/

/-- The cache keeps what it has of a tag. -/
theorem latest_step {name : TagName} {s s' : Stores Path} {op : NamedOp}
    (hstep : NamedStep env places s op s')
    (h : (s.engine.latest.lookup name.key).isSome = true ∨ op.WritesTo name) :
    (s'.engine.latest.lookup name.key).isSome = true := by
  cases hstep with
  | @write _ pad other point hwrite =>
    obtain ⟨-, -, hlatest, -⟩ := write_spec hwrite
    rw [hlatest, lookup_update]
    split
    case isTrue =>
      split
      · split
        · rfl
        · rfl
      · rfl
    case isFalse hne =>
      apply h.resolve_right
      exact fun hop => hne (congrArg TagName.key hop).symm
  | flush _ => exact h.resolve_right id
  | dropTag => exact h.resolve_right id
  | dropTable => exact h.resolve_right id

theorem latest_run {name : TagName} {s s' : Stores Path} {ops : List NamedOp}
    (hrun : Run (NamedStep env places) s ops s')
    (h : (s.engine.latest.lookup name.key).isSome = true ∨ ∃ op ∈ ops, op.WritesTo name) :
    (s'.engine.latest.lookup name.key).isSome = true := by
  revert h
  refine hrun.invariant (fun ops t => ((s.engine.latest.lookup name.key).isSome = true ∨
    ∃ op ∈ ops, op.WritesTo name) → (t.engine.latest.lookup name.key).isSome = true) ?_ ?_
  · intro h
    apply h.resolve_right
    exact fun ⟨op, hop, _⟩ => nomatch hop
  · intro ops t op u ih hstep h
    apply latest_step hstep
    rcases h with h | ⟨op', hop', hwrites⟩
    · exact .inl (ih (.inl h))
    · rcases List.mem_append.mp hop' with hop' | hop'
      · exact .inl (ih (.inr ⟨op', hop', hwrites⟩))
      · rw [List.mem_singleton.mp hop'] at hwrites
        exact .inr hwrites

/-! ## The theorem -/

/-- A read of what was not touched finds what was in the directory. -/
theorem Untouched.erased_iff {name : TagName} {d : Dir} {entry : Option CachedSnapshot}
    {s : Stores Path} (h : Untouched env name d entry s) :
    Erased env name s ↔ Bare d ∧ entry = none := by
  have hcache : ∀ range, s.engine.readCache name.key range = [] := by
    intro range
    apply List.eq_nil_iff_forall_not_mem.mpr
    intro q hq
    have hsome := ((mem_readCache s.engine).mp hq).2.1
    rw [h.latest] at hsome
    cases hsome
  have hraw : ∀ (sort : KeySort tsKey) range entries,
      s.engine.readRaw env sort name.key range entries = [] ↔ readTables d entries range = [] := by
    intro sort range entries
    rw [Engine.readRaw, hcache, h.dir, List.nil_append, (sortedUnique_spec sort _).eq_nil_iff]
  constructor
  · intro herased
    refine ⟨?_, h.snapshot.symm.trans herased.snapshot⟩
    intro range t hfound
    have hlist : d.IsListing _ := List.Perm.refl _
    have hnil := herased.raw (.stable tsKey) range _ (by rw [h.dir]; exact hlist)
    rw [hraw] at hnil
    obtain ⟨q, hq, -⟩ := (mem_readTables_iff hlist).mpr hfound
    rw [hnil] at hq
    cases hq
  · rintro ⟨hbare, hentry⟩
    refine ⟨?_, h.latest, h.snapshot.trans hentry⟩
    intro sort range entries hlist
    rw [h.dir] at hlist
    rw [hraw]
    apply List.eq_nil_iff_forall_not_mem.mpr
    intro q hq
    exact hbare range q.ts ((mem_readTables_iff hlist).mp ⟨q, hq, rfl⟩)

theorem NamedStep.drop_eq {s s' : Stores Path} {op : NamedOp} {name : TagName}
    (h : NamedStep env places s op s') (hop : op.Drops name) :
    ∃ names, 2 < names.length ∧ s' = places.drop s names := by
  cases h with
  | write _ => cases hop
  | flush _ => cases hop
  | @dropTag other => exact ⟨_, two_lt_length_tagPlace other, rfl⟩
  | @dropTable table => exact ⟨_, two_lt_length_tablePlace table, rfl⟩

/-- **A drop erases just what was never there**: no point was written to the tag before, and at the
start its directory had none and the snapshot store no entry. -/
theorem dropErases_iff {config : StorageConfig} {disk : Disk Path} {log : Option Bytes}
    {saved : SnapshotMap} {name : TagName} {before after : List NamedOp} {op : NamedOp} {s₀ s₁ s : Stores Path}
    (henv : places.Resolves env)
    (hlog : ∀ e ∈ replayPoints (walEntries (WalFile.open log).data),
      env.resolve name.key ≠ env.resolve e.1)
    (hbefore : Run (NamedStep env places) (startStores env config disk log saved) before s₀)
    (hdrop : NamedStep env places s₀ op s₁) (hop : op.Drops name)
    (hafter : Run (NamedStep env places) s₁ after s)
    (hnone : ∀ op ∈ after, ¬ op.WritesTo name) :
    DropErases env op name s₀ s₁ s ↔
      (∀ op ∈ before, ¬ op.WritesTo name) ∧ Bare (disk.tagDir env name.key) ∧
        saved.get name.key = none := by
  have hdropped : ¬ op.WritesTo name := by
    cases hdrop with
    | write _ => cases hop
    | flush _ => cases hop
    | dropTag => exact id
    | dropTable => exact id
  have herased : (∀ op ∈ before, ¬ op.WritesTo name) →
      (Erased env name s ↔ Bare (disk.tagDir env name.key) ∧ saved.get name.key = none) := by
    intro hunwritten
    have hstart : Untouched env name _ _ s₀ := (untouched_start hlog).run henv hbefore hunwritten
    exact ((hstart.step henv hdrop hdropped).run henv hafter hnone).erased_iff
  constructor
  · intro h
    have hunwritten : ∀ op ∈ before, ¬ op.WritesTo name := by
      intro op hmem hwrites
      have hsome := latest_run hbefore (.inr ⟨op, hmem, hwrites⟩)
      have hsome := latest_run hafter (.inl (latest_step hdrop (.inl hsome)))
      rw [h.erased.latest] at hsome
      cases hsome
    exact ⟨hunwritten, (herased hunwritten).mp h.erased⟩
  · intro ⟨hunwritten, hbare⟩
    obtain ⟨names, hlen, hs₁⟩ := hdrop.drop_eq hop
    refine ⟨(herased hunwritten).mpr hbare, fun other _ => ?_⟩
    rw [hs₁]
    exact sameData_drop henv s₀ hlen other

end Places

/-! ## A drop of what is there, and of what is not -/

/-- `hot` and `cold`, side by side. -/
def twoPlaces : DataPlaces where
  hot := [ascii "hot"]
  cold := [ascii "cold"]
  apart _ _ h := absurd (List.cons.inj h).1 (by decide)

def twoPlacesEnv : Env Path where
  resolve key := twoPlaces.dataDir key
  date _ := someDay

/-- The tag of this name, in the table `t` of the database `c`. -/
def tagOf (tag : Bytes) (h : isValidName tag 128 = true) : TagName where
  db := ascii "c"
  table := ascii "t"
  valid_db := by decide
  valid_table := by decide
  tag := tag
  valid_tag := h

def tagX : TagName := tagOf (ascii "x") (by decide)

def tagY : TagName := tagOf (ascii "y") (by decide)

/-- An engine on an empty disk. -/
def emptyStores : Stores Path :=
  startStores twoPlacesEnv {} { dirs := fun _ => .empty } none .empty

/-- A point at 1. -/
def writeOne (name : TagName) : NamedOp :=
  .write (.replicate 3 0) name { ts := 1, value := .double 0 }

theorem exists_run_writeOne (name : TagName) :
    ∃ s, Run (NamedStep twoPlacesEnv twoPlaces) emptyStores [writeOne name] s := by
  have hwrite : ∃ s, emptyStores.write twoPlacesEnv (.replicate 3 0) name.key
      { ts := 1, value := .double 0 } = some s := by
    unfold Stores.write
    rw [Engine.write_double]
    exact ⟨_, rfl⟩
  obtain ⟨s, hs⟩ := hwrite
  exact ⟨s, .snoc .start (.write hs)⟩

theorem dropErases_untouched : ∃ s₀ s₁,
    Run (NamedStep twoPlacesEnv twoPlaces) emptyStores [writeOne tagY] s₀ ∧
      NamedStep twoPlacesEnv twoPlaces s₀ (.dropTag tagX) s₁ ∧
      DropErases twoPlacesEnv (.dropTag tagX) tagX s₀ s₁ s₁ := by
  obtain ⟨s₀, hbefore⟩ := exists_run_writeOne tagY
  have hdrop : NamedStep twoPlacesEnv twoPlaces s₀ (.dropTag tagX) _ := .dropTag
  have hlog : ∀ e ∈ replayPoints (walEntries (WalFile.open none).data),
      twoPlacesEnv.resolve tagX.key ≠ twoPlacesEnv.resolve e.1 := by
    intro e he
    rw [show (WalFile.open none).data = [] from rfl, walEntries_nil] at he
    cases he
  have hother : ∀ op ∈ [writeOne tagY], ¬ op.WritesTo tagX := by
    intro op hop hwrites
    rw [List.mem_singleton.mp hop] at hwrites
    have htag := congrArg TagName.tag (show tagY = tagX from hwrites)
    exact absurd htag (by decide)
  have hbare : Bare Dir.empty := by
    rintro range t ⟨name, data, -, hread, -⟩
    rw [Dir.readFile, Dir.lookup_empty] at hread
    cases hread
  refine ⟨s₀, _, hbefore, hdrop, ?_⟩
  have hafter : ∀ op ∈ ([] : List NamedOp), ¬ op.WritesTo tagX :=
    fun op hop => absurd hop List.not_mem_nil
  exact (dropErases_iff (fun _ => rfl) hlog hbefore hdrop rfl .start hafter).mpr
    ⟨hother, hbare, rfl⟩

/-- **A tag is there after its drop**: the cache of latest values has it, which reads look in. -/
theorem dropped_tag_read : ∃ s₀ s₁,
    Run (NamedStep twoPlacesEnv twoPlaces) emptyStores [writeOne tagX] s₀ ∧
      NamedStep twoPlacesEnv twoPlaces s₀ (.dropTag tagX) s₁ ∧
      ¬ DropErases twoPlacesEnv (.dropTag tagX) tagX s₀ s₁ s₁ := by
  obtain ⟨s₀, hbefore⟩ := exists_run_writeOne tagX
  refine ⟨s₀, _, hbefore, .dropTag, ?_⟩
  intro h
  have hsome : (s₀.engine.latest.lookup tagX.key).isSome = true :=
    latest_run hbefore (.inr ⟨_, List.mem_cons_self, rfl⟩)
  have hnone := h.erased.latest
  change s₀.engine.latest.lookup tagX.key = none at hnone
  rw [hnone] at hsome
  cases hsome

end Sql
end MiniTSDB
