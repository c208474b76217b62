import MiniTSDB.Cache.History
import MiniTSDB.Snapshot.MatchPattern

/-!
# What is under the names of a table

The cache and the snapshot store join the names of a database, a table and a tag to one key, and
look for the keys of a table by what these begin with. A valid name has no `:`, so a key tells its
three names, and no `%`, so the front of a pattern stands for itself: a `_` of it is met by the `_`
of the key. A scan then gives the entries of its table and no other (`table_scans_exact`).
-/

namespace MiniTSDB
namespace Storage

open Sql Lib Snapshot

/-! ## Names -/

/-- `IsValidName`, whatever the limit. -/
def ValidName (name : Bytes) : Prop := ∃ maxLen, isValidName name maxLen = true

/-- The names of a tag, its table and its database. -/
structure TagNames where
  db : Bytes
  table : Bytes
  tag : Bytes
  validDb : ValidName db
  validTable : ValidName table
  validTag : ValidName tag
  deriving DecidableEq

def TagNames.key (names : TagNames) : Bytes := flatKey names.db names.table names.tag

/-- The keys of a table begin with this. -/
def tableFront (db table : Bytes) : Bytes := db ++ ascii ":" ++ table ++ ascii ":"

theorem ValidName.noColon {name : Bytes} (h : ValidName name) : (58 : UInt8) ∉ name := by
  obtain ⟨maxLen, hvalid⟩ := h
  exact colon_notMem_of_isValidName hvalid

theorem ValidName.noPercent {name : Bytes} (h : ValidName name) : percent ∉ name := by
  obtain ⟨maxLen, hvalid⟩ := h
  intro hmem
  have hchar := (chars_of_isValidName hvalid).2 percent hmem
  exact absurd hchar (by decide)

theorem count_flatKey (db table tag : Bytes) : (flatKey db table tag).count 58
    = db.count 58 + table.count 58 + tag.count 58 + 2 := by
  have hcolon : (ascii ":").count 58 = 1 := rfl
  unfold flatKey
  simp only [List.count_append, hcolon]
  omega

/-- **Three valid names are told by their key**, among any three names: the key has two colons. -/
theorem TagNames.eq_of_key {names : TagNames} {db table tag : Bytes}
    (h : flatKey db table tag = names.key) :
    names.db = db ∧ names.table = table ∧ names.tag = tag := by
  have hdb := List.count_eq_zero.mpr names.validDb.noColon
  have htable := List.count_eq_zero.mpr names.validTable.noColon
  have htag := List.count_eq_zero.mpr names.validTag.noColon
  have hcount := congrArg (List.count 58) h
  rw [TagNames.key, count_flatKey, count_flatKey, hdb, htable, htag] at hcount
  have htable' : table.count 58 = 0 := by omega
  have htag' : tag.count 58 = 0 := by omega
  exact flatKey_inj names.validTable.noColon names.validTag.noColon
    (List.count_eq_zero.mp htable') (List.count_eq_zero.mp htag') h.symm

theorem TagNames.key_injective : Function.Injective TagNames.key := by
  intro names names' h
  obtain ⟨hdb, htable, htag⟩ : names'.db = names.db ∧ names'.table = names.table ∧
      names'.tag = names.tag := TagNames.eq_of_key h
  cases names
  cases names'
  simp only at hdb htable htag
  subst hdb htable htag
  rfl

/-- The key of a tag begins with what the keys of its own table begin with. -/
theorem tableFront_prefix_key_iff {names : TagNames} {db table : Bytes} :
    tableFront db table <+: names.key ↔ names.db = db ∧ names.table = table := by
  constructor
  · intro ⟨rest, hkey⟩
    obtain ⟨hdb, htable, -⟩ : names.db = db ∧ names.table = table ∧ names.tag = rest :=
      TagNames.eq_of_key hkey
    exact ⟨hdb, htable⟩
  · rintro ⟨rfl, rfl⟩
    exact List.prefix_append _ _

theorem percent_notMem_tableFront (names : TagNames) :
    percent ∉ tableFront names.db names.table := by
  unfold tableFront
  simp only [List.mem_append, not_or]
  exact ⟨⟨⟨names.validDb.noPercent, by decide⟩, names.validTable.noPercent⟩, by decide⟩

/-! ## The front of a pattern -/

/-- Every character but `%` is met by itself. -/
def MeetsItself (matcher : Bytes → Bytes → Bool) : Prop :=
  ∀ q pattern tag, q ≠ percent → matcher (q :: pattern) (q :: tag) = matcher pattern tag

theorem meetsItself_matchPattern : MeetsItself matchPattern := by
  intro q pattern tag hq
  rw [matchPattern, if_neg hq, if_pos (.inr rfl)]

theorem meetsItself_snapshot : MeetsItself SnapshotMap.matchPattern := by
  intro q pattern tag hq
  show (if q = percent then _ else if q = underscore ∨ q = q then
    SnapshotMap.matchPattern pattern tag else false) = _
  rw [if_neg hq, if_pos (.inr rfl)]

theorem MeetsItself.append {matcher : Bytes → Bytes → Bool} (h : MeetsItself matcher)
    {front : Bytes} (hfront : percent ∉ front) (pattern tag : Bytes) :
    matcher (front ++ pattern) (front ++ tag) = matcher pattern tag := by
  induction front with
  | nil => rfl
  | cons q front ih =>
    rw [List.mem_cons, not_or] at hfront
    show matcher (q :: (front ++ pattern)) (q :: (front ++ tag)) = _
    rw [h q _ _ (Ne.symm hfront.1), ih hfront.2]

/-- The whole key against the whole pattern: the tag against the pattern. -/
theorem MeetsItself.key {matcher : Bytes → Bytes → Bool} (h : MeetsItself matcher)
    (names : TagNames) (pattern : Bytes) :
    matcher (tableFront names.db names.table ++ pattern) names.key = matcher pattern names.tag :=
  h.append (percent_notMem_tableFront names) pattern names.tag

/-! ## Scans -/

section
variable {ε : Type} (keyOf : ε → Bytes)

/-- The loop of `GetAll`, over the entries in the order they come in. -/
def scanTable (order : List ε) (db table : Bytes) : List ε :=
  order.filter fun e => (tableFront db table).isPrefixOf (keyOf e)

/-- The loop of `GetByPattern`, with a matcher. -/
def scanPattern (matcher : Bytes → Bytes → Bool) (order : List ε) (db table pattern : Bytes) :
    List ε :=
  order.filter fun e => (tableFront db table).isPrefixOf (keyOf e) &&
    matcher (tableFront db table ++ pattern) (keyOf e)

/-- What a scan of a table should give: the entries of its tags, of those whose name passes, each
once. -/
structure ScansTable (isEntry : TagNames → ε → Prop) (db table : Bytes) (passes : Bytes → Bool)
    (result : List ε) : Prop where
  nodup : (result.map keyOf).Nodup
  mem_iff : ∀ e, e ∈ result ↔ ∃ names : TagNames, names.db = db ∧ names.table = table ∧
    passes names.tag = true ∧ isEntry names e

/-- The entries are those of tags with valid names, each once. -/
structure OfTags (isEntry : TagNames → ε → Prop) (order : List ε) : Prop where
  nodup : (order.map keyOf).Nodup
  mem_iff : ∀ e, e ∈ order ↔ ∃ names, isEntry names e
  key : ∀ names e, isEntry names e → keyOf e = names.key

variable {keyOf} {isEntry : TagNames → ε → Prop} {order : List ε}

theorem OfTags.scanTable (h : OfTags keyOf isEntry order) (db table : Bytes) :
    ScansTable keyOf isEntry db table (fun _ => true) (scanTable keyOf order db table) where
  nodup := h.nodup.sublist (List.filter_sublist.map keyOf)
  mem_iff e := by
    rw [Storage.scanTable, List.mem_filter, h.mem_iff, List.isPrefixOf_iff_prefix]
    constructor
    · rintro ⟨⟨names, hentry⟩, hfront⟩
      rw [h.key names e hentry, tableFront_prefix_key_iff] at hfront
      exact ⟨names, hfront.1, hfront.2, rfl, hentry⟩
    · rintro ⟨names, hdb, htable, -, hentry⟩
      rw [h.key names e hentry, tableFront_prefix_key_iff]
      exact ⟨⟨names, hentry⟩, hdb, htable⟩

theorem OfTags.scanPattern {matcher : Bytes → Bytes → Bool} (hmatcher : MeetsItself matcher)
    (h : OfTags keyOf isEntry order) (db table pattern : Bytes) :
    ScansTable keyOf isEntry db table (matcher pattern)
      (scanPattern keyOf matcher order db table pattern) where
  nodup := h.nodup.sublist (List.filter_sublist.map keyOf)
  mem_iff e := by
    rw [Storage.scanPattern, List.mem_filter, h.mem_iff, Bool.and_eq_true,
      List.isPrefixOf_iff_prefix]
    constructor
    · rintro ⟨⟨names, hentry⟩, hfront, hmatch⟩
      rw [h.key names e hentry] at hfront hmatch
      obtain ⟨rfl, rfl⟩ := tableFront_prefix_key_iff.mp hfront
      rw [hmatcher.key] at hmatch
      exact ⟨names, rfl, rfl, hmatch, hentry⟩
    · rintro ⟨names, rfl, rfl, hpasses, hentry⟩
      rw [h.key names e hentry, hmatcher.key]
      exact ⟨⟨names, hentry⟩, List.prefix_append _ _, hpasses⟩

end

/-! ## The cache -/

/-- `GetAll` of a table. -/
def getAllAt (order : List (Bytes × DataPoint)) (db table : Bytes) : List (Bytes × DataPoint) :=
  scanTable Prod.fst order db table

/-- `GetByPattern` of a table. -/
def getByPatternAt (order : List (Bytes × DataPoint)) (db table pattern : Bytes) :
    List (Bytes × DataPoint) :=
  scanPattern Prod.fst matchPattern order db table pattern

/-- A call that fills the cache, with three names. -/
inductive TableOp
  | update (names : TagNames) (point : DataPoint)
  | remove (names : TagNames)
  deriving DecidableEq

namespace TableOp

def call : TableOp → CacheOp
  | .update names point => .updateAt names.db names.table names.tag point
  | .remove names => .removeAt names.db names.table names.tag

def pointTo (names : TagNames) : TableOp → Option DataPoint
  | .update names' point => if names' = names then some point else none
  | .remove _ => none

/-- The points written to a tag since it was last removed. -/
def written (names : TagNames) (ops : List TableOp) : List DataPoint :=
  (ops.rtakeWhile fun op => op ≠ .remove names).filterMap (pointTo names)

theorem pointOf_call (names : TagNames) (op : TableOp) :
    op.call.pointOf names.key = op.pointTo names := by
  cases op with
  | update names' point =>
    show (if names'.key = names.key then some point else none) = _
    simp only [TagNames.key_injective.eq_iff, pointTo]
  | remove names' => rfl

theorem removes_call (names : TagNames) (op : TableOp) :
    (! op.call.removes names.key) = decide (op ≠ .remove names) := by
  cases op with
  | update names' point => rfl
  | remove names' =>
    show (! decide (names'.key = names.key)) = _
    simp only [TagNames.key_injective.eq_iff, ne_eq, TableOp.remove.injEq, decide_not]

/-- What is written under the key of a tag is what is written to the tag. -/
theorem sinceRemoval_call (names : TagNames) (ops : List TableOp) :
    sinceRemoval names.key (ops.map call) = written names ops := by
  induction ops using List.reverseRecOn with
  | nil => rfl
  | append_singleton ops op ih =>
    have hpoint : op.call.pointOf names.key = op.pointTo names := pointOf_call names op
    rw [List.map_append, List.map_singleton, sinceRemoval_concat, hpoint, ih, written, written,
      List.rtakeWhile_concat, ← removes_call]
    cases op.call.removes names.key with
    | true => rfl
    | false =>
      cases hto : op.pointTo names with
      | none => simp [hto]
      | some point => simp [hto]

end TableOp

/-- The entry of a tag in the cache: its key, and the latest of the points written to it. -/
def IsCacheEntry (ops : List TableOp) (names : TagNames) (e : Bytes × DataPoint) : Prop :=
  e.1 = names.key ∧ IsLatestOf (TableOp.written names ops) (some e.2)

theorem LatestCache.Lists.mem_iff {cache : LatestCache} {order : List (Bytes × DataPoint)}
    (h : cache.Lists order) {e : Bytes × DataPoint} : e ∈ order ↔ cache.get e.1 = some e.2 := by
  show _ ↔ e.2 ∈ AList.lookup e.1 cache
  rw [AList.mem_lookup_iff, ← List.Perm.mem_iff h, List.mem_map]
  constructor
  · intro hmem
    exact ⟨e, hmem, rfl⟩
  · rintro ⟨⟨key, point⟩, hmem, heq⟩
    obtain ⟨rfl, hpoint⟩ := Sigma.mk.inj heq
    cases hpoint
    exact hmem

theorem LatestCache.Lists.nodup {cache : LatestCache} {order : List (Bytes × DataPoint)}
    (h : cache.Lists order) : (order.map Prod.fst).Nodup := by
  have hkeys := h.map Sigma.fst
  rw [List.map_map] at hkeys
  exact hkeys.nodup_iff.mpr cache.keys_nodup

/-- A key that has a point is the key of a tag. -/
theorem exists_names_of_get {ops : List TableOp} {key : Bytes} {point : DataPoint}
    (h : (LatestCache.after (ops.map TableOp.call)).get key = some point) :
    ∃ names : TagNames, key = names.key := by
  have hlatest := isLatestOf_get_after (ops.map TableOp.call) key
  rw [h] at hlatest
  have hmem := mem_of_lastAt hlatest.1
  rw [sinceRemoval, List.mem_filterMap] at hmem
  obtain ⟨call, hcall, hpoint⟩ := hmem
  obtain ⟨op, -, rfl⟩ := List.mem_map.mp ((List.rtakeWhile_suffix _ _).subset hcall)
  cases op with
  | update names p =>
    simp only [TableOp.call, CacheOp.pointOf, Option.ite_none_right_eq_some] at hpoint
    exact ⟨names, hpoint.1.symm⟩
  | remove names => cases hpoint

/-- **The cache has the entries of the tags**, whatever order it is gone over in. -/
theorem ofTags_cache {ops : List TableOp} {order : List (Bytes × DataPoint)}
    (h : (LatestCache.after (ops.map TableOp.call)).Lists order) :
    OfTags Prod.fst (IsCacheEntry ops) order where
  nodup := h.nodup
  key _ _ hentry := hentry.1
  mem_iff e := by
    rw [h.mem_iff]
    constructor
    · intro hget
      obtain ⟨names, hkey⟩ := exists_names_of_get hget
      have hlatest := isLatestOf_get_after (ops.map TableOp.call) e.1
      rw [hget, hkey, TableOp.sinceRemoval_call] at hlatest
      exact ⟨names, hkey, hlatest⟩
    · rintro ⟨names, hkey, hentry⟩
      have hlatest := isLatestOf_get_after (ops.map TableOp.call) e.1
      rw [hkey, TableOp.sinceRemoval_call] at hlatest
      rw [hkey]
      exact isLatestOf_unique hlatest hentry

end Storage

/-! ## The snapshot store -/

namespace Snapshot

open Sql Lib Storage

/-- `OnWrite` with three names. -/
def SnapshotMap.onWriteAt (m : SnapshotMap) (db table tag : Bytes) (point : DataPoint) :
    SnapshotMap :=
  m.onWrite (flatKey db table tag) point

/-- `GetAll` of a table. -/
def SnapshotMap.getAllAt (order : List CachedSnapshot) (db table : Bytes) : List CachedSnapshot :=
  scanTable CachedSnapshot.tag order db table

/-- `GetByPattern` of a table. -/
def SnapshotMap.getByPatternAt (order : List CachedSnapshot) (db table pattern : Bytes) :
    List CachedSnapshot :=
  scanPattern CachedSnapshot.tag SnapshotMap.matchPattern order db table pattern

/-- The store after the writes, which was empty. -/
def SnapshotMap.after (writes : List (TagNames × DataPoint)) : SnapshotMap :=
  writes.foldl (fun m w => m.onWriteAt w.1.db w.1.table w.1.tag w.2) .empty

/-- The last point written to a tag. -/
def lastTo (names : TagNames) (writes : List (TagNames × DataPoint)) : Option DataPoint :=
  (writes.reverse.find? fun w => w.1 = names).map Prod.snd

/-- The entry of a tag in the store: that of the last point written to it. -/
def IsStoreEntry (writes : List (TagNames × DataPoint)) (names : TagNames) (e : CachedSnapshot) :
    Prop :=
  ∃ point, lastTo names writes = some point ∧ e = .ofPoint names.key point

theorem lastTo_concat (names : TagNames) (writes : List (TagNames × DataPoint))
    (w : TagNames × DataPoint) :
    lastTo names (writes ++ [w]) = if w.1 = names then some w.2 else lastTo names writes := by
  rw [lastTo, List.reverse_append, List.reverse_singleton, List.singleton_append, List.find?_cons]
  by_cases h : w.1 = names
  · simp [h]
  · simp [h, lastTo]

/-- What the store has, by induction on the writes. -/
theorem get_after_iff {writes : List (TagNames × DataPoint)} {key : Bytes} {e : CachedSnapshot} :
    (SnapshotMap.after writes).get key = some e ↔
      ∃ names : TagNames, key = names.key ∧ IsStoreEntry writes names e := by
  induction writes using List.reverseRecOn with
  | nil => simp [SnapshotMap.after, IsStoreEntry, lastTo]
  | append_singleton writes w ih =>
    rw [SnapshotMap.after, foldl_concat, ← SnapshotMap.after, SnapshotMap.onWriteAt, get_onWrite]
    split
    case isTrue hkey =>
      constructor
      · intro he
        refine ⟨w.1, hkey, w.2, ?_, (Option.some.inj he).symm⟩
        rw [lastTo_concat, if_pos rfl]
      · rintro ⟨names, hnames, point, hlast, rfl⟩
        have hsame : w.1 = names := TagNames.key_injective (hkey.symm.trans hnames)
        rw [lastTo_concat, if_pos hsame, Option.some.injEq] at hlast
        rw [← hlast, ← hsame]
        rfl
    case isFalse hkey =>
      rw [ih]
      have hother : ∀ names : TagNames, key = names.key →
          lastTo names (writes ++ [w]) = lastTo names writes := by
        intro names hnames
        rw [lastTo_concat, if_neg]
        rintro rfl
        exact hkey hnames
      constructor
      · rintro ⟨names, hnames, point, hlast, he⟩
        exact ⟨names, hnames, point, (hother names hnames).trans hlast, he⟩
      · rintro ⟨names, hnames, point, hlast, he⟩
        exact ⟨names, hnames, point, (hother names hnames).symm.trans hlast, he⟩

/-- **The store has the entries of the tags**, whatever order it is gone over in. -/
theorem ofTags_store {writes : List (TagNames × DataPoint)} {order : List CachedSnapshot}
    (h : (SnapshotMap.after writes).Lists order) :
    OfTags CachedSnapshot.tag (IsStoreEntry writes) order where
  nodup := h.nodup
  key := by
    rintro names e ⟨point, -, rfl⟩
    rfl
  mem_iff e := by
    rw [h.mem_iff, get_after_iff]
    constructor
    · rintro ⟨names, -, hentry⟩
      exact ⟨names, hentry⟩
    · rintro ⟨names, hentry⟩
      refine ⟨names, ?_, hentry⟩
      obtain ⟨point, -, rfl⟩ := hentry
      rfl

/-- **Scans of a table give the table**, in the cache and in the store: its entries and no others,
and of a pattern those whose tag the matcher of the class matches. Tags with different names have
different keys. -/
theorem table_scans_exact {ops : List TableOp} {order : List (Bytes × DataPoint)}
    (horder : (LatestCache.after (ops.map TableOp.call)).Lists order)
    {writes : List (TagNames × DataPoint)} {order' : List CachedSnapshot}
    (horder' : (SnapshotMap.after writes).Lists order') (db table pattern : Bytes) :
    Function.Injective TagNames.key ∧
      ScansTable Prod.fst (IsCacheEntry ops) db table (fun _ => true) (getAllAt order db table) ∧
      ScansTable Prod.fst (IsCacheEntry ops) db table (matchPattern pattern)
        (getByPatternAt order db table pattern) ∧
      ScansTable CachedSnapshot.tag (IsStoreEntry writes) db table (fun _ => true)
        (SnapshotMap.getAllAt order' db table) ∧
      ScansTable CachedSnapshot.tag (IsStoreEntry writes) db table (SnapshotMap.matchPattern pattern)
        (SnapshotMap.getByPatternAt order' db table pattern) :=
  ⟨TagNames.key_injective, (ofTags_cache horder).scanTable db table,
    (ofTags_cache horder).scanPattern meetsItself_matchPattern db table pattern,
    (ofTags_store horder').scanTable db table,
    (ofTags_store horder').scanPattern meetsItself_snapshot db table pattern⟩

/-- The tags `x_1` of the tables `a_b` and `acb`, whose keys the pattern of `a_b` both meets. -/
def wildNames (table : Bytes) (h : isValidName table 64 = true) : TagNames where
  db := ascii "d"
  table := table
  tag := ascii "x_1"
  validDb := ⟨64, rfl⟩
  validTable := ⟨64, h⟩
  validTag := ⟨128, rfl⟩

/-- Two writes, and the tables as they are gone over. -/
theorem table_scans_of_two :
    (LatestCache.after (([.update (wildNames (ascii "a_b") rfl) ⟨1, .int64 1⟩,
        .update (wildNames (ascii "acb") rfl) ⟨2, .int64 2⟩] : List TableOp).map
          TableOp.call)).Lists
        [(ascii "d:acb:x_1", ⟨2, .int64 2⟩), (ascii "d:a_b:x_1", ⟨1, .int64 1⟩)] ∧
      (SnapshotMap.after [(wildNames (ascii "acb") rfl, ⟨1, .int64 1⟩)]).Lists
        [.ofPoint (ascii "d:acb:x_1") ⟨1, .int64 1⟩] ∧
      ScansTable Prod.fst (IsCacheEntry [.update (wildNames (ascii "a_b") rfl) ⟨1, .int64 1⟩,
          .update (wildNames (ascii "acb") rfl) ⟨2, .int64 2⟩]) (ascii "d") (ascii "a_b")
        (fun _ => true) [(ascii "d:a_b:x_1", ⟨1, .int64 1⟩)] := by
  have hcache : (LatestCache.after (([.update (wildNames (ascii "a_b") rfl) ⟨1, .int64 1⟩,
      .update (wildNames (ascii "acb") rfl) ⟨2, .int64 2⟩] : List TableOp).map
        TableOp.call)).Lists
      [(ascii "d:acb:x_1", ⟨2, .int64 2⟩), (ascii "d:a_b:x_1", ⟨1, .int64 1⟩)] := List.Perm.refl _
  have hstore : (SnapshotMap.after [(wildNames (ascii "acb") rfl, ⟨1, .int64 1⟩)]).Lists
      [.ofPoint (ascii "d:acb:x_1") ⟨1, .int64 1⟩] := List.Perm.refl _
  exact ⟨hcache, hstore, (table_scans_exact hcache hstore (ascii "d") (ascii "a_b") []).2.1⟩

end Snapshot
end MiniTSDB
