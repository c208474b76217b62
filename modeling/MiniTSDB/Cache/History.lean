import MiniTSDB.Sql.Executor
import MiniTSDB.Storage.ReadYourWrites
import Mathlib.Data.List.DropRight

/-!
# What the cache of latest values holds after any calls

A key of the cache is given as it is, or as the names of a database, a table and a tag that are
joined to one: both kinds of call work on one map. Of each key it holds the latest of the points
that have come since the key was last removed (`cache_holds_latest`).
-/

namespace MiniTSDB
namespace Storage

open Sql Lib

namespace LatestCache

/-- `MakeKey`. -/
abbrev makeKey (db table tag : Bytes) : Bytes := flatKey db table tag

/-- `Get`. -/
def get (cache : LatestCache) (tag : Bytes) : Option DataPoint := cache.lookup tag

/-- `Get` with three names. -/
def getAt (cache : LatestCache) (db table tag : Bytes) : Option DataPoint :=
  cache.get (makeKey db table tag)

/-- `Update` with three names. -/
def updateAt (cache : LatestCache) (db table tag : Bytes) (point : DataPoint) : LatestCache :=
  cache.update (makeKey db table tag) point

/-- `Remove`. -/
def remove (cache : LatestCache) (tag : Bytes) : LatestCache := cache.erase tag

/-- `Remove` with three names. -/
def removeAt (cache : LatestCache) (db table tag : Bytes) : LatestCache :=
  cache.remove (makeKey db table tag)

/-- `RemoveByPrefix`. -/
def removeByPrefix (cache : LatestCache) (front : Bytes) : LatestCache where
  entries := cache.entries.filter fun e => ! front.isPrefixOf e.1
  nodupKeys := cache.nodupKeys.sublist List.filter_sublist

/-- `Clear`. -/
def clear (_ : LatestCache) : LatestCache := ∅

end LatestCache

/-- A call that changes the cache. -/
inductive CacheOp
  | update (tag : Bytes) (point : DataPoint)
  | updateAt (db table tag : Bytes) (point : DataPoint)
  | remove (tag : Bytes)
  | removeAt (db table tag : Bytes)
  | removeByPrefix (front : Bytes)
  | clear
  deriving DecidableEq, Repr

namespace CacheOp

def apply (cache : LatestCache) : CacheOp → LatestCache
  | .update tag point => cache.update tag point
  | .updateAt db table tag point => cache.updateAt db table tag point
  | .remove tag => cache.remove tag
  | .removeAt db table tag => cache.removeAt db table tag
  | .removeByPrefix front => cache.removeByPrefix front
  | .clear => cache.clear

/-- The point that the call is an `Update` of the key with. -/
def pointOf (key : Bytes) : CacheOp → Option DataPoint
  | .update tag point => if tag = key then some point else none
  | .updateAt db table tag point =>
    if LatestCache.makeKey db table tag = key then some point else none
  | _ => none

/-- The call removes the key. -/
def removes (key : Bytes) : CacheOp → Bool
  | .remove tag => tag = key
  | .removeAt db table tag => LatestCache.makeKey db table tag = key
  | .removeByPrefix front => front.isPrefixOf key
  | .clear => true
  | _ => false

end CacheOp

/-- The cache after the calls, which was empty. -/
def LatestCache.after (ops : List CacheOp) : LatestCache := ops.foldl CacheOp.apply ∅

/-- The points that a key has been updated with since it was last removed. -/
def sinceRemoval (key : Bytes) (ops : List CacheOp) : List DataPoint :=
  (ops.rtakeWhile fun op => ! op.removes key).filterMap (CacheOp.pointOf key)

/-! ## One call -/

theorem get_removeByPrefix (cache : LatestCache) (front key : Bytes) :
    (cache.removeByPrefix front).get key = if front.isPrefixOf key then none else cache.get key := by
  ext point
  show point ∈ AList.lookup key (cache.removeByPrefix front) ↔ _
  rw [AList.mem_lookup_iff, LatestCache.removeByPrefix, List.mem_filter, ← AList.mem_lookup_iff]
  split
  case isTrue h => simp [h]
  case isFalse h => simp [h, LatestCache.get]

/-- What is left of the key where the call removes it. -/
theorem get_apply_of_removes {cache : LatestCache} {op : CacheOp} {key : Bytes}
    (h : op.removes key = true) : (op.apply cache).get key = none := by
  cases op with
  | update | updateAt => cases h
  | remove tag =>
    obtain rfl : tag = key := of_decide_eq_true h
    exact AList.lookup_erase _ _
  | removeAt db table tag =>
    obtain rfl : LatestCache.makeKey db table tag = key := of_decide_eq_true h
    exact AList.lookup_erase _ _
  | removeByPrefix front =>
    show (cache.removeByPrefix front).get key = none
    have hfront : front.isPrefixOf key = true := h
    rw [get_removeByPrefix, if_pos hfront]
  | clear => exact AList.lookup_empty key

/-- Where it is no `Update` of the key either, the key has what it had. -/
theorem get_apply_of_other {cache : LatestCache} {op : CacheOp} {key : Bytes}
    (hremoves : op.removes key = false) (hpoint : op.pointOf key = none) :
    (op.apply cache).get key = cache.get key := by
  cases op with
  | update tag point =>
    have hne : key ≠ tag := by
      rintro rfl
      simp [CacheOp.pointOf] at hpoint
    show (cache.update tag point).lookup key = cache.lookup key
    rw [lookup_update, if_neg hne]
  | updateAt db table tag point =>
    have hne : key ≠ LatestCache.makeKey db table tag := by
      rintro rfl
      simp [CacheOp.pointOf] at hpoint
    show (cache.update _ point).lookup key = cache.lookup key
    rw [lookup_update, if_neg hne]
  | remove tag =>
    have hne : tag ≠ key := of_decide_eq_false hremoves
    exact AList.lookup_erase_ne hne.symm
  | removeAt db table tag =>
    have hne : LatestCache.makeKey db table tag ≠ key := of_decide_eq_false hremoves
    exact AList.lookup_erase_ne hne.symm
  | removeByPrefix front =>
    have hfront : front.isPrefixOf key = false := hremoves
    show (cache.removeByPrefix front).get key = _
    rw [get_removeByPrefix, hfront]
    rfl
  | clear => cases hremoves

/-- An `Update` of the key takes the place of what is not later. -/
theorem get_apply_of_point {cache : LatestCache} {op : CacheOp} {key : Bytes} {point : DataPoint}
    (h : op.pointOf key = some point) :
    (op.apply cache).get key = match cache.get key with
      | some old => if point.ts ≥ old.ts then some point else some old
      | none => some point := by
  cases op with
  | update tag p =>
    simp only [CacheOp.pointOf, Option.ite_none_right_eq_some, Option.some.injEq] at h
    obtain ⟨rfl, rfl⟩ := h
    show (cache.update tag p).lookup tag = _
    rw [lookup_update, if_pos rfl]
    rfl
  | updateAt db table tag p =>
    simp only [CacheOp.pointOf, Option.ite_none_right_eq_some, Option.some.injEq] at h
    obtain ⟨rfl, rfl⟩ := h
    show (cache.update (LatestCache.makeKey db table tag) p).lookup _ = _
    rw [lookup_update, if_pos rfl]
    rfl
  | remove | removeAt | removeByPrefix | clear => cases h

/-! ## Any calls -/

theorem sinceRemoval_concat (key : Bytes) (ops : List CacheOp) (op : CacheOp) :
    sinceRemoval key (ops ++ [op]) = if op.removes key then []
      else sinceRemoval key ops ++ (op.pointOf key).toList := by
  rw [sinceRemoval, List.rtakeWhile_concat]
  cases h : op.removes key with
  | true => simp
  | false =>
    simp only [Bool.not_false, if_true, List.filterMap_append, sinceRemoval, Bool.false_eq_true,
      if_false]
    cases hpoint : op.pointOf key with
    | none => simp [hpoint]
    | some point => simp [hpoint]

/-- **The cache holds the latest point**, by induction on the calls: of the points that came since
the key was removed the one with the greatest timestamp, of several the last, and nothing if none
came. -/
theorem isLatestOf_get_after (ops : List CacheOp) (key : Bytes) :
    IsLatestOf (sinceRemoval key ops) ((LatestCache.after ops).get key) := by
  induction ops using List.reverseRecOn with
  | nil => exact rfl
  | append_singleton ops op ih =>
    rw [LatestCache.after, foldl_concat, ← LatestCache.after, sinceRemoval_concat]
    cases hremoves : op.removes key with
    | true =>
      rw [get_apply_of_removes hremoves]
      exact rfl
    | false =>
      cases hpoint : op.pointOf key with
      | none =>
        rw [get_apply_of_other hremoves hpoint]
        simpa using ih
      | some point =>
        rw [get_apply_of_point hpoint]
        exact isLatestOf_update _ _ _ ih

/-- **`Get` returns the latest point**, by key and by names. -/
theorem cache_holds_latest (ops : List CacheOp) :
    (∀ key, IsLatestOf (sinceRemoval key ops) ((LatestCache.after ops).get key)) ∧
      ∀ db table tag, IsLatestOf (sinceRemoval (LatestCache.makeKey db table tag) ops)
        ((LatestCache.after ops).getAt db table tag) :=
  ⟨isLatestOf_get_after ops, fun db table tag =>
    isLatestOf_get_after ops (LatestCache.makeKey db table tag)⟩

end Storage
end MiniTSDB
