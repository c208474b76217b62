import MiniTSDB.Storage.Engine
import MiniTSDB.Sql.Text

/-!
# Looking into the cache of latest values (`latest_cache.cpp`)

One tag, the tags a pattern matches, or all. Going over the cache gives its entries in no
particular order, and `order` is what it gives.
-/

namespace MiniTSDB
namespace Storage

open Sql

abbrev percent : UInt8 := 37

abbrev underscore : UInt8 := 95

/-- `LatestCache::MatchPattern`. Behind a `%` the rest of the pattern is tried on what is left of
the tag, from each character on. -/
def matchPattern : Bytes → Bytes → Bool
  | [], tag => tag.isEmpty
  | _ :: _, [] => false
  | q :: pattern, c :: tag =>
    if q = percent then pattern.isEmpty || (c :: tag).tails.dropLast.any (matchPattern pattern)
    else if q = underscore ∨ q = c then matchPattern pattern tag
    else false

/-- What going over the cache may give. -/
def LatestCache.Lists (cache : LatestCache) (order : List (Bytes × DataPoint)) : Prop :=
  (order.map fun e => (⟨e.1, e.2⟩ : Sigma fun _ : Bytes => DataPoint)).Perm cache.entries

/-- `GetByPattern`. -/
def getByPattern (order : List (Bytes × DataPoint)) (pattern : Bytes) :
    List (Bytes × DataPoint) :=
  order.filter fun e => matchPattern pattern e.1

end Storage
end MiniTSDB
