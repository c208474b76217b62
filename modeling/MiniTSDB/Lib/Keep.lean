import Mathlib.Data.List.AList

/-!
# Keeping some of the entries of a map, and filling one

`AList` has no filter by value: this is one, and what it leaves at a key. A map that is filled from a
list has at each key what the list has there.
-/

namespace MiniTSDB
namespace Lib

variable {κ β : Type}

/-- The entries whose value passes. -/
def keep (p : β → Bool) (m : AList fun _ : κ => β) : AList fun _ : κ => β where
  entries := m.entries.filter fun e => p e.2
  nodupKeys := m.nodupKeys.sublist List.filter_sublist

/-- Keeping more before makes no difference. -/
theorem keep_keep {p q : β → Bool} (h : ∀ b, q b = true → p b = true)
    (m : AList fun _ : κ => β) : keep q (keep p m) = keep q m := by
  apply AList.ext
  show (m.entries.filter fun e => p e.2).filter (fun e => q e.2) = m.entries.filter fun e => q e.2
  rw [List.filter_filter]
  apply List.filter_congr
  intro e _
  cases hq : q e.2 with
  | false => rfl
  | true => exact h e.2 hq

variable [DecidableEq κ]

theorem lookup_keep (p : β → Bool) (m : AList fun _ : κ => β) (k : κ) :
    (keep p m).lookup k = (m.lookup k).filter p := by
  ext v
  rw [← Option.mem_def, ← Option.mem_def, AList.mem_lookup_iff, Option.mem_filter_iff,
    AList.mem_lookup_iff, keep, List.mem_filter]

theorem lookup_keep_keep (p : β → Bool) (m : AList fun _ : κ => β) (k : κ) :
    (keep p (keep p m)).lookup k = (keep p m).lookup k := by
  rw [lookup_keep, lookup_keep, Option.filter_filter]
  simp only [Bool.and_self]

/-- The order does not matter, and what the map had is replaced. -/
theorem lookup_foldl_insert {entries : List (Sigma fun _ : κ => β)} (h : entries.NodupKeys)
    (m : AList fun _ : κ => β) (k : κ) :
    (entries.foldl (fun m e => m.insert e.1 e.2) m).lookup k
      = (entries.dlookup k).or (m.lookup k) := by
  induction entries generalizing m with
  | nil => rfl
  | cons e entries ih =>
    obtain ⟨hfresh, hnodup⟩ := List.nodupKeys_cons.mp h
    rw [List.foldl_cons, ih hnodup]
    by_cases hk : k = e.1
    · rw [hk, List.dlookup_eq_none.mpr hfresh, AList.lookup_insert, List.dlookup_cons_eq]
      rfl
    · rw [AList.lookup_insert_ne hk, List.dlookup_cons_ne _ _ hk]

theorem length_insert_le (m : AList fun _ : κ => β) (k : κ) (v : β) :
    (m.insert k v).entries.length ≤ m.entries.length + 1 := by
  rw [AList.entries_insert, List.length_cons]
  exact Nat.succ_le_succ (List.kerase_sublist k m.entries).length_le

/-- Two maps with the same values have the same entries, in some order. -/
theorem perm_entries_of_lookup {m m' : AList fun _ : κ => β}
    (h : ∀ k, m.lookup k = m'.lookup k) : m.entries.Perm m'.entries := by
  refine List.lookup_ext m.nodupKeys m'.nodupKeys fun k v => ?_
  show v ∈ m.lookup k ↔ v ∈ m'.lookup k
  rw [h]

theorem length_entries_of_lookup {m m' : AList fun _ : κ => β}
    (h : ∀ k, m.lookup k = m'.lookup k) : m.entries.length = m'.entries.length :=
  (perm_entries_of_lookup h).length_eq

end Lib
end MiniTSDB
