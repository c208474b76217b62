import Mathlib.Data.List.Destutter
import Mathlib.Data.List.Sort
import Mathlib.Order.Basic

/-!
# Sorting by a key and dropping repeated keys

`std::sort` by a key is only known to give the elements in some order in which the keys do not
descend: elements of one key come out in an order the standard leaves open. A `KeySort` is any
such function. `std::unique` then keeps the first element of each run of one key, which is
Mathlib's `destutter`.

Which elements survive is open too. What is not open is their keys: `sortedUnique_spec` says
that they ascend strictly and are the keys of the input.
-/

namespace MiniTSDB
namespace Lib

variable {α κ : Type} [LinearOrder κ]

/-- A sort by a key, as far as a sort that need not be stable determines its result. -/
structure KeySort (key : α → κ) where
  sort : List α → List α
  perm : ∀ l, (sort l).Perm l
  sorted : ∀ l, (sort l).Pairwise fun a b => key a ≤ key b

/-- The stable sort is one. -/
def KeySort.stable (key : α → κ) : KeySort key where
  sort l := l.insertionSort fun a b => key a ≤ key b
  perm l := List.perm_insertionSort _ l
  sorted l := by
    have : Std.Total fun a b : α => key a ≤ key b := ⟨fun a b => le_total (key a) (key b)⟩
    have : IsTrans α fun a b => key a ≤ key b := ⟨fun _ _ _ => le_trans⟩
    exact List.pairwise_insertionSort _ l

/-- `std::unique` with equality of keys. -/
def uniqueKeys (key : α → κ) (l : List α) : List α := l.destutter fun a b => key a ≠ key b

/-- What merging lists of keyed elements is for: one element of `l` for each of its keys, in
ascending order. -/
structure IsMergeOf (key : α → κ) (l merged : List α) : Prop where
  ascending : merged.Pairwise fun a b => key a < key b
  subset : ∀ a ∈ merged, a ∈ l
  covers : ∀ a ∈ l, ∃ b ∈ merged, key b = key a

theorem exists_key_destutter' (key : α → κ) (l : List α) (a b : α) (h : b ∈ a :: l) :
    ∃ c ∈ l.destutter' (fun a b => key a ≠ key b) a, key c = key b := by
  induction l generalizing a with
  | nil => exact ⟨a, by simp, by rw [List.mem_singleton.mp h]⟩
  | cons x l ih =>
    rw [List.destutter'_cons]
    obtain hb | hb | hb : b = a ∨ b = x ∨ b ∈ l := by simpa using h
    all_goals split
    case inl.isTrue => exact ⟨a, by simp, by rw [hb]⟩
    case inl.isFalse => exact ih a (by simp [hb])
    case inr.inl.isTrue =>
      obtain ⟨c, hc, hkey⟩ := ih x (by simp [hb])
      exact ⟨c, by simp [hc], hkey⟩
    case inr.inl.isFalse hx =>
      -- `x` is dropped, and `a` has its key
      have ha : a ∈ l.destutter' (fun a b => key a ≠ key b) a := List.mem_destutter' _ _ _
      exact ⟨a, ha, by rw [hb, not_not.mp hx]⟩
    case inr.inr.isTrue =>
      obtain ⟨c, hc, hkey⟩ := ih x (by simp [hb])
      exact ⟨c, by simp [hc], hkey⟩
    case inr.inr.isFalse => exact ih a (by simp [hb])

/-- Keys that do not descend, and differ where they are neighbours, ascend. -/
theorem pairwise_lt_of_le_of_ne {key : α → κ} {l : List α}
    (hle : l.Pairwise fun a b => key a ≤ key b) (hne : l.IsChain fun a b => key a ≠ key b) :
    l.Pairwise fun a b => key a < key b := by
  induction l with
  | nil => exact .nil
  | cons a l ih =>
    rw [List.pairwise_cons] at hle ⊢
    refine ⟨fun b hb => ?_, ih hle.2 hne.tail⟩
    cases l with
    | nil => simp at hb
    | cons x xs =>
      have hax : key a < key x := lt_of_le_of_ne (hle.1 x (by simp)) hne.rel
      rcases List.mem_cons.mp hb with rfl | hb
      · exact hax
      · exact lt_of_lt_of_le hax ((List.pairwise_cons.mp hle.2).1 b hb)

/-- **Sorting and then dropping repeated keys merges.** -/
theorem sortedUnique_spec {key : α → κ} (s : KeySort key) (l : List α) :
    IsMergeOf key l (uniqueKeys key (s.sort l)) where
  ascending := pairwise_lt_of_le_of_ne ((s.sorted l).sublist (List.destutter_sublist _ _))
    (List.isChain_destutter _ _)
  subset a ha := (s.perm l).mem_iff.mp ((List.destutter_sublist _ _).subset ha)
  covers a ha := by
    have hs : a ∈ s.sort l := (s.perm l).mem_iff.mpr ha
    cases hl : s.sort l with
    | nil => simp [hl] at hs
    | cons x xs => exact exists_key_destutter' key xs x a (hl ▸ hs)

/-- Where keys ascend strictly, an element is told by its key. -/
theorem eq_of_key_eq {key : α → κ} {l : List α} (hl : l.Pairwise fun a b => key a < key b)
    {a b : α} (ha : a ∈ l) (hb : b ∈ l) (hkey : key a = key b) : a = b := by
  have hne : l.Pairwise fun a b => key a = key b → a = b :=
    hl.imp fun hlt heq => absurd heq (ne_of_lt hlt)
  have : Std.Symm fun a b : α => key a = key b → a = b := ⟨fun _ _ h heq => (h heq.symm).symm⟩
  exact hne.forall_of_forall (fun _ _ _ => rfl) ha hb hkey

namespace IsMergeOf

variable {key : α → κ} {l merged : List α}

theorem eq_nil_iff (h : IsMergeOf key l merged) : merged = [] ↔ l = [] := by
  constructor
  · rintro rfl
    refine List.eq_nil_iff_forall_not_mem.mpr fun a ha => ?_
    obtain ⟨b, hb, -⟩ := h.covers a ha
    simp at hb
  · rintro rfl
    exact List.eq_nil_iff_forall_not_mem.mpr fun a ha => by simpa using h.subset a ha

/-- One element of each key. -/
theorem inj (h : IsMergeOf key l merged) {a b : α} (ha : a ∈ merged) (hb : b ∈ merged)
    (hkey : key a = key b) : a = b := eq_of_key_eq h.ascending ha hb hkey

theorem eq_of_ascending (h : IsMergeOf key l merged) (hl : l.Pairwise fun a b => key a < key b) :
    merged = l := by
  have hirrefl : Std.Irrefl fun a b : α => key a < key b := ⟨fun a => lt_irrefl (key a)⟩
  have hantisymm : Std.Antisymm fun a b : α => key a < key b :=
    ⟨fun a b hab hba => absurd hab (lt_asymm hba)⟩
  refine h.ascending.eq_of_mem_iff hl fun a => ⟨h.subset a, fun ha => ?_⟩
  obtain ⟨b, hb, hkey⟩ := h.covers a ha
  exact eq_of_key_eq hl (h.subset b hb) ha hkey ▸ hb

end IsMergeOf

/-! ## What may survive -/

/-- A sort that puts one element in front of those with its key. -/
def KeySort.preferring [DecidableEq α] (key : α → κ) (a : α) : KeySort key where
  sort l :=
    if a ∈ l then
      (stable key).sort (l.filter fun b => key b < key a) ++
        a :: (stable key).sort ((l.erase a).filter fun b => ¬ key b < key a)
    else (stable key).sort l
  perm l := by
    split
    case isFalse => exact (stable key).perm l
    case isTrue ha =>
      have hbefore : (l.filter fun b => key b < key a).Perm
          ((l.erase a).filter fun b => key b < key a) := by
        have hfilter := (List.perm_cons_erase ha).filter fun b => decide (key b < key a)
        rwa [List.filter_cons_of_neg (by simp)] at hfilter
      have hparts := ((stable key).perm (l.filter fun b => key b < key a)).append
        (((stable key).perm ((l.erase a).filter fun b => ¬ key b < key a)).cons a)
      refine hparts.trans (List.perm_middle.trans ?_)
      have herase := List.filter_append_perm (fun b => decide (key b < key a)) (l.erase a)
      have hrest : ((l.filter fun b => key b < key a) ++
          (l.erase a).filter fun b => ¬ key b < key a).Perm (l.erase a) := by
        refine (hbefore.append_right _).trans ?_
        simp only [decide_not]
        exact herase
      exact (hrest.cons a).trans (List.perm_cons_erase ha).symm
  sorted l := by
    split
    case isFalse => exact (stable key).sorted l
    case isTrue ha =>
      have hbefore : ∀ b ∈ (stable key).sort (l.filter fun b => key b < key a), key b < key a := by
        intro b hb
        rw [((stable key).perm _).mem_iff] at hb
        exact of_decide_eq_true (List.mem_filter.mp hb).2
      have hbehind : ∀ b ∈ (stable key).sort ((l.erase a).filter fun b => ¬ key b < key a),
          key a ≤ key b := by
        intro b hb
        rw [((stable key).perm _).mem_iff] at hb
        exact not_lt.mp (of_decide_eq_true (List.mem_filter.mp hb).2)
      rw [List.pairwise_append, List.pairwise_cons]
      refine ⟨(stable key).sorted _, ⟨hbehind, (stable key).sorted _⟩, ?_⟩
      intro b hb c hc
      rcases List.mem_cons.mp hc with rfl | hc
      · exact le_of_lt (hbefore b hb)
      · exact le_trans (le_of_lt (hbefore b hb)) (hbehind c hc)

/-- The first element of its key stays. -/
theorem mem_uniqueKeys_of_first (key : α → κ) {before after : List α} {a : α}
    (h : ∀ b ∈ before, key b ≠ key a) : a ∈ uniqueKeys key (before ++ a :: after) := by
  have hfrom : ∀ (before : List α) (x : α), key x ≠ key a → (∀ b ∈ before, key b ≠ key a) →
      a ∈ (before ++ a :: after).destutter' (fun a b => key a ≠ key b) x := by
    intro before
    induction before with
    | nil =>
      intro x hx _
      rw [List.nil_append, List.destutter'_cons, if_pos hx]
      exact List.mem_cons_of_mem _ (List.mem_destutter' _ _ _)
    | cons b before ih =>
      intro x hx hbefore
      rw [List.forall_mem_cons] at hbefore
      rw [List.cons_append, List.destutter'_cons]
      split
      · exact List.mem_cons_of_mem _ (ih b hbefore.1 hbefore.2)
      · exact ih x hx hbefore.2
  cases before with
  | nil => exact List.mem_destutter' _ _ _
  | cons b before =>
    rw [List.forall_mem_cons] at h
    exact hfrom before b h.1 h.2

theorem mem_uniqueKeys_preferring [DecidableEq α] (key : α → κ) {l : List α} {a : α} (ha : a ∈ l) :
    a ∈ uniqueKeys key ((KeySort.preferring key a).sort l) := by
  change a ∈ uniqueKeys key (if a ∈ l then _ else _)
  rw [if_pos ha]
  apply mem_uniqueKeys_of_first
  intro b hb
  rw [((KeySort.stable key).perm _).mem_iff] at hb
  exact ne_of_lt (of_decide_eq_true (List.mem_filter.mp hb).2)

/-- **An element survives every sort if it is the only one of its key.** -/
theorem forall_sort_mem_iff [DecidableEq α] {key : α → κ} {l : List α} {a : α} :
    (∀ s : KeySort key, a ∈ uniqueKeys key (s.sort l)) ↔
      a ∈ l ∧ ∀ b ∈ l, key b = key a → b = a := by
  constructor
  · intro h
    refine ⟨(sortedUnique_spec (.stable key) l).subset a (h _), ?_⟩
    intro b hb hkey
    -- of the two, the sort that prefers `b` keeps both only if they are one
    have hmerge := sortedUnique_spec (.preferring key b) l
    exact hmerge.inj (mem_uniqueKeys_preferring key hb) (h _) hkey
  · intro ⟨ha, honly⟩ s
    obtain ⟨b, hb, hkey⟩ := (sortedUnique_spec s l).covers a ha
    exact honly b ((sortedUnique_spec s l).subset b hb) hkey ▸ hb

end Lib
end MiniTSDB
