import MiniTSDB.Storage.TagDir

/-!
# The flush callback (`StorageEngine::Init`)

A flush compresses the buffered points into one block and writes it as an SSTable of the tag,
named after the day and the first buffered timestamp. The file is opened so that it is emptied if
it exists. Hence a flush can destroy what an earlier one persisted, and exactly when is
`nothingLost_iff`: when the file of its name held a point that neither the new file nor another
one holds. `nothingLost_of_distinct` is the case in which no two flushes share the day and the
first timestamp.
-/

namespace MiniTSDB
namespace Storage

open Lib Os

/-- What `GetCurrentDateStr` gives: digits and dashes, so in particular no `_`. -/
structure DateStr where
  bytes : Bytes
  noUnderscore : 95 ∉ bytes

/-- `date_str + "_" + ts_str + ".sst"`. -/
def sstName (date : DateStr) (first : Timestamp) : Bytes :=
  date.bytes ++ ascii "_" ++ decimal first.toInt ++ ascii ".sst"

/-- The flush callback, in the directory of the tag. Nothing is said if the file does not open:
the points are gone. -/
def flushInto (d : Dir) (date : DateStr) (points : List DataPoint) : Dir :=
  match points with
  | [] => d
  | p :: _ =>
    match d.create (sstName date p.ts) (tableBytes [points]) with
    | none => d
    | some d' => d'

/-! ## File names -/

theorem isSst_sstName (date : DateStr) (first : Timestamp) : isSst (sstName date first) = true :=
  isSst_append _

private theorem append_underscore_inj {xs xs' ys ys' : Bytes} (hx : 95 ∉ xs) (hx' : 95 ∉ xs')
    (h : xs ++ 95 :: ys = xs' ++ 95 :: ys') : xs = xs' ∧ ys = ys' := by
  induction xs generalizing xs' with
  | nil =>
    cases xs' with
    | nil => exact ⟨rfl, (List.cons.inj h).2⟩
    | cons x xs' =>
      have := (List.cons.inj h).1
      simp [this] at hx'
  | cons x xs ih =>
    cases xs' with
    | nil =>
      have := (List.cons.inj h).1
      simp [← this] at hx
    | cons x' xs' =>
      simp only [List.mem_cons, not_or] at hx hx'
      obtain ⟨hhead, htail⟩ := List.cons.inj h
      obtain ⟨hxs, hys⟩ := ih hx.2 hx'.2 htail
      exact ⟨by rw [hhead, hxs], hys⟩

/-- A file's name tells the day and the first timestamp. -/
theorem sstName_inj {date date' : DateStr} {first first' : Timestamp}
    (h : sstName date first = sstName date' first') :
    date.bytes = date'.bytes ∧ first = first' := by
  simp only [sstName, List.append_assoc, show ascii "_" = [95] from rfl, List.cons_append,
    List.nil_append] at h
  obtain ⟨hdate, hrest⟩ := append_underscore_inj date.noUnderscore date'.noUnderscore h
  exact ⟨hdate, Int64.toInt_inj.mp (decimal_injective (List.append_cancel_right hrest))⟩

/-! ## Flushes of one tag -/

/-- A flush: the day and the points. -/
structure FlushOf where
  date : DateStr
  points : List DataPoint

def FlushOf.name? (f : FlushOf) : Option Bytes := f.points.head?.map fun p => sstName f.date p.ts

/-- The tag's directory, and the points that the flushes so far have persisted. -/
structure FlushState where
  dir : Dir
  persisted : List DataPoint

/-- What a flush persists: all that its file holds, if the file opens. -/
def persistedBy (d : Dir) (f : FlushOf) : List DataPoint :=
  match f.points with
  | [] => []
  | p :: _ =>
    match d.create (sstName f.date p.ts) (tableBytes [f.points]) with
    | none => []
    | some _ => dataPoints (tableBytes [f.points])

/-- One flush. -/
def flushStep (s : FlushState) (f : FlushOf) : FlushState :=
  { dir := flushInto s.dir f.date f.points, persisted := s.persisted ++ persistedBy s.dir f }

/-- Flushes of one tag, one after the other. -/
def flushAllOf (d : Dir) (fs : List FlushOf) : FlushState :=
  fs.foldl flushStep { dir := d, persisted := [] }

/-- Every point that a flush has persisted is in some file of the directory. -/
def NothingLost (s : FlushState) : Prop := ∀ p ∈ s.persisted, HoldsPoint s.dir p

/-- The points that earlier flushes persisted in the file this one opens are in the new file, or
in another one. -/
def KeepsEarlier (s : FlushState) (f : FlushOf) : Prop :=
  ∀ name ∈ f.name?, ∀ p ∈ s.persisted, p ∈ tablePoints s.dir name →
    p ∈ dataPoints (tableBytes [f.points]) ∨
      ∃ other, other ≠ name ∧ isSst other = true ∧ p ∈ tablePoints s.dir other

theorem flushStep_cases (s : FlushState) (f : FlushOf) :
    (flushStep s f = s ∧ ∀ name ∈ f.name?, tablePoints s.dir name = []) ∨
      ∃ name ∈ f.name?, flushStep s f = {
        dir := s.dir.set name (.file (tableBytes [f.points]))
        persisted := s.persisted ++ dataPoints (tableBytes [f.points]) } := by
  obtain ⟨date, points⟩ := f
  cases points with
  | nil => exact .inl ⟨by simp [flushStep, flushInto, persistedBy], by simp [FlushOf.name?]⟩
  | cons p ps =>
    cases hcreate : s.dir.create (sstName date p.ts) (tableBytes [p :: ps]) with
    | none =>
      refine .inl ⟨by simp [flushStep, flushInto, persistedBy, hcreate], ?_⟩
      simp only [FlushOf.name?, List.head?_cons, Option.map_some, Option.mem_some, forall_eq']
      -- the name is a directory, and nothing can be read from it
      unfold Dir.create at hcreate
      split at hcreate
      case h_1 empty hdir => rw [tablePoints, Dir.readFile, hdir]
      case h_2 => cases hcreate
    | some d' =>
      refine .inr ⟨sstName date p.ts, by simp [FlushOf.name?], ?_⟩
      simp [flushStep, flushInto, persistedBy, hcreate, Dir.create_eq_some hcreate]

theorem flushStep_of_not_dir {s : FlushState} {date : DateStr} {p : DataPoint}
    {ps : List DataPoint} (h : ∀ empty, s.dir.lookup (sstName date p.ts) ≠ some (.dir empty)) :
    flushStep s { date := date, points := p :: ps } = {
      dir := s.dir.set (sstName date p.ts) (.file (tableBytes [p :: ps]))
      persisted := s.persisted ++ dataPoints (tableBytes [p :: ps]) } := by
  have hcreate := Dir.create_of_not_dir h (tableBytes [p :: ps])
  simp only [flushStep, flushInto, persistedBy, hcreate]

theorem isSst_name? {f : FlushOf} {name : Bytes} (h : name ∈ f.name?) : isSst name = true := by
  obtain ⟨p, -, rfl⟩ := Option.map_eq_some_iff.mp h
  exact isSst_sstName _ _

/-- **One flush loses nothing exactly when it keeps what is in the file it opens.** -/
theorem nothingLost_flushStep {s : FlushState} {f : FlushOf} (h : NothingLost s) :
    NothingLost (flushStep s f) ↔ KeepsEarlier s f := by
  rcases flushStep_cases s f with ⟨heq, hempty⟩ | ⟨name, hname, heq⟩
  · rw [heq]
    refine ⟨fun _ name hname p _ hp => ?_, fun _ => h⟩
    simp [hempty name hname] at hp
  · have hnew : tablePoints (s.dir.set name (.file (tableBytes [f.points]))) name
        = dataPoints (tableBytes [f.points]) := tablePoints_of_lookup Dir.lookup_set
    have hold : ∀ other, other ≠ name →
        tablePoints (s.dir.set name (.file (tableBytes [f.points]))) other
          = tablePoints s.dir other := fun other hne => tablePoints_congr (Dir.lookup_set_ne hne)
    rw [heq]
    constructor
    · intro hlost name' hname' p hp _
      obtain rfl : name = name' := Option.some.inj (hname.symm.trans hname')
      obtain ⟨other, hsst, hin⟩ := hlost p (List.mem_append_left _ hp)
      by_cases hother : other = name
      · rw [hother, hnew] at hin
        exact .inl hin
      · rw [hold other hother] at hin
        exact .inr ⟨other, hother, hsst, hin⟩
    · intro hkeep p hp
      have hfile : p ∈ dataPoints (tableBytes [f.points]) →
          HoldsPoint (s.dir.set name (.file (tableBytes [f.points]))) p :=
        fun hp => ⟨name, isSst_name? hname, by rwa [hnew]⟩
      rcases List.mem_append.mp hp with hp | hp
      · obtain ⟨other, hsst, hin⟩ := h p hp
        by_cases hother : other = name
        · rw [hother] at hin
          rcases hkeep name hname p hp hin with hin | ⟨third, hthird, hsst, hin⟩
          · exact hfile hin
          · exact ⟨third, hsst, by rwa [hold third hthird]⟩
        · exact ⟨other, hsst, by rwa [hold other hother]⟩
      · exact hfile hp

theorem flushAllOf_take_succ (d : Dir) (fs : List FlushOf) (n : Nat) :
    flushAllOf d (fs.take (n + 1)) = match fs[n]? with
      | some f => flushStep (flushAllOf d (fs.take n)) f
      | none => flushAllOf d (fs.take n) := by
  rw [List.take_add_one]
  cases fs[n]? with
  | none => simp
  | some f => simp [flushAllOf]

theorem nothingLost_of_keepsEarlier {d : Dir} {fs : List FlushOf}
    (h : ∀ n, ∀ f ∈ fs[n]?, KeepsEarlier (flushAllOf d (fs.take n)) f) (n : Nat) :
    NothingLost (flushAllOf d (fs.take n)) := by
  induction n with
  | zero => exact nofun
  | succ n ih =>
    rw [flushAllOf_take_succ]
    cases hf : fs[n]? with
    | none => exact ih
    | some f => exact (nothingLost_flushStep ih).mpr (h n f hf)

/-- **After each flush nothing is lost, exactly if each flush keeps what it finds** in the file
it opens. -/
theorem nothingLost_iff (d : Dir) (fs : List FlushOf) :
    (∀ n, NothingLost (flushAllOf d (fs.take n))) ↔
      ∀ n, ∀ f ∈ fs[n]?, KeepsEarlier (flushAllOf d (fs.take n)) f := by
  refine ⟨fun hlost n f hf => ?_, nothingLost_of_keepsEarlier⟩
  have hnext := hlost (n + 1)
  rw [flushAllOf_take_succ, Option.mem_def.mp hf] at hnext
  exact (nothingLost_flushStep (hlost n)).mp hnext

/-- A day. -/
def someDay : DateStr := { bytes := ascii "2026-05-24", noUnderscore := by decide }

def flushTwice : List FlushOf :=
  [{ date := someDay, points := [⟨5, .double 0⟩, ⟨6, .double 0⟩] },
    { date := someDay, points := [⟨5, .double 0⟩] }]

/-- **The second flush destroys the first**: the point at 6 was persisted and is in no file. -/
theorem flushTwice_loses :
    (⟨6, .double 0⟩ ∈ (flushAllOf .empty (flushTwice.take 1)).persisted ∧
        ¬ HoldsPoint (flushAllOf .empty (flushTwice.take 2)).dir ⟨6, .double 0⟩) ∧
      ¬ ∀ n, NothingLost (flushAllOf .empty (flushTwice.take n)) := by
  have hfirst : flushAllOf .empty (flushTwice.take 1) = {
      dir := Dir.empty.set (sstName someDay 5)
        (.file (tableBytes [[⟨5, .double 0⟩, ⟨6, .double 0⟩]]))
      persisted := [] ++ dataPoints (tableBytes [[⟨5, .double 0⟩, ⟨6, .double 0⟩]]) } :=
    flushStep_of_not_dir (by simp)
  have hsecond : flushAllOf .empty (flushTwice.take 2) = {
      dir := (flushAllOf .empty (flushTwice.take 1)).dir.set (sstName someDay 5)
        (.file (tableBytes [[⟨5, .double 0⟩]]))
      persisted := (flushAllOf .empty (flushTwice.take 1)).persisted
        ++ dataPoints (tableBytes [[⟨5, .double 0⟩]]) } :=
    flushStep_of_not_dir (s := flushAllOf .empty (flushTwice.take 1)) (by rw [hfirst]; simp)
  have hpersisted : ⟨6, .double 0⟩ ∈ (flushAllOf .empty (flushTwice.take 1)).persisted := by
    rw [hfirst, dataPoints_tableBytes (streamsFit_of_length (by decide)) (by decide)]
    decide
  have hgone : ¬ HoldsPoint (flushAllOf .empty (flushTwice.take 2)).dir ⟨6, .double 0⟩ := by
    rintro ⟨name, -, hp⟩
    rw [hsecond, hfirst] at hp
    by_cases hname : name = sstName someDay 5
    · rw [hname, tablePoints_of_lookup Dir.lookup_set,
        dataPoints_tableBytes (streamsFit_of_length (by decide)) (by decide)] at hp
      revert hp
      decide
    · rw [tablePoints, Dir.readFile, Dir.lookup_set_ne hname, Dir.lookup_set_ne hname] at hp
      simp at hp
  refine ⟨⟨hpersisted, hgone⟩, fun hlost => hgone (hlost 2 _ ?_)⟩
  rw [hsecond]
  exact List.mem_append_left _ hpersisted

/-! ## Flushes that do not share a name -/

/-- No two flushes share the day and the first timestamp. -/
def DistinctKeys (fs : List FlushOf) : Prop :=
  fs.Pairwise fun f g => ∀ p ∈ f.points.head?, ∀ q ∈ g.points.head?,
    f.date.bytes ≠ g.date.bytes ∨ p.ts ≠ q.ts

theorem DistinctKeys.name?_ne {fs : List FlushOf} (h : DistinctKeys fs) {n : Nat} {f g : FlushOf}
    (hf : f ∈ fs.take n) (hg : g ∈ fs[n]?) {name other : Bytes} (hname : name ∈ g.name?)
    (hother : other ∈ f.name?) : other ≠ name := by
  rintro rfl
  obtain ⟨p, hp, hother⟩ := Option.map_eq_some_iff.mp hother
  obtain ⟨q, hq, hname⟩ := Option.map_eq_some_iff.mp hname
  obtain ⟨hdate, hts⟩ := sstName_inj (hother.trans hname.symm)
  obtain ⟨hn, rfl⟩ := List.getElem?_eq_some_iff.mp hg
  have hsplit : fs.take n ++ fs[n] :: fs.drop (n + 1) = fs := by
    rw [← List.drop_eq_getElem_cons hn, List.take_append_drop]
  rw [DistinctKeys, ← hsplit, List.pairwise_append] at h
  rcases h.2.2 f hf fs[n] List.mem_cons_self p hp q hq with hne | hne
  · exact hne hdate
  · exact hne hts

/-- Then every persisted point is in the file of the flush that persisted it. -/
theorem mem_ownFile_of_distinct {d : Dir} {fs : List FlushOf} (h : DistinctKeys fs) (n : Nat) :
    ∀ p ∈ (flushAllOf d (fs.take n)).persisted, ∃ f ∈ fs.take n, ∃ name ∈ f.name?,
      p ∈ tablePoints (flushAllOf d (fs.take n)).dir name := by
  induction n with
  | zero => exact nofun
  | succ n ih =>
    intro p hp
    rw [flushAllOf_take_succ] at hp ⊢
    rw [List.take_add_one]
    cases hg : fs[n]? with
    | none =>
      rw [hg] at hp
      simpa using ih p hp
    | some g =>
      rw [hg] at hp
      simp only at hp ⊢
      rcases flushStep_cases (flushAllOf d (fs.take n)) g with ⟨heq, -⟩ | ⟨name, hname, heq⟩
      · rw [heq] at hp ⊢
        obtain ⟨f, hf, hrest⟩ := ih p hp
        exact ⟨f, List.mem_append_left _ hf, hrest⟩
      · rw [heq] at hp ⊢
        rcases List.mem_append.mp hp with hp | hp
        · obtain ⟨f, hf, other, hother, hin⟩ := ih p hp
          refine ⟨f, List.mem_append_left _ hf, other, hother, ?_⟩
          rwa [tablePoints_congr (Dir.lookup_set_ne (h.name?_ne hf hg hname hother))]
        · refine ⟨g, List.mem_append_right _ (by simp), name, hname, ?_⟩
          rwa [tablePoints_of_lookup Dir.lookup_set]

/-- **Flushes with a day and a first timestamp of their own lose nothing.** -/
theorem nothingLost_of_distinct {d : Dir} {fs : List FlushOf} (h : DistinctKeys fs) (n : Nat) :
    NothingLost (flushAllOf d (fs.take n)) := by
  refine nothingLost_of_keepsEarlier (fun n g hg name hname p hp _ => .inr ?_) n
  obtain ⟨f, hf, other, hother, hin⟩ := mem_ownFile_of_distinct h n p hp
  exact ⟨other, h.name?_ne hf hg hname hother, isSst_name? hother, hin⟩

end Storage
end MiniTSDB
