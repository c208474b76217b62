import MiniTSDB.Common.Types
import MiniTSDB.Lib.Runs
import Mathlib.Data.List.AList

/-!
# `MemTable` (`memtable.cpp`)

The write buffer: per tag, the points in the order they arrived. An operation is the new table
and the calls it makes of the flush callback, in order; the engine always sets a callback, and
the callback does not look at the table, so the calls may as well be made afterwards.

Nothing is ever dropped here (`Accounted`): a point that was buffered, or has just been added, is
buffered still or in one of the calls. Over any run of the operations the calls for a tag and its
buffer are the points added for it, in order (`run_conserves`).
-/

namespace MiniTSDB
namespace Storage

open Lib

structure TagBuffer where
  points : List DataPoint := []
  estimatedBytes : Nat := 0
  deriving DecidableEq, Repr

/-- `MemTable`. The size the compiler gives a `DataPoint` is left open. -/
structure MemTable where
  flushThreshold : Nat
  sizeofDataPoint : Nat
  buffers : AList fun _ : Bytes => TagBuffer := ∅

structure FlushCall where
  tag : Bytes
  points : List DataPoint
  deriving DecidableEq, Repr

/-- The buffer of a tag; an empty one if there is none yet. -/
def MemTable.buffer (m : MemTable) (tag : Bytes) : TagBuffer := (m.buffers.lookup tag).getD {}

/-- `it->second = buf`. -/
def MemTable.setBuffer (m : MemTable) (tag : Bytes) (buf : TagBuffer) : MemTable :=
  { m with buffers := m.buffers.insert tag buf }

def MemTable.flushBuffer (m : MemTable) (tag : Bytes) (buf : TagBuffer) :
    MemTable × List FlushCall :=
  if buf.points.isEmpty then (m, [])
  else (m.setBuffer tag {}, [{ tag := tag, points := buf.points }])

def MemTable.checkFlush (m : MemTable) (tag : Bytes) (buf : TagBuffer) :
    MemTable × List FlushCall :=
  if buf.estimatedBytes ≥ m.flushThreshold then m.flushBuffer tag buf else (m, [])

def MemTable.add (m : MemTable) (tag : Bytes) (point : DataPoint) : MemTable × List FlushCall :=
  let buf := m.buffer tag
  let buf : TagBuffer :=
    { points := buf.points ++ [point]
      estimatedBytes := buf.estimatedBytes + (m.sizeofDataPoint + tag.length) }
  (m.setBuffer tag buf).checkFlush tag buf

def MemTable.flushTag (m : MemTable) (tag : Bytes) : MemTable × List FlushCall :=
  match m.buffers.lookup tag with
  | none => (m, [])
  | some buf => m.flushBuffer tag buf

/-- Operations one after the other, with all the calls they make. -/
def MemTable.sequence {α : Type} (op : MemTable → α → MemTable × List FlushCall) (m : MemTable)
    (as : List α) : MemTable × List FlushCall :=
  as.foldl (fun s a => ((op s.1 a).1, s.2 ++ (op s.1 a).2)) (m, [])

/-- `MemTable::FlushAll`, which goes through an unordered map: `order` lists its tags. -/
def MemTable.flushAll (m : MemTable) (order : List Bytes) : MemTable × List FlushCall :=
  m.sequence MemTable.flushTag order

def MemTable.addAll (m : MemTable) (points : List (Bytes × DataPoint)) :
    MemTable × List FlushCall :=
  m.sequence (fun m p => m.add p.1 p.2) points

/-- The inner loop of `AddBatch`. -/
def MemTable.addBatchPoint (tagName : Bytes) (m : MemTable) (point : DataPoint) :
    MemTable × List FlushCall :=
  let buf := m.buffer tagName
  let buf : TagBuffer :=
    { points := buf.points ++ [point]
      estimatedBytes := buf.estimatedBytes + (m.sizeofDataPoint + tagName.length) }
  (m.setBuffer tagName buf).checkFlush tagName buf

def MemTable.addBatch (m : MemTable) (batches : List DataBatch) : MemTable × List FlushCall :=
  m.sequence (fun m batch => m.sequence (MemTable.addBatchPoint batch.tagName) batch.points) batches

/-- What one operation keeps, any number does. -/
theorem MemTable.sequence_invariant {α : Type} {op : MemTable → α → MemTable × List FlushCall}
    {m : MemTable} {as : List α} (inv : MemTable × List FlushCall → Prop) (hstart : inv (m, []))
    (hstep : ∀ s a, inv s → inv ((op s.1 a).1, s.2 ++ (op s.1 a).2)) :
    inv (m.sequence op as) := by
  unfold MemTable.sequence
  exact List.foldlRecOn as _ hstart fun s hs a _ => hstep s a hs

/-! ## Where the points are -/

/-- The point waits in its tag's buffer. -/
def MemTable.Buffered (m : MemTable) (tag : Bytes) (p : DataPoint) : Prop :=
  p ∈ (m.buffer tag).points

/-- The point is buffered, or in one of the calls. -/
def Accounted (s : MemTable × List FlushCall) (tag : Bytes) (p : DataPoint) : Prop :=
  s.1.Buffered tag p ∨ ∃ call ∈ s.2, call.tag = tag ∧ p ∈ call.points

theorem buffer_setBuffer (m : MemTable) (tag other : Bytes) (buf : TagBuffer) :
    (m.setBuffer tag buf).buffer other = if other = tag then buf else m.buffer other := by
  unfold MemTable.buffer MemTable.setBuffer
  split
  case isTrue h => rw [h, AList.lookup_insert, Option.getD_some]
  case isFalse h => rw [AList.lookup_insert_ne h]

theorem buffered_setBuffer {m : MemTable} {tag other : Bytes} {buf : TagBuffer} {p : DataPoint} :
    (m.setBuffer tag buf).Buffered other p ↔
      if other = tag then p ∈ buf.points else m.Buffered other p := by
  rw [MemTable.Buffered, buffer_setBuffer]
  split <;> rfl

theorem accounted_flushBuffer {m : MemTable} {other : Bytes} {p : DataPoint} (tag : Bytes)
    (h : m.Buffered other p) : Accounted (m.flushBuffer tag (m.buffer tag)) other p := by
  unfold MemTable.flushBuffer
  split
  case isTrue => exact .inl h
  case isFalse =>
    by_cases hother : other = tag
    · subst hother
      exact .inr ⟨_, List.mem_cons_self, rfl, h⟩
    · refine .inl ?_
      rw [buffered_setBuffer, if_neg hother]
      exact h

theorem accounted_add {m : MemTable} {tag other : Bytes} {point p : DataPoint}
    (h : m.Buffered other p ∨ (other = tag ∧ p = point)) :
    Accounted (m.add tag point) other p := by
  rw [MemTable.add]
  set buf : TagBuffer :=
    { points := (m.buffer tag).points ++ [point], estimatedBytes := _ } with hbuf
  have hset : (m.setBuffer tag buf).buffer tag = buf := by rw [buffer_setBuffer, if_pos rfl]
  have hin : (m.setBuffer tag buf).Buffered other p := by
    rw [buffered_setBuffer]
    split
    case isTrue hother =>
      subst hother
      rcases h with h | ⟨-, rfl⟩
      · exact List.mem_append_left _ h
      · exact List.mem_append_right _ List.mem_cons_self
    case isFalse hother => exact h.resolve_right fun h => hother h.1
  unfold MemTable.checkFlush
  split
  case isTrue =>
    have := accounted_flushBuffer tag hin
    rwa [hset] at this
  case isFalse => exact .inl hin

theorem accounted_flushTag {m : MemTable} {tag other : Bytes} {p : DataPoint}
    (h : m.Buffered other p) : Accounted (m.flushTag tag) other p := by
  unfold MemTable.flushTag
  cases hlookup : m.buffers.lookup tag with
  | none => exact .inl h
  | some buf =>
    have hbuf : m.buffer tag = buf := by rw [MemTable.buffer, hlookup, Option.getD_some]
    have := accounted_flushBuffer tag h
    rwa [hbuf] at this

theorem accounted_sequence {α : Type} {op : MemTable → α → MemTable × List FlushCall}
    (added : α → Bytes → DataPoint → Prop)
    (hop : ∀ m a tag p, m.Buffered tag p ∨ added a tag p → Accounted (op m a) tag p)
    {m : MemTable} {as : List α} {tag : Bytes} {p : DataPoint}
    (h : m.Buffered tag p ∨ ∃ a ∈ as, added a tag p) : Accounted (m.sequence op as) tag p := by
  have hfold : ∀ s : MemTable × List FlushCall, (Accounted s tag p ∨ ∃ a ∈ as, added a tag p) →
      Accounted (as.foldl (fun s a => ((op s.1 a).1, s.2 ++ (op s.1 a).2)) s) tag p := by
    clear h
    induction as with
    | nil => simp
    | cons a as ih =>
      intro s h
      refine ih _ ?_
      have hstep : s.1.Buffered tag p ∨ added a tag p →
          Accounted ((op s.1 a).1, s.2 ++ (op s.1 a).2) tag p := by
        intro hnow
        rcases hop s.1 a tag p hnow with hbuf | ⟨call, hcall, hp⟩
        · exact .inl hbuf
        · exact .inr ⟨call, List.mem_append_right _ hcall, hp⟩
      rcases h with (hbuf | ⟨call, hcall, hp⟩) | ⟨b, hb, hadd⟩
      · exact .inl (hstep (.inl hbuf))
      · exact .inl (.inr ⟨call, List.mem_append_left _ hcall, hp⟩)
      · rcases List.mem_cons.mp hb with rfl | hb
        · exact .inl (hstep (.inr hadd))
        · exact .inr ⟨b, hb, hadd⟩
  exact hfold (m, []) (h.imp_left .inl)

theorem accounted_flushAll {m : MemTable} {order : List Bytes} {tag : Bytes} {p : DataPoint}
    (h : m.Buffered tag p) : Accounted (m.flushAll order) tag p :=
  accounted_sequence (fun _ _ _ => False)
    (fun _ _ _ _ h => accounted_flushTag (h.resolve_right id)) (.inl h)

theorem accounted_addAll {m : MemTable} {points : List (Bytes × DataPoint)} {tag : Bytes}
    {p : DataPoint} (h : m.Buffered tag p ∨ (tag, p) ∈ points) :
    Accounted (m.addAll points) tag p := by
  refine accounted_sequence (fun a tag p => a = (tag, p)) ?_
    (h.imp_right fun h => ⟨_, h, rfl⟩)
  rintro m a tag p (h | rfl)
  · exact accounted_add (.inl h)
  · exact accounted_add (.inr ⟨rfl, rfl⟩)

/-! ## In which order they are -/

/-- The points of a tag that the calls have, one call after the other, and those in its buffer. -/
def pointsOf (tag : Bytes) (s : MemTable × List FlushCall) : List DataPoint :=
  (s.2.filter fun call => call.tag = tag).flatMap FlushCall.points ++ (s.1.buffer tag).points

theorem pointsOf_flushBuffer (m : MemTable) (tag other : Bytes) :
    pointsOf other (m.flushBuffer tag (m.buffer tag)) = (m.buffer other).points := by
  unfold MemTable.flushBuffer
  split
  case isTrue => rfl
  case isFalse =>
    unfold pointsOf
    dsimp only
    rw [buffer_setBuffer]
    by_cases h : other = tag
    · rw [h, List.filter_cons_of_pos (by simp), if_pos rfl]
      simp
    · rw [List.filter_cons_of_neg (by simpa using Ne.symm h), if_neg h]
      rfl

theorem pointsOf_add (m : MemTable) (tag : Bytes) (point : DataPoint) (other : Bytes) :
    pointsOf other (m.add tag point)
      = (m.buffer other).points ++ if other = tag then [point] else [] := by
  rw [MemTable.add]
  set buf : TagBuffer :=
    { points := (m.buffer tag).points ++ [point], estimatedBytes := _ } with hbuf
  have hset : (m.setBuffer tag buf).buffer tag = buf := by rw [buffer_setBuffer, if_pos rfl]
  have hpoints : ((m.setBuffer tag buf).buffer other).points
      = (m.buffer other).points ++ if other = tag then [point] else [] := by
    rw [buffer_setBuffer]
    by_cases h : other = tag
    · rw [if_pos h, if_pos h, h]
    · rw [if_neg h, if_neg h, List.append_nil]
  unfold MemTable.checkFlush
  split
  case isTrue =>
    rw [← hpoints, ← pointsOf_flushBuffer (m.setBuffer tag buf) tag other, hset]
  case isFalse => exact hpoints

theorem pointsOf_flushTag (m : MemTable) (tag other : Bytes) :
    pointsOf other (m.flushTag tag) = (m.buffer other).points := by
  unfold MemTable.flushTag
  cases hlookup : m.buffers.lookup tag with
  | none => rfl
  | some buf =>
    have hbuf : m.buffer tag = buf := by rw [MemTable.buffer, hlookup, Option.getD_some]
    rw [← hbuf]
    exact pointsOf_flushBuffer m tag other

/-- Adding a point leaves the buffers of other tags alone, and makes no call for them. -/
theorem add_frame (m : MemTable) (tag : Bytes) (point : DataPoint) :
    (∀ other ≠ tag, (m.add tag point).1.buffer other = m.buffer other) ∧
      ∀ call ∈ (m.add tag point).2, call.tag = tag := by
  unfold MemTable.add MemTable.checkFlush MemTable.flushBuffer
  dsimp only
  split
  · split
    · exact ⟨fun other hne => by rw [buffer_setBuffer, if_neg hne], fun call hcall => nomatch hcall⟩
    · refine ⟨fun other hne => ?_, fun call hcall => by rw [List.mem_singleton.mp hcall]⟩
      rw [buffer_setBuffer, if_neg hne, buffer_setBuffer, if_neg hne]
  · exact ⟨fun other hne => by rw [buffer_setBuffer, if_neg hne], fun call hcall => nomatch hcall⟩

/-- **Emptying the buffers leaves the points in order.** -/
theorem pointsOf_flushAll (m : MemTable) (order : List Bytes) (tag : Bytes) :
    pointsOf tag (m.flushAll order) = (m.buffer tag).points := by
  apply MemTable.sequence_invariant fun s => pointsOf tag s = (m.buffer tag).points
  · rfl
  · intro s a hs
    have hflush := pointsOf_flushTag s.1 a tag
    unfold pointsOf at hs hflush ⊢
    rw [List.filter_append, List.flatMap_append, List.append_assoc, hflush, hs]

/-- No call is made for nothing. -/
theorem nonempty_flushBuffer {m : MemTable} {tag : Bytes} {buf : TagBuffer} :
    ∀ call ∈ (m.flushBuffer tag buf).2, call.points ≠ [] := by
  intro call hcall
  unfold MemTable.flushBuffer at hcall
  split at hcall
  case isTrue => cases hcall
  case isFalse hne =>
    rw [List.mem_singleton.mp hcall]
    exact fun hnil => hne (List.isEmpty_iff.mpr hnil)

theorem nonempty_add {m : MemTable} {tag : Bytes} {point : DataPoint} :
    ∀ call ∈ (m.add tag point).2, call.points ≠ [] := by
  intro call hcall
  unfold MemTable.add MemTable.checkFlush at hcall
  dsimp only at hcall
  split at hcall
  · exact nonempty_flushBuffer call hcall
  · cases hcall

theorem nonempty_flushAll {m : MemTable} {order : List Bytes} :
    ∀ call ∈ (m.flushAll order).2, call.points ≠ [] := by
  have hflush : ∀ (m : MemTable) (tag : Bytes), ∀ call ∈ (m.flushTag tag).2, call.points ≠ [] := by
    intro m tag call hcall
    unfold MemTable.flushTag at hcall
    split at hcall
    · cases hcall
    · exact nonempty_flushBuffer call hcall
  apply MemTable.sequence_invariant fun s => ∀ call ∈ s.2, call.points ≠ []
  · exact fun call hcall => nomatch hcall
  · intro s a hs call hcall
    rcases List.mem_append.mp hcall with hcall | hcall
    · exact hs call hcall
    · exact hflush s.1 a call hcall

theorem nonempty_addAll {m : MemTable} {points : List (Bytes × DataPoint)} :
    ∀ call ∈ (m.addAll points).2, call.points ≠ [] := by
  apply MemTable.sequence_invariant fun s => ∀ call ∈ s.2, call.points ≠ []
  · exact fun call hcall => nomatch hcall
  · intro s a hs call hcall
    rcases List.mem_append.mp hcall with hcall | hcall
    · exact hs call hcall
    · exact nonempty_add call hcall

/-- Where a tag has no points, its buffer is empty and no call is made for it. -/
theorem quiet_of_pointsOf {s : MemTable × List FlushCall} {tag : Bytes}
    (hne : ∀ call ∈ s.2, call.points ≠ []) (h : pointsOf tag s = []) :
    (s.1.buffer tag).points = [] ∧ ∀ call ∈ s.2, call.tag ≠ tag := by
  rw [pointsOf, List.append_eq_nil_iff, List.flatMap_eq_nil_iff] at h
  refine ⟨h.2, ?_⟩
  intro call hcall htag
  exact hne call hcall (h.1 call (List.mem_filter.mpr ⟨hcall, decide_eq_true htag⟩))

/-! ## Whole runs -/

theorem MemTable.sequence_nil {α : Type} (op : MemTable → α → MemTable × List FlushCall)
    (m : MemTable) : m.sequence op [] = (m, []) := rfl

theorem MemTable.sequence_concat {α : Type} (op : MemTable → α → MemTable × List FlushCall)
    (m : MemTable) (as : List α) (a : α) :
    m.sequence op (as ++ [a]) = ((op (m.sequence op as).1 a).1,
      (m.sequence op as).2 ++ (op (m.sequence op as).1 a).2) :=
  foldl_concat _ _ as a

theorem MemTable.sequence_append {α : Type} (op : MemTable → α → MemTable × List FlushCall)
    (m : MemTable) (as bs : List α) :
    m.sequence op (as ++ bs) = (((m.sequence op as).1.sequence op bs).1,
      (m.sequence op as).2 ++ ((m.sequence op as).1.sequence op bs).2) := by
  induction bs using List.reverseRecOn with
  | nil => rw [List.append_nil, sequence_nil, List.append_nil]
  | append_singleton bs b ih =>
    rw [← List.append_assoc, sequence_concat, sequence_concat, ih, List.append_assoc]

/-- The points of a list of pairs that are for a tag. -/
def forTag (tag : Bytes) (points : List (Bytes × DataPoint)) : List DataPoint :=
  (points.filter fun e => e.1 = tag).map Prod.snd

/-- The points of a batch in order, each with its tag. -/
def batchPoints (batches : List DataBatch) : List (Bytes × DataPoint) :=
  batches.flatMap fun batch => batch.points.map fun point => (batch.tagName, point)

/-- **A batch is its points, added one after the other**: the same table, the same calls. -/
theorem addBatch_eq_addAll (m : MemTable) (batches : List DataBatch) :
    m.addBatch batches = m.addAll (batchPoints batches) := by
  have hone : ∀ (m : MemTable) (batch : DataBatch),
      m.sequence (MemTable.addBatchPoint batch.tagName) batch.points
        = m.addAll (batch.points.map fun point => (batch.tagName, point)) := by
    intro m batch
    rw [MemTable.addAll, MemTable.sequence, MemTable.sequence, List.foldl_map]
    rfl
  induction batches using List.reverseRecOn with
  | nil => rfl
  | append_singleton batches batch ih =>
    rw [MemTable.addBatch] at ih ⊢
    have hpoints : batchPoints (batches ++ [batch])
        = batchPoints batches ++ batch.points.map fun point => (batch.tagName, point) := by
      simp [batchPoints]
    rw [MemTable.sequence_concat, ih, hone, hpoints]
    exact (MemTable.sequence_append _ m _ _).symm

/-- What is called for later is behind what was called for. -/
theorem pointsOf_calls (tag : Bytes) (calls : List FlushCall) (s : MemTable × List FlushCall) :
    pointsOf tag (s.1, calls ++ s.2)
      = (calls.filter fun call => call.tag = tag).flatMap FlushCall.points ++ pointsOf tag s := by
  rw [pointsOf, pointsOf, List.filter_append, List.flatMap_append, List.append_assoc]

/-- An operation that adds points to what a tag has, after any others. -/
theorem pointsOf_step {tag : Bytes} {s next : MemTable × List FlushCall} {added : List DataPoint}
    (h : pointsOf tag next = (s.1.buffer tag).points ++ added) :
    pointsOf tag (next.1, s.2 ++ next.2) = pointsOf tag s ++ added := by
  rw [pointsOf_calls, h, ← List.append_assoc, pointsOf]

theorem pointsOf_addAll (m : MemTable) (points : List (Bytes × DataPoint)) (tag : Bytes) :
    pointsOf tag (m.addAll points) = (m.buffer tag).points ++ forTag tag points := by
  induction points using List.reverseRecOn with
  | nil => simp [MemTable.addAll, MemTable.sequence_nil, pointsOf, forTag]
  | append_singleton points e ih =>
    have hadd := pointsOf_add (m.addAll points).1 e.1 e.2 tag
    have hlast : forTag tag [e] = if tag = e.1 then [e.2] else [] := by
      by_cases h : e.1 = tag
      · simp [forTag, h]
      · simp [forTag, h, Ne.symm h]
    rw [← hlast] at hadd
    have hpoints : forTag tag (points ++ [e]) = forTag tag points ++ forTag tag [e] := by
      simp [forTag]
    rw [MemTable.addAll, MemTable.sequence_concat, hpoints, ← List.append_assoc, ← ih]
    exact pointsOf_step hadd

/-- Points of other tags change nothing for a tag. -/
theorem pointsOf_addAll_of_ne {m : MemTable} {points : List (Bytes × DataPoint)} {tag : Bytes}
    (h : ∀ e ∈ points, e.1 ≠ tag) : pointsOf tag (m.addAll points) = (m.buffer tag).points := by
  have hnone : forTag tag points = [] := by
    simpa [forTag] using h
  rw [pointsOf_addAll, hnone, List.append_nil]

/-- The operations of a table with a callback. `FlushAll` goes through the tags in the order of the
unordered map. -/
inductive MemTableOp
  | add (tag : Bytes) (point : DataPoint)
  | addBatch (batches : List DataBatch)
  | flushTag (tag : Bytes)
  | flushAll (order : List Bytes)
  deriving DecidableEq, Repr

def MemTable.apply (m : MemTable) : MemTableOp → MemTable × List FlushCall
  | .add tag point => m.add tag point
  | .addBatch batches => m.addBatch batches
  | .flushTag tag => m.flushTag tag
  | .flushAll order => m.flushAll order

/-- The points an operation adds for a tag. -/
def MemTableOp.added (tag : Bytes) : MemTableOp → List DataPoint
  | .add other point => forTag tag [(other, point)]
  | .addBatch batches => forTag tag (batchPoints batches)
  | _ => []

theorem pointsOf_apply (m : MemTable) (op : MemTableOp) (tag : Bytes) :
    pointsOf tag (m.apply op) = (m.buffer tag).points ++ op.added tag := by
  cases op with
  | add other point => exact pointsOf_addAll m [(other, point)] tag
  | addBatch batches =>
    rw [MemTable.apply, addBatch_eq_addAll, pointsOf_addAll]
    rfl
  | flushTag other =>
    rw [MemTable.apply, pointsOf_flushTag]
    exact (List.append_nil _).symm
  | flushAll order =>
    rw [MemTable.apply, pointsOf_flushAll]
    exact (List.append_nil _).symm

/-- The buffer's bytes are those of its points, and too few to be flushed. -/
def TagBuffer.Counts (threshold perPoint : Nat) (buf : TagBuffer) : Prop :=
  buf.estimatedBytes = buf.points.length * perPoint ∧ buf.estimatedBytes < threshold

/-- A table of this threshold and this size of a point, all of whose buffers count. -/
structure MemTable.Counted (threshold size : Nat) (m : MemTable) : Prop where
  threshold_eq : m.flushThreshold = threshold
  size_eq : m.sizeofDataPoint = size
  counts : ∀ tag, (m.buffer tag).Counts threshold (size + tag.length)

section Counted
variable {threshold size : Nat} {m : MemTable}

theorem counted_start (hpos : 0 < threshold) :
    MemTable.Counted threshold size { flushThreshold := threshold, sizeofDataPoint := size } :=
  ⟨rfl, rfl, fun _ => ⟨(Nat.zero_mul _).symm, hpos⟩⟩

theorem counted_setBuffer (h : m.Counted threshold size) {tag : Bytes} {buf : TagBuffer}
    (hbuf : buf.Counts threshold (size + tag.length)) :
    (m.setBuffer tag buf).Counted threshold size := by
  refine ⟨h.threshold_eq, h.size_eq, ?_⟩
  intro other
  rw [buffer_setBuffer]
  by_cases hother : other = tag
  · rw [if_pos hother, hother]
    exact hbuf
  · rw [if_neg hother]
    exact h.counts other

theorem counted_flushBuffer (hpos : 0 < threshold) (h : m.Counted threshold size) (tag : Bytes)
    (buf : TagBuffer) : (m.flushBuffer tag buf).1.Counted threshold size := by
  unfold MemTable.flushBuffer
  split
  · exact h
  · exact counted_setBuffer h ⟨(Nat.zero_mul _).symm, hpos⟩

/-- The new point is counted, and where the count has got to the threshold, the buffer is emptied. -/
theorem counted_add (hpos : 0 < threshold) (h : m.Counted threshold size) (tag : Bytes)
    (point : DataPoint) : (m.add tag point).1.Counted threshold size := by
  obtain ⟨hbytes, -⟩ := h.counts tag
  unfold MemTable.add MemTable.checkFlush MemTable.flushBuffer
  dsimp only
  split
  · -- emptied: what the buffer held in between does not show
    rw [if_neg (by simp)]
    refine ⟨h.threshold_eq, h.size_eq, ?_⟩
    intro other
    rw [buffer_setBuffer]
    by_cases hother : other = tag
    · rw [if_pos hother]
      exact ⟨(Nat.zero_mul _).symm, hpos⟩
    · rw [if_neg hother, buffer_setBuffer, if_neg hother]
      exact h.counts other
  · rename_i hroom
    refine counted_setBuffer h ⟨?_, ?_⟩
    · rw [hbytes, h.size_eq, List.length_append, List.length_singleton, Nat.add_mul, Nat.one_mul]
    · rw [← h.threshold_eq]
      exact Nat.not_le.mp hroom

theorem counted_flushTag (hpos : 0 < threshold) (h : m.Counted threshold size) (tag : Bytes) :
    (m.flushTag tag).1.Counted threshold size := by
  unfold MemTable.flushTag
  cases m.buffers.lookup tag with
  | none => exact h
  | some buf => exact counted_flushBuffer hpos h tag buf

theorem counted_apply (hpos : 0 < threshold) (h : m.Counted threshold size) (op : MemTableOp) :
    (m.apply op).1.Counted threshold size := by
  cases op with
  | add tag point => exact counted_add hpos h tag point
  | addBatch batches =>
    rw [MemTable.apply, addBatch_eq_addAll]
    apply MemTable.sequence_invariant fun s => s.1.Counted threshold size
    · exact h
    · intro s e hs
      exact counted_add hpos hs e.1 e.2
  | flushTag tag => exact counted_flushTag hpos h tag
  | flushAll order =>
    apply MemTable.sequence_invariant fun s => s.1.Counted threshold size
    · exact h
    · intro s tag hs
      exact counted_flushTag hpos hs tag

end Counted

def MemTable.run (m : MemTable) (ops : List MemTableOp) : MemTable × List FlushCall :=
  m.sequence MemTable.apply ops

theorem pointsOf_run (m : MemTable) (ops : List MemTableOp) (tag : Bytes) :
    pointsOf tag (m.run ops)
      = (m.buffer tag).points ++ ops.flatMap (MemTableOp.added tag) := by
  induction ops using List.reverseRecOn with
  | nil => simp [MemTable.run, MemTable.sequence_nil, pointsOf]
  | append_singleton ops op ih =>
    rw [MemTable.run, MemTable.sequence_concat, List.flatMap_append, List.flatMap_singleton,
      ← List.append_assoc, ← ih]
    exact pointsOf_step (pointsOf_apply (m.run ops).1 op tag)

/-- **The table conserves points.** In every run of a new table the lists delivered for a tag and its
buffer are the points added for the tag, in order; the buffer's bytes are those of its points and
below the threshold; and a batch is the same as its points one after the other. -/
theorem run_conserves {threshold : Nat} (hpos : 0 < threshold) (size : Nat) (ops : List MemTableOp)
    (tag : Bytes) (batches : List DataBatch) :
    let start : MemTable := { flushThreshold := threshold, sizeofDataPoint := size }
    let s := start.run ops
    let buf := s.1.buffer tag
    (s.2.filter fun call => call.tag = tag).flatMap FlushCall.points ++ buf.points
        = ops.flatMap (MemTableOp.added tag) ∧
      buf.estimatedBytes = buf.points.length * (size + tag.length) ∧
      buf.estimatedBytes < threshold ∧
      s.1.addBatch batches = s.1.addAll (batchPoints batches) := by
  intro start s buf
  have hcounted : s.1.Counted threshold size := by
    apply MemTable.sequence_invariant fun s => s.1.Counted threshold size
    · exact counted_start hpos
    · intro s op hs
      exact counted_apply hpos hs op
  have hpoints := pointsOf_run start ops tag
  obtain ⟨hbytes, hlt⟩ := hcounted.counts tag
  exact ⟨hpoints, hbytes, hlt, addBatch_eq_addAll s.1 batches⟩

/-- Two tags and a threshold of two points: the batch's first point fills the buffer of its tag. -/
def pairRun : MemTable × List FlushCall :=
  MemTable.run { flushThreshold := 80, sizeofDataPoint := 40 }
    [.add (ascii "a") ⟨1, .double 0⟩, .add (ascii "b") ⟨2, .double 0⟩,
      .addBatch [⟨ascii "a", [⟨3, .double 0⟩, ⟨4, .double 0⟩]⟩]]

theorem run_conserves_pair :
    (pairRun.2.filter fun call => call.tag = ascii "a").flatMap FlushCall.points
        ++ (pairRun.1.buffer (ascii "a")).points
      = [⟨1, .double 0⟩, ⟨3, .double 0⟩, ⟨4, .double 0⟩] :=
  (run_conserves (by decide) 40 _ (ascii "a") []).1

end Storage
end MiniTSDB
