import MiniTSDB.Lib.Runs
import MiniTSDB.Snapshot.CrashAtomic

/-!
# Writers and the thread that saves (`SaveLoop`, `OnWrite`, `Shutdown`)

`OnWrite` puts its entry into the map and then sets `dirty_`; a save takes the flag away, then goes
over the map, then writes the file. As long as every save succeeds no entry is lost, however the
threads come in between: an entry that a save did not see is marked after the save took the flag.
A save that fails does not set the flag again, and nothing is saved until the next `OnWrite`.
-/

namespace MiniTSDB
namespace Snapshot

open Lib Os

variable {Thread : Type}

/-- Where the thread that saves is. -/
inductive Saver
  | idle
  /-- `dirty_` was set, and has been taken away. -/
  | exchanged
  /-- The message has been made. -/
  | writing (now : Int64) (order : List CachedSnapshot)

structure Store (Thread : Type) where
  map : SnapshotMap
  dirty : Bool := false
  /-- The threads in an `OnWrite` that has put its entry, and not yet set `dirty_`. -/
  marking : Thread → Bool := fun _ => false
  saver : Saver := .idle
  dir : Dir

/-- The steps: two of an `OnWrite`, and three of a save. A save ends with the file, or fails: then
it could not open the file, or it has written so many bytes. -/
inductive Label (Thread : Type)
  | put (thread : Thread) (tag : Bytes) (point : DataPoint)
  | mark (thread : Thread)
  | exchange
  | read (now : Int64) (order : List CachedSnapshot)
  | write
  | fail (written : Option Nat)

/-- A save ends here. -/
def Label.ends : Label Thread → Bool
  | .write => true
  | .fail _ => true
  | _ => false

/-- What a `SaveToFile` that returns false leaves of the directory. -/
inductive Leaves (format : SnapshotFormat) (d : Dir) (now : Int64) (order : List CachedSnapshot) :
    Option Nat → Dir → Prop
  | notOpened : Leaves format d now order none (backup d)
  | written (n : Nat) (d' : Dir) (hn : n < (format.serialize (snapshotFile now order)).length)
      (h : saveUpTo format d now order n = some d') : Leaves format d now order (some n) d'

section Step

variable [DecidableEq Thread]

/-- One step of one thread. The thread that saves is alone with the directory, so all that it does
there is told at the end of the save. -/
inductive Step (format : SnapshotFormat) (s : Store Thread) : Label Thread → Store Thread → Prop
  | put {thread : Thread} {tag : Bytes} {point : DataPoint} (h : s.marking thread = false) :
      Step format s (.put thread tag point)
        { s with
          map := s.map.onWrite tag point
          marking := Function.update s.marking thread true }
  | mark {thread : Thread} (h : s.marking thread = true) :
      Step format s (.mark thread)
        { s with dirty := true, marking := Function.update s.marking thread false }
  | exchange (h : s.saver = .idle) :
      Step format s .exchange
        { s with dirty := false, saver := if s.dirty then .exchanged else .idle }
  | read {now : Int64} {order : List CachedSnapshot} (h : s.saver = .exchanged)
      (horder : s.map.Lists order) :
      Step format s (.read now order) { s with saver := .writing now order }
  | write {now : Int64} {order : List CachedSnapshot} {d : Dir} (h : s.saver = .writing now order)
      (hsave : saveToFile format s.dir now order = (true, d)) :
      Step format s .write { s with saver := .idle, dir := d }
  | fail {now : Int64} {order : List CachedSnapshot} {written : Option Nat} {d : Dir}
      (h : s.saver = .writing now order) (hsave : Leaves format s.dir now order written d) :
      Step format s (.fail written) { s with saver := .idle, dir := d }

/-- `Shutdown` when the thread that saves has ended: it saves once more if `dirty_` is set. -/
inductive Shutdown (format : SnapshotFormat) (s : Store Thread) : Store Thread → Prop
  | clean (h : s.dirty = false) : Shutdown format s s
  | saves {now : Int64} {order : List CachedSnapshot} {s₁ s₂ s₃ : Store Thread}
      (h : s.dirty = true) (hexchange : Step format s .exchange s₁)
      (hread : Step format s₁ (.read now order) s₂) (hwrite : Step format s₂ .write s₃) :
      Shutdown format s s₃

end Step

/-- No `OnWrite` is going on, and no save. -/
structure Store.Quiet (s : Store Thread) : Prop where
  marking : ∀ thread, s.marking thread = false
  saver : s.saver = .idle

/-- The store as `Init` leaves it. -/
structure Store.Fresh (s : Store Thread) : Prop extends s.Quiet where
  dirty : s.dirty = false

/-- There has been an `OnWrite`. -/
def Wrote (labels : List (Label Thread)) : Prop :=
  ∃ thread tag point, Label.put thread tag point ∈ labels

/-- The file holds the map, and nothing else. -/
def Holds (format : SnapshotFormat) (d : Dir) (m : SnapshotMap) : Prop :=
  ∃ now order, m.Lists order ∧
    d.readFile snapshotPath = some (format.serialize (snapshotFile now order))

/-! ## One save -/

theorem Holds.of_saveToFile {format : SnapshotFormat} {d d' : Dir} {m : SnapshotMap} {now : Int64}
    {order : List CachedSnapshot} (horder : m.Lists order)
    (h : saveToFile format d now order = (true, d')) : Holds format d' m := by
  refine ⟨now, order, horder, ?_⟩
  unfold saveToFile at h
  split at h
  case h_1 d'' hsave =>
    cases h
    rw [saveUpTo, List.take_length] at hsave
    rw [Dir.create_eq_some hsave, Dir.readFile_set_file]
  case h_2 => cases h

/-- Something has been put that no save has taken. -/
def Store.Pending (s : Store Thread) : Prop := s.dirty = true ∨ ∃ thread, s.marking thread = true

theorem Store.Quiet.not_pending {s : Store Thread} (h : s.Quiet) (hclean : s.dirty = false) :
    ¬ s.Pending := by
  rintro (hdirty | ⟨thread, hthread⟩)
  · rw [hclean] at hdirty
    cases hdirty
  · rw [h.marking thread] at hthread
    cases hthread

/-- An exchange that finds the flag down changes nothing. -/
theorem exchange_clean {s : Store Thread} (hidle : s.saver = .idle) (hclean : s.dirty = false) :
    { s with dirty := false, saver := if s.dirty then Saver.exchanged else .idle } = s := by
  cases s
  cases hidle
  cases hclean
  rfl

theorem Wrote.concat {labels : List (Label Thread)} (h : Wrote labels) (a : Label Thread) :
    Wrote (labels ++ [a]) := by
  obtain ⟨thread, tag, point, hmem⟩ := h
  exact ⟨thread, tag, point, List.mem_append_left _ hmem⟩

theorem wrote_put (labels : List (Label Thread)) (thread : Thread) (tag : Bytes)
    (point : DataPoint) : Wrote (labels ++ [.put thread tag point]) :=
  ⟨thread, tag, point, List.mem_append_right _ (List.mem_singleton.mpr rfl)⟩

/-- Only a put makes the run one that has written. -/
theorem not_wrote_concat {labels : List (Label Thread)} {a : Label Thread} (h : ¬ Wrote labels)
    (ha : ∀ thread tag point, a ≠ .put thread tag point) : ¬ Wrote (labels ++ [a]) := by
  rintro ⟨thread, tag, point, hmem⟩
  rcases List.mem_append.mp hmem with hmem | hmem
  · exact h ⟨thread, tag, point, hmem⟩
  · exact ha thread tag point (List.mem_singleton.mp hmem).symm

section Runs

variable [DecidableEq Thread]

theorem pending_put (s : Store Thread) (m : SnapshotMap) (thread : Thread) :
    Store.Pending { s with map := m, marking := Function.update s.marking thread true } :=
  Or.inr ⟨thread, Function.update_self thread true s.marking⟩

variable {format : SnapshotFormat} {s₀ s t : Store Thread} {labels : List (Label Thread)}

/-- The last save that has ended in the run is one that failed, at `s₁`. -/
inductive LastFailed (format : SnapshotFormat) (s₀ : Store Thread) :
    List (Label Thread) → Store Thread → Option Nat → Store Thread → Prop
  | fail {labels : List (Label Thread)} {s s₁ : Store Thread} {written : Option Nat}
      (hrun : Run (Step format) s₀ labels s₁) (hstep : Step format s₁ (.fail written) s) :
      LastFailed format s₀ (labels ++ [.fail written]) s written s₁
  | later {labels : List (Label Thread)} {s s₁ t : Store Thread} {written : Option Nat}
      {a : Label Thread} (h : LastFailed format s₀ labels s written s₁)
      (hstep : Step format s a t) (hgoes : a.ends = false) :
      LastFailed format s₀ (labels ++ [a]) t written s₁

/-- What the file, the map, the flag and the threads have to do with each other. -/
structure Inv (format : SnapshotFormat) (s₀ : Store Thread) (labels : List (Label Thread))
    (s : Store Thread) : Prop where
  run : Run (Step format) s₀ labels s
  wrote : s.Pending ∨ s.saver ≠ .idle → Wrote labels
  writing : ∀ now order, s.saver = .writing now order → s.Pending ∨ s.map.Lists order
  untouched : ¬ Wrote labels → s.dir = s₀.dir ∧ s.map = s₀.map
  idle : s.saver = .idle → s.Pending ∨ ¬ Wrote labels ∨ Holds format s.dir s.map ∨
    ∃ written s₁, LastFailed format s₀ labels s written s₁

theorem inv_start (h : s₀.Fresh) : Inv format s₀ [] s₀ where
  run := .start
  wrote := by
    rintro (hpending | hsaver)
    · exact absurd hpending (h.toQuiet.not_pending h.dirty)
    · exact absurd h.saver hsaver
  writing := by
    intro now order hsaver
    rw [h.saver] at hsaver
    cases hsaver
  untouched := fun _ => ⟨rfl, rfl⟩
  idle := by
    intro _
    refine .inr (.inl ?_)
    rintro ⟨thread, tag, point, hmem⟩
    cases hmem

/-- **One step keeps the invariant.** -/
theorem Inv.step {a : Label Thread} (h : Inv format s₀ labels s) (hstep : Step format s a t) :
    Inv format s₀ (labels ++ [a]) t := by
  have hrun : Run (Step format) s₀ (labels ++ [a]) t := .snoc h.run hstep
  cases hstep with
  | @put thread tag point hmark =>
    -- whatever the saver does, the entry is yet to be marked
    have hpending := pending_put s (s.map.onWrite tag point) thread
    have hwrote := wrote_put labels thread tag point
    exact ⟨hrun, fun _ => hwrote, fun _ _ _ => .inl hpending, fun hnone => absurd hwrote hnone,
      fun _ => .inl hpending⟩
  | @mark thread hmark =>
    have hwrote := (h.wrote (.inl (Or.inr ⟨thread, hmark⟩))).concat (.mark thread)
    exact ⟨hrun, fun _ => hwrote, fun _ _ _ => .inl (Or.inl rfl), fun hnone => absurd hwrote hnone,
      fun _ => .inl (Or.inl rfl)⟩
  | exchange hidle =>
    cases hdirty : s.dirty with
    | true =>
      have hwrote := (h.wrote (.inl (Or.inl hdirty))).concat (.exchange : Label Thread)
      refine ⟨by rwa [hdirty] at hrun, fun _ => hwrote, ?_, fun hnone => absurd hwrote hnone, ?_⟩
      · intro now order hsaver
        cases hsaver
      · intro hsaver
        cases hsaver
    | false =>
      have hsame := exchange_clean hidle hdirty
      rw [hdirty] at hrun hsame
      rw [hsame] at hrun ⊢
      refine ⟨hrun, fun hcase => (h.wrote hcase).concat _, h.writing,
        fun hnone => h.untouched fun hwrote => hnone (hwrote.concat _), ?_⟩
      intro hsaver
      rcases h.idle hsaver with hpending | hnone | hholds | ⟨written, s₁, hfailed⟩
      · exact .inl hpending
      · exact .inr (.inl (not_wrote_concat hnone fun _ _ _ ha => nomatch ha))
      · exact .inr (.inr (.inl hholds))
      · refine .inr (.inr (.inr ⟨written, s₁, .later hfailed ?_ rfl⟩))
        have hexchange : Step format s .exchange _ := .exchange hidle
        rw [hdirty, hsame] at hexchange
        exact hexchange
  | @read now order hsaver horder =>
    have hwrote : Wrote labels := h.wrote (.inr (by rw [hsaver]; exact fun heq => nomatch heq))
    refine ⟨hrun, fun _ => hwrote.concat _, ?_, fun hnone => absurd (hwrote.concat _) hnone,
      fun hidle => nomatch hidle⟩
    intro now' order' heq
    cases heq
    exact .inr horder
  | @write now order d hsaver hsave =>
    have hwrote : Wrote labels := h.wrote (.inr (by rw [hsaver]; exact fun heq => nomatch heq))
    refine ⟨hrun, fun _ => hwrote.concat _, fun _ _ heq => (nomatch heq),
      fun hnone => absurd (hwrote.concat _) hnone, fun _ => ?_⟩
    rcases h.writing now order hsaver with hpending | horder
    · exact .inl hpending
    · exact .inr (.inr (.inl (.of_saveToFile horder hsave)))
  | @fail now order written d hsaver hleaves =>
    have hwrote : Wrote labels := h.wrote (.inr (by rw [hsaver]; exact fun heq => nomatch heq))
    refine ⟨hrun, fun _ => hwrote.concat _, fun _ _ heq => (nomatch heq),
      fun hnone => absurd (hwrote.concat _) hnone, fun _ => ?_⟩
    exact .inr (.inr (.inr ⟨written, s, .fail h.run (.fail hsaver hleaves)⟩))

theorem inv_run (hstart : s₀.Fresh) (hrun : Run (Step format) s₀ labels s) :
    Inv format s₀ labels s :=
  hrun.invariant (Inv format s₀) (inv_start hstart) fun _ _ _ _ h hstep => h.step hstep

theorem LastFailed.mem {written : Option Nat} {s₁ : Store Thread}
    (h : LastFailed format s₀ labels s written s₁) : .fail written ∈ labels := by
  induction h with
  | fail => exact List.mem_append_right _ (List.mem_singleton.mpr rfl)
  | later _ _ _ ih => exact List.mem_append_left _ ih

/-- What `Shutdown` leaves, when the save it comes to succeeds. -/
theorem Shutdown.holds (h : Shutdown format s t) (hdirty : s.dirty = true) :
    Holds format t.dir t.map := by
  cases h with
  | clean hclean =>
    rw [hclean] at hdirty
    cases hdirty
  | saves _ hexchange hread hwrite =>
    cases hexchange
    cases hread with
    | read _ horder =>
      cases hwrite with
      | write heq hsave =>
        cases heq
        exact .of_saveToFile horder hsave

theorem Shutdown.clean_eq (h : Shutdown format s t) (hclean : s.dirty = false) : t = s := by
  cases h with
  | clean => rfl
  | saves hdirty =>
    rw [hclean] at hdirty
    cases hdirty

end Runs

/-! ## One write, saved -/

def pointA : DataPoint := { ts := 1, value := .double 0 }

/-- One thread may write, and nothing has been saved. -/
def freshStore : Store Unit where
  map := .empty
  dir := .empty

theorem fresh_freshStore : freshStore.Fresh := ⟨⟨fun _ => rfl, rfl⟩, rfl⟩

/-- The write has been put, and marked. -/
def dirtyStore : Store Unit where
  map := SnapshotMap.empty.onWrite (ascii "a") pointA
  dirty := true
  marking := Function.update (Function.update (fun _ => false) () true) () false
  dir := .empty

/-- A save goes on, from there. -/
def savingStore : Store Unit where
  map := SnapshotMap.empty.onWrite (ascii "a") pointA
  marking := Function.update (Function.update (fun _ => false) () true) () false
  saver := .writing 2 [entryA 1]
  dir := .empty

theorem run_savingStore : Run (Step smallFormat) freshStore
    [.put () (ascii "a") pointA, .mark (), .exchange, .read 2 [entryA 1]] savingStore := by
  have hdirty : Run (Step smallFormat) freshStore ([] ++ [.put () (ascii "a") pointA] ++ [.mark ()])
      dirtyStore := (Run.start.snoc (.put rfl)).snoc (.mark rfl)
  exact (hdirty.snoc (.exchange rfl)).snoc (.read rfl (.refl _))

/-- The write has been saved. -/
def savedStore : Store Unit where
  map := SnapshotMap.empty.onWrite (ascii "a") pointA
  marking := Function.update (Function.update (fun _ => false) () true) () false
  dir := Dir.empty.set snapshotPath (.file (smallFormat.serialize (snapshotFile 2 [entryA 1])))

end Snapshot
end MiniTSDB
