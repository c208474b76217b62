import MiniTSDB.Alarm.Triggers

/-!
# How often a rule gives an alarm, and when it first does

A rule should give no two alarms within a minute and its first one as soon as its condition holds.
Timestamps are microseconds, and the distance that `Evaluate` asks for is 60000 of them; and the
time of the last alarm is kept under the name of the rule when the rule goes, so that a new one of
that name starts with it.
-/

namespace MiniTSDB
namespace Alarm

open Lib Sql

/-! ## Runs -/

inductive AlarmCall
  | addRule (rule : AlarmRule)
  | removeRule (name : Bytes)
  | removeRulesByTag (tag : Bytes)
  | alterRule (name property value : Bytes)
  | evaluate (tag : Bytes) (point : DataPoint)
  deriving DecidableEq, Repr

section
variable (stod : Bytes → Option UInt64)

/-- One call, and what it hands to the callback. -/
def AlarmEngine.step (e : AlarmEngine) : AlarmCall → AlarmEngine × List AlarmEvent
  | .addRule rule => ((e.addRule stod rule).2, [])
  | .removeRule name => ((e.removeRule name).2, [])
  | .removeRulesByTag tag => ((e.removeRulesByTag tag).2, [])
  | .alterRule name property value => ((e.alterRule stod name property value).2, [])
  | .evaluate tag point => e.evaluate tag point

/-- The engine, and everything handed over so far. -/
def record (s : AlarmEngine × List AlarmEvent) (c : AlarmCall) : AlarmEngine × List AlarmEvent :=
  ((s.1.step stod c).1, s.2 ++ (s.1.step stod c).2)

def runFrom (e : AlarmEngine) (calls : List AlarmCall) : AlarmEngine × List AlarmEvent :=
  calls.foldl (record stod) (e, [])

/-- After a run from the constructor, `rule` is added, and in the calls `life` it is not removed. -/
structure Life (before : List AlarmCall) (rule : AlarmRule) (life : List AlarmCall) : Prop where
  added : ((runFrom stod {} before).1.addRule stod rule).1 = true
  stays : ∀ c ∈ life, c ≠ .removeRule rule.name ∧ c ≠ .removeRulesByTag rule.tagName

/-- The engine when the rule has been added. -/
def born (before : List AlarmCall) (rule : AlarmRule) : AlarmEngine :=
  ((runFrom stod {} before).1.addRule stod rule).2

end

/-- The rule of the name is on the tag of the point, and the point satisfies its condition. -/
def AlarmEngine.Wants (e : AlarmEngine) (name tag : Bytes) (point : DataPoint) : Prop :=
  ∃ r ∈ e.rules, r.name = name ∧ ∃ value, r.Satisfied tag point value

/-- The rule of the name is there, on the tag. -/
def AlarmEngine.Alive (e : AlarmEngine) (name tag : Bytes) : Prop :=
  ∃ r ∈ e.rules, r.name = name ∧ r.tagName = tag

section
variable {stod : Bytes → Option UInt64}

theorem record_eq (e : AlarmEngine) (log : List AlarmEvent) (calls : List AlarmCall) :
    calls.foldl (record stod) (e, log)
      = ((runFrom stod e calls).1, log ++ (runFrom stod e calls).2) := by
  induction calls using List.reverseRecOn with
  | nil => rw [runFrom, List.foldl_nil, List.foldl_nil, List.append_nil]
  | append_singleton calls c ih =>
    rw [runFrom, foldl_concat, foldl_concat, ih, ← runFrom]
    unfold record
    rw [List.append_assoc]

theorem runFrom_append (e : AlarmEngine) (calls more : List AlarmCall) :
    runFrom stod e (calls ++ more)
      = ((runFrom stod (runFrom stod e calls).1 more).1,
        (runFrom stod e calls).2 ++ (runFrom stod (runFrom stod e calls).1 more).2) := by
  rw [runFrom, List.foldl_append, ← runFrom, ← record_eq]

/-- The rule of a name is one. -/
theorem eq_of_name {e : AlarmEngine} {r r' : AlarmRule} (hr : r ∈ e.rules) (hr' : r' ∈ e.rules)
    (h : r.name = r'.name) : r = r' :=
  List.inj_on_of_nodup_map e.distinct hr hr' h

/-! ## A rule that is not removed -/

theorem mem_addRule {e : AlarmEngine} {rule r : AlarmRule} (h : r ∈ e.rules) :
    r ∈ (e.addRule stod rule).2.rules := by
  unfold AlarmEngine.addRule
  split
  · exact h
  · exact List.mem_append_left _ h

theorem AlarmEngine.Alive.step {e : AlarmEngine} {name tag : Bytes} (h : e.Alive name tag)
    {c : AlarmCall} (hname : c ≠ .removeRule name) (htag : c ≠ .removeRulesByTag tag) :
    (e.step stod c).1.Alive name tag := by
  obtain ⟨r, hr, hrname, hrtag⟩ := h
  cases c with
  | addRule rule => exact ⟨r, mem_addRule hr, hrname, hrtag⟩
  | removeRule other =>
    refine ⟨r, List.mem_filter.mpr ⟨hr, ?_⟩, hrname, hrtag⟩
    have hne : r.name ≠ other := fun heq => hname (by rw [← heq, hrname])
    simp [hne]
  | removeRulesByTag other =>
    refine ⟨r, List.mem_filter.mpr ⟨hr, ?_⟩, hrname, hrtag⟩
    have hne : r.tagName ≠ other := fun heq => htag (by rw [← heq, hrtag])
    simp [hne]
  | alterRule other property value =>
    have hmem : (name, tag) ∈ e.rules.map fun r => (r.name, r.tagName) :=
      List.mem_map.mpr ⟨r, hr, by rw [hrname, hrtag]⟩
    rw [← alterRule_keeps stod other property value] at hmem
    obtain ⟨r', hr', heq⟩ := List.mem_map.mp hmem
    cases heq
    exact ⟨r', hr', rfl, rfl⟩
  | evaluate other point =>
    refine ⟨r, ?_, hrname, hrtag⟩
    show r ∈ (e.evaluate other point).1.rules
    rwa [rules_evaluate]

/-- Only `Evaluate` does something for a name. -/
theorem step_of_not_evaluate (stod : Bytes → Option UInt64) (e : AlarmEngine) {c : AlarmCall}
    (h : ∀ tag point, c ≠ .evaluate tag point) :
    (e.step stod c).1.lastTriggerTime = e.lastTriggerTime ∧ (e.step stod c).2 = [] := by
  cases c with
  | addRule rule =>
    refine ⟨?_, rfl⟩
    show (e.addRule stod rule).2.lastTriggerTime = _
    unfold AlarmEngine.addRule
    split <;> rfl
  | removeRule name => exact ⟨rfl, rfl⟩
  | removeRulesByTag tag => exact ⟨rfl, rfl⟩
  | alterRule name property value => exact ⟨rfl, rfl⟩
  | evaluate tag point => exact absurd rfl (h tag point)

/-! ## The times and the events -/

/-- The time of the last event. -/
def lastTime (events : List AlarmEvent) : Option Timestamp :=
  (events.getLast?).map AlarmEvent.ts

theorem lastTime_append (events : List AlarmEvent) (event : AlarmEvent) :
    lastTime (events ++ [event]) = some event.ts := by
  rw [lastTime, List.getLast?_concat, Option.map_some]

/-- **A name's time is that of the last event under the name**, and the one it had at the start
if there is none. -/
theorem lookup_run (e : AlarmEngine) (calls : List AlarmCall) (name : Bytes) :
    (runFrom stod e calls).1.lastTriggerTime.lookup name
      = (lastTime (eventsOf name (runFrom stod e calls).2)).or (e.lastTriggerTime.lookup name) := by
  induction calls using List.reverseRecOn with
  | nil => rfl
  | append_singleton calls c ih =>
    rw [runFrom, foldl_concat, ← runFrom]
    show ((runFrom stod e calls).1.step stod c).1.lastTriggerTime.lookup name
      = (lastTime (eventsOf name (_ ++ _))).or _
    rw [eventsOf_append]
    by_cases hevaluate : ∃ tag point, c = .evaluate tag point
    · obtain ⟨tag, point, rfl⟩ := hevaluate
      show ((runFrom stod e calls).1.evaluate tag point).1.lastTriggerTime.lookup name
        = (lastTime (_ ++ eventsOf name ((runFrom stod e calls).1.evaluate tag point).2)).or _
      by_cases hmem : ∃ r ∈ (runFrom stod e calls).1.rules, r.name = name
      · obtain ⟨r, hr, rfl⟩ := hmem
        rcases evaluate_of_mem _ tag point hr with ⟨value, hfires⟩ | ⟨-, hrests⟩
        · rw [hfires.lookup, hfires.events, lastTime_append]
          rfl
        · rw [hrests.lookup, hrests.events, List.append_nil, ih]
      · have hrests := rests_of_not_mem _ tag point fun r hr hname => hmem ⟨r, hr, hname⟩
        rw [hrests.lookup, hrests.events, List.append_nil, ih]
    · obtain ⟨htimes, hevents⟩ := step_of_not_evaluate stod (runFrom stod e calls).1
        fun tag point heq => hevaluate ⟨tag, point, heq⟩
      rw [htimes, hevents, ih]
      show _ = (lastTime (_ ++ [])).or _
      rw [List.append_nil]

/-- **The engine keeps the first 10000 events of the run.** -/
theorem events_run (calls : List AlarmCall) :
    (runFrom stod {} calls).1.events = (runFrom stod {} calls).2.take 10000 := by
  induction calls using List.reverseRecOn with
  | nil => rfl
  | append_singleton calls c ih =>
    rw [runFrom, foldl_concat, ← runFrom]
    generalize runFrom stod {} calls = s at ih ⊢
    obtain ⟨e, log⟩ := s
    show (e.step stod c).1.events = (log ++ (e.step stod c).2).take 10000
    cases c with
    | addRule rule =>
      show (e.addRule stod rule).2.events = (log ++ []).take 10000
      rw [List.append_nil, ← ih]
      unfold AlarmEngine.addRule
      split <;> rfl
    | removeRule name => exact ih.trans (congrArg _ (List.append_nil log).symm)
    | removeRulesByTag tag => exact ih.trans (congrArg _ (List.append_nil log).symm)
    | alterRule name property value => exact ih.trans (congrArg _ (List.append_nil log).symm)
    | evaluate tag point => exact events_evaluate tag point ih

/-- Adding a rule sets no time. -/
theorem lookup_born (before : List AlarmCall) (rule : AlarmRule) (name : Bytes) :
    (born stod before rule).lastTriggerTime.lookup name
      = lastTime (eventsOf name (runFrom stod {} before).2) := by
  have htimes := (step_of_not_evaluate stod (runFrom stod {} before).1 (c := .addRule rule)
    fun tag point => by rintro ⟨⟩).1
  show ((runFrom stod {} before).1.step stod (.addRule rule)).1.lastTriggerTime.lookup name = _
  rw [htimes, lookup_run]
  exact Option.or_none

/-- The rule that was added is there as long as it is not removed. -/
theorem Life.alive {before : List AlarmCall} {rule : AlarmRule} {life front : List AlarmCall}
    (h : Life stod before rule life) (hfront : front <+: life) :
    (runFrom stod (born stod before rule) front).1.Alive rule.name rule.tagName := by
  induction front using List.reverseRecOn with
  | nil =>
    show (born stod before rule).Alive rule.name rule.tagName
    have hadded := h.added
    unfold born
    unfold AlarmEngine.addRule at hadded ⊢
    split at hadded
    case h_1 => cases hadded
    case h_2 parsed hparsed =>
      obtain ⟨-, hname, htag⟩ := AlarmEngine.parsedRule_eq_some stod hparsed
      split
      case h_1 hnone =>
        rw [hparsed] at hnone
        cases hnone
      case h_2 parsed' hparsed' =>
        rw [hparsed] at hparsed'
        cases hparsed'
        exact ⟨parsed, List.mem_append_right _ (List.mem_singleton_self _), hname, htag⟩
  | append_singleton front c ih =>
    obtain ⟨hname, htag⟩ := h.stays c (hfront.subset (List.mem_append_right _
      (List.mem_singleton_self c)))
    rw [runFrom, foldl_concat, ← runFrom]
    exact (ih ((List.prefix_append front [c]).trans hfront)).step hname htag

/-- What the next call adds for a name: the event of its rule, or nothing. -/
theorem eventsOf_evaluate (e : AlarmEngine) (tag : Bytes) (point : DataPoint)
    {name ruleTag : Bytes} (halive : e.Alive name ruleTag) :
    (∃ event, eventsOf name (e.evaluate tag point).2 = [event] ∧ event.ts = point.ts ∧
      e.Wants name tag point ∧ e.suppressed name point.ts = false) ∨
    ((e.Wants name tag point → e.suppressed name point.ts = true) ∧
      eventsOf name (e.evaluate tag point).2 = []) := by
  obtain ⟨r, hr, rfl, -⟩ := halive
  rcases evaluate_of_mem e tag point hr with ⟨value, hfires⟩ | ⟨hnot, hrests⟩
  · exact .inl ⟨_, hfires.events, rfl, ⟨r, hr, rfl, value, hfires.satisfied⟩, hfires.free⟩
  · refine .inr ⟨?_, hrests.events⟩
    rintro ⟨r', hr', hname, value, hsat⟩
    rw [eq_of_name hr' hr hname] at hsat
    exact hnot value hsat

end

/-! ## A minute between two alarms -/

/-- A minute, in the microseconds of a timestamp. -/
def minute : Int := 60000000

/-- Any two of the events, in the order they were given in, are a minute apart. -/
def Spaced (events : List AlarmEvent) : Prop :=
  events.Pairwise fun event event' => event.ts.toInt + minute ≤ event'.ts.toInt

/-- In every life of a rule its alarms are a minute apart. -/
def RateLimited (stod : Bytes → Option UInt64) : Prop :=
  ∀ (before : List AlarmCall) (rule : AlarmRule) (life : List AlarmCall),
    Life stod before rule life →
    (∀ tag point, .evaluate tag point ∈ before ++ life →
      -2 ^ 62 < point.ts.toInt ∧ point.ts.toInt < 2 ^ 62) →
    Spaced (eventsOf rule.name (runFrom stod (born stod before rule) life).2)

/-- The call brings the rule a point that satisfies it, at least 60000 microseconds but less than a
minute behind its last alarm. -/
def TooSoon (name : Bytes) (s : AlarmEngine × List AlarmEvent) (c : AlarmCall) : Prop :=
  ∃ tag point, c = .evaluate tag point ∧ s.1.Wants name tag point ∧
    ∃ last, lastTime (eventsOf name s.2) = some last ∧
      60000 ≤ point.ts.toInt - last.toInt ∧ point.ts.toInt - last.toInt < minute

/-- One more event is as far apart from all as it is from the last. -/
theorem spaced_concat {events : List AlarmEvent} {event : AlarmEvent} (h : Spaced events) :
    Spaced (events ++ [event]) ↔
      ∀ last, lastTime events = some last → last.toInt + minute ≤ event.ts.toInt := by
  unfold Spaced at h ⊢
  rw [List.pairwise_append]
  constructor
  · rintro ⟨-, -, hall⟩ last hlast
    obtain ⟨e, he, rfl⟩ := Option.map_eq_some_iff.mp hlast
    exact hall e (List.mem_of_getLast? he) event (List.mem_singleton_self event)
  · intro hlast
    refine ⟨h, List.pairwise_singleton _ _, fun e he event' hevent' => ?_⟩
    rw [List.mem_singleton.mp hevent']
    -- The last event is behind every other one.
    obtain ⟨front, e', hsplit⟩ := (List.eq_nil_or_concat events).resolve_left
      (List.ne_nil_of_mem he)
    rw [List.concat_eq_append] at hsplit
    subst hsplit
    have hend := hlast e'.ts (lastTime_append front e')
    rcases List.mem_append.mp he with hfront | hsame
    · have hbetween := (List.pairwise_append.mp h).2.2 e hfront e' (List.mem_singleton_self e')
      have hpos : 0 < minute := by decide
      omega
    · rw [List.mem_singleton.mp hsame]
      exact hend

section
variable {stod : Bytes → Option UInt64} {before : List AlarmCall} {rule : AlarmRule}
  {life : List AlarmCall}

/-- The events of a part of the run come first. -/
theorem spaced_of_prefix {e : AlarmEngine} {front : List AlarmCall} (hfront : front <+: life)
    {name : Bytes} (h : Spaced (eventsOf name (runFrom stod e life).2)) :
    Spaced (eventsOf name (runFrom stod e front).2) := by
  obtain ⟨back, rfl⟩ := hfront
  rw [runFrom_append, eventsOf_append] at h
  exact (List.pairwise_append.mp h).1

theorem eventsOf_concat (e : AlarmEngine) (front : List AlarmCall) (c : AlarmCall) (name : Bytes) :
    eventsOf name (runFrom stod e (front ++ [c])).2
      = eventsOf name (runFrom stod e front).2
        ++ eventsOf name ((runFrom stod e front).1.step stod c).2 := by
  rw [runFrom, foldl_concat, ← runFrom]
  exact eventsOf_append _ _ _

/-- What the events of the rule come to with one more call of its life. -/
theorem Life.eventsOf_concat (h : Life stod before rule life) {front : List AlarmCall}
    {c : AlarmCall} (hfront : front ++ [c] <+: life) :
    (∃ tag point event, c = .evaluate tag point ∧ event.ts = point.ts ∧
      (runFrom stod (born stod before rule) front).1.Wants rule.name tag point ∧
      (runFrom stod (born stod before rule) front).1.suppressed rule.name point.ts = false ∧
      eventsOf rule.name (runFrom stod (born stod before rule) (front ++ [c])).2
        = eventsOf rule.name (runFrom stod (born stod before rule) front).2 ++ [event]) ∨
    ((∀ tag point, c = .evaluate tag point →
      (runFrom stod (born stod before rule) front).1.Wants rule.name tag point →
      (runFrom stod (born stod before rule) front).1.suppressed rule.name point.ts = true) ∧
      eventsOf rule.name (runFrom stod (born stod before rule) (front ++ [c])).2
        = eventsOf rule.name (runFrom stod (born stod before rule) front).2) := by
  have halive := h.alive ((List.prefix_append front [c]).trans hfront)
  rw [Alarm.eventsOf_concat]
  by_cases hevaluate : ∃ tag point, c = .evaluate tag point
  · obtain ⟨tag, point, rfl⟩ := hevaluate
    rcases eventsOf_evaluate _ tag point halive with
      ⟨event, hevents, hts, hwants, hfree⟩ | ⟨hnot, hevents⟩
    · refine .inl ⟨tag, point, event, rfl, hts, hwants, hfree, ?_⟩
      exact congrArg (_ ++ ·) hevents
    · refine .inr ⟨?_, (congrArg (_ ++ ·) hevents).trans (List.append_nil _)⟩
      rintro tag' point' heq
      cases heq
      exact hnot
  · obtain ⟨-, hevents⟩ := step_of_not_evaluate stod (runFrom stod (born stod before rule) front).1
      fun tag point heq => hevaluate ⟨tag, point, heq⟩
    rw [hevents]
    exact .inr ⟨fun tag point heq => absurd ⟨tag, point, heq⟩ hevaluate, List.append_nil _⟩

/-- The time of an event of the life is that of a point. -/
theorem Life.lastTime_mem (h : Life stod before rule life) {front : List AlarmCall}
    (hfront : front <+: life) {last : Timestamp}
    (hlast : lastTime (eventsOf rule.name (runFrom stod (born stod before rule) front).2)
      = some last) : ∃ tag point, .evaluate tag point ∈ life ∧ point.ts = last := by
  induction front using List.reverseRecOn with
  | nil => cases hlast
  | append_singleton front c ih =>
    rcases h.eventsOf_concat hfront with ⟨tag, point, event, rfl, hts, -, -, hevents⟩ | ⟨-, hevents⟩
    · rw [hevents, lastTime_append] at hlast
      refine ⟨tag, point, hfront.subset (List.mem_append_right _ (List.mem_singleton_self _)), ?_⟩
      rw [← hts]
      exact Option.some.inj hlast
    · rw [hevents] at hlast
      exact ih ((List.prefix_append front [c]).trans hfront) hlast

/-- Timestamps that are not too large are subtracted as numbers. -/
theorem suppressed_iff {e : AlarmEngine} {name : Bytes} {ts last : Timestamp}
    (hlookup : e.lastTriggerTime.lookup name = some last)
    (hts : -2 ^ 62 < ts.toInt ∧ ts.toInt < 2 ^ 62)
    (hlast : -2 ^ 62 < last.toInt ∧ last.toInt < 2 ^ 62) :
    e.suppressed name ts = true ↔ ts.toInt - last.toInt < 60000 := by
  have hsub : (ts - last).toInt = ts.toInt - last.toInt := by
    rw [Int64.toInt_sub]
    exact Int.bmod_eq_of_le (by omega) (by omega)
  rw [AlarmEngine.suppressed, hlookup, Option.any_some, decide_eq_true_iff, Int64.lt_iff_toInt_lt,
    hsub]
  rfl

/-- One more call, in the life of a rule whose alarms are a minute apart so far. -/
theorem Life.spaced_step (h : Life stod before rule life)
    (hbound : ∀ tag point, .evaluate tag point ∈ life →
      -2 ^ 62 < point.ts.toInt ∧ point.ts.toInt < 2 ^ 62) {front : List AlarmCall} {c : AlarmCall}
    (hfront : front ++ [c] <+: life)
    (hspaced : Spaced (eventsOf rule.name (runFrom stod (born stod before rule) front).2)) :
    Spaced (eventsOf rule.name (runFrom stod (born stod before rule) (front ++ [c])).2) ↔
      ¬ TooSoon rule.name (runFrom stod (born stod before rule) front) c := by
  have hstarts := (List.prefix_append front [c]).trans hfront
  -- The time that `Evaluate` looks at is that of the last alarm of this life.
  have hsuppressed : ∀ tag point last, c = .evaluate tag point →
      lastTime (eventsOf rule.name (runFrom stod (born stod before rule) front).2) = some last →
      ((runFrom stod (born stod before rule) front).1.suppressed rule.name point.ts = true ↔
        point.ts.toInt - last.toInt < 60000) := by
    rintro tag point last rfl hlast
    obtain ⟨tag', point', hin, rfl⟩ := h.lastTime_mem hstarts hlast
    refine suppressed_iff ?_ (hbound tag point (hfront.subset (List.mem_append_right _
      (List.mem_singleton_self _)))) (hbound tag' point' hin)
    rw [lookup_run, hlast]
    rfl
  rcases h.eventsOf_concat hfront with
    ⟨tag, point, event, rfl, hts, hwants, hfree, hevents⟩ | ⟨hnot, hevents⟩
  · rw [hevents, spaced_concat hspaced, hts]
    constructor
    · rintro hfar ⟨tag', point', heq, -, last, hlast, -, hnear⟩
      cases heq
      have hminute := hfar last hlast
      omega
    · intro hsoon last hlast
      by_contra hnear
      have hfar := hsuppressed tag point last rfl hlast
      rw [hfree] at hfar
      exact hsoon ⟨tag, point, rfl, hwants, last, hlast, by simpa using hfar, by omega⟩
  · rw [hevents]
    refine ⟨?_, fun _ => hspaced⟩
    rintro - ⟨tag, point, rfl, hwants, last, hlast, hfar, -⟩
    have hclose := (hsuppressed tag point last rfl hlast).mp (hnot tag point rfl hwants)
    omega

/-- **When the alarms of a rule are a minute apart**: if no point that satisfies it comes too soon
behind an alarm of it. -/
theorem spaced_iff (h : Life stod before rule life)
    (hbound : ∀ tag point, .evaluate tag point ∈ before ++ life →
      -2 ^ 62 < point.ts.toInt ∧ point.ts.toInt < 2 ^ 62) :
    Spaced (eventsOf rule.name (runFrom stod (born stod before rule) life).2) ↔
      ∀ front c, front ++ [c] <+: life →
        ¬ TooSoon rule.name (runFrom stod (born stod before rule) front) c := by
  have hbounded : ∀ tag point, .evaluate tag point ∈ life →
      -2 ^ 62 < point.ts.toInt ∧ point.ts.toInt < 2 ^ 62 := fun tag point hin =>
    hbound tag point (List.mem_append_right before hin)
  have hthroughout : Spaced (eventsOf rule.name (runFrom stod (born stod before rule) life).2) ↔
      ∀ front, front <+: life →
        Spaced (eventsOf rule.name (runFrom stod (born stod before rule) front).2) :=
    ⟨fun hall front hfront => spaced_of_prefix hfront hall, fun hall => hall life (List.prefix_refl _)⟩
  have hstart : Spaced (eventsOf rule.name ([] : List AlarmEvent)) := List.Pairwise.nil
  rw [hthroughout]
  refine foldl_always_iff (fun s : AlarmEngine × List AlarmEvent => Spaced (eventsOf rule.name s.2))
    (TooSoon rule.name) hstart fun front c hfront hspaced => ?_
  have hstep := h.spaced_step hbounded hfront hspaced
  rwa [runFrom, foldl_concat] at hstep

end

/-- A number that the conditions of the runs below have. -/
def stod1400 (text : Bytes) : Option UInt64 :=
  stodOf (fun num => if num = ascii "1400.0" then 0x4095e00000000000 else 0) text

def highTemp : AlarmRule where
  name := ascii "high_temp"
  tagName := ascii "BOILER-001"
  condition := ascii "value > 1400.0"
  actions := [ascii "log"]

/-- 1500 degrees. -/
def hotAt (ts : Timestamp) : AlarmCall :=
  .evaluate (ascii "BOILER-001") { ts := ts, value := .double 0x4097700000000000 }

theorem life_highTemp : Life stod1400 [] highTemp [hotAt 0, hotAt 60000] where
  added := by decide
  stays := by decide

theorem hotAt_bounded : ∀ tag point, .evaluate tag point ∈ [] ++ [hotAt 0, hotAt 60000] →
    -2 ^ 62 < point.ts.toInt ∧ point.ts.toInt < 2 ^ 62 := by
  intro tag point hin
  rcases List.mem_cons.mp hin with heq | hin
  · cases heq
    decide
  · cases List.mem_singleton.mp hin
    decide

theorem spaced_iff_highTemp :
    Spaced (eventsOf highTemp.name
        (runFrom stod1400 (born stod1400 [] highTemp) [hotAt 0, hotAt 60000]).2) ↔
      ∀ front c, front ++ [c] <+: [hotAt 0, hotAt 60000] →
        ¬ TooSoon highTemp.name (runFrom stod1400 (born stod1400 [] highTemp) front) c :=
  spaced_iff life_highTemp hotAt_bounded

/-- Two alarms with 60 milliseconds between them. -/
theorem not_rateLimited : ¬ RateLimited stod1400 := by
  intro h
  have hspaced := h [] highTemp [hotAt 0, hotAt 60000] life_highTemp hotAt_bounded
  have htwo : eventsOf highTemp.name
      (runFrom stod1400 (born stod1400 [] highTemp) [hotAt 0, hotAt 60000]).2
        = [highTemp.event (ascii "BOILER-001") 0x4097700000000000 0,
          highTemp.event (ascii "BOILER-001") 0x4097700000000000 60000] := by decide +kernel
  rw [htwo] at hspaced
  exact absurd ((List.pairwise_cons.mp hspaced).1 _ (List.mem_singleton_self _)) (by decide)

/-! ## The first alarm of a rule -/

/-- So far no point has satisfied the rule. -/
def Quiet (stod : Bytes → Option UInt64) (before : List AlarmCall) (rule : AlarmRule)
    (life : List AlarmCall) : Prop :=
  ∀ front tag point, front ++ [.evaluate tag point] <+: life →
    ¬ (runFrom stod (born stod before rule) front).1.Wants rule.name tag point

/-- The point gives an alarm of the rule. -/
def Triggers (e : AlarmEngine) (name tag : Bytes) (point : DataPoint) : Prop :=
  ∃ event ∈ (e.evaluate tag point).2, event.alarmName = name

/-- The first point that satisfies a rule gives an alarm. -/
def StartsFresh (stod : Bytes → Option UInt64) : Prop :=
  ∀ (before : List AlarmCall) (rule : AlarmRule) (life : List AlarmCall) (tag : Bytes)
    (point : DataPoint), Life stod before rule life → Quiet stod before rule life →
    (runFrom stod (born stod before rule) life).1.Wants rule.name tag point →
    Triggers (runFrom stod (born stod before rule) life).1 rule.name tag point

theorem triggers_iff_eventsOf {e : AlarmEngine} {name tag : Bytes} {point : DataPoint} :
    Triggers e name tag point ↔ eventsOf name (e.evaluate tag point).2 ≠ [] := by
  unfold Triggers eventsOf
  rw [ne_eq, List.filter_eq_nil_iff]
  simp

section
variable {stod : Bytes → Option UInt64} {before : List AlarmCall} {rule : AlarmRule}
  {life : List AlarmCall}

/-- In a quiet life there is no event. -/
theorem Life.eventsOf_quiet (h : Life stod before rule life) (hquiet : Quiet stod before rule life)
    {front : List AlarmCall} (hfront : front <+: life) :
    eventsOf rule.name (runFrom stod (born stod before rule) front).2 = [] := by
  induction front using List.reverseRecOn with
  | nil => rfl
  | append_singleton front c ih =>
    rcases h.eventsOf_concat hfront with ⟨tag, point, event, rfl, -, hwants, -⟩ | ⟨-, hevents⟩
    · exact absurd hwants (hquiet front tag point hfront)
    · rw [hevents]
      exact ih ((List.prefix_append front [c]).trans hfront)

/-- **When a new rule starts fresh**: if the last alarm that a rule of its name gave, before it was
added, is no less than 60000 microseconds back. -/
theorem triggers_iff (h : Life stod before rule life) (hquiet : Quiet stod before rule life)
    {tag : Bytes} {point : DataPoint}
    (hwants : (runFrom stod (born stod before rule) life).1.Wants rule.name tag point) :
    Triggers (runFrom stod (born stod before rule) life).1 rule.name tag point ↔
      ∀ last, lastTime (eventsOf rule.name (runFrom stod {} before).2) = some last →
        ¬ point.ts - last < 60000 := by
  have hlookup : (runFrom stod (born stod before rule) life).1.lastTriggerTime.lookup rule.name
      = lastTime (eventsOf rule.name (runFrom stod {} before).2) := by
    rw [lookup_run, h.eventsOf_quiet hquiet (List.prefix_refl _), lookup_born]
    rfl
  have hsuppressed : (runFrom stod (born stod before rule) life).1.suppressed rule.name point.ts
      = false ↔ ∀ last, lastTime (eventsOf rule.name (runFrom stod {} before).2) = some last →
        ¬ point.ts - last < 60000 := by
    rw [AlarmEngine.suppressed, hlookup]
    cases lastTime (eventsOf rule.name (runFrom stod {} before).2) with
    | none => simp
    | some last => simp
  rw [triggers_iff_eventsOf, ← hsuppressed]
  rcases eventsOf_evaluate _ tag point (h.alive (List.prefix_refl life)) with
    ⟨event, hevents, -, -, hfree⟩ | ⟨hnot, hevents⟩
  · rw [hevents, hfree]
    simp
  · rw [hevents, hnot hwants]
    simp

end

/-- The rule is added, gives an alarm and is removed. -/
def earlierRule : List AlarmCall :=
  [.addRule highTemp, hotAt 100, .removeRule (ascii "high_temp")]

/-- The rule is added again, and satisfied, and gives nothing. -/
theorem evaluate_again :
    ((runFrom stod1400 {} earlierRule).1.addRule stod1400 highTemp).1 = true ∧
      { highTemp with op := ascii ">", threshold := 0x4095e00000000000 }
        ∈ (runFrom stod1400 (born stod1400 earlierRule highTemp) []).1.rules ∧
      AlarmRule.evaluate { highTemp with op := ascii ">", threshold := 0x4095e00000000000 }
        0x4097700000000000 = true ∧
      ((runFrom stod1400 (born stod1400 earlierRule highTemp) []).1.evaluate
        (ascii "BOILER-001") { ts := 200, value := .double 0x4097700000000000 }).2 = [] := by
  decide +kernel

theorem life_again : Life stod1400 earlierRule highTemp [] where
  added := evaluate_again.1
  stays := by decide

theorem quiet_nothing (stod : Bytes → Option UInt64) (before : List AlarmCall) (rule : AlarmRule) :
    Quiet stod before rule [] := by
  intro front tag point hfront
  have hlen := hfront.length_le
  rw [List.length_append] at hlen
  exact absurd hlen (Nat.not_succ_le_zero _)

theorem wants_again : (runFrom stod1400 (born stod1400 earlierRule highTemp) []).1.Wants
    highTemp.name (ascii "BOILER-001") { ts := 200, value := .double 0x4097700000000000 } :=
  ⟨_, evaluate_again.2.1, rfl, 0x4097700000000000, rfl, rfl, evaluate_again.2.2.1⟩

theorem triggers_iff_again :
    Triggers (runFrom stod1400 (born stod1400 earlierRule highTemp) []).1 highTemp.name
        (ascii "BOILER-001") { ts := 200, value := .double 0x4097700000000000 } ↔
      ∀ last, lastTime (eventsOf highTemp.name (runFrom stod1400 {} earlierRule).2) = some last →
        ¬ (200 : Timestamp) - last < 60000 :=
  triggers_iff life_again (quiet_nothing _ _ _) wants_again

/-- A rule of the name of one that is gone, 100 microseconds behind the alarm of that. -/
theorem not_startsFresh : ¬ StartsFresh stod1400 := by
  intro h
  obtain ⟨event, hmem, -⟩ := h earlierRule highTemp [] _ _ life_again (quiet_nothing _ _ _)
    wants_again
  rw [evaluate_again.2.2.2] at hmem
  cases hmem

end Alarm
end MiniTSDB
