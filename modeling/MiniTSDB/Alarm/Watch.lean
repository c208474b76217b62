import MiniTSDB.Alarm.RateLimit

/-!
# What the alarm engine is for

A `Watch` has the rules as they were written and the alarms that were given, and nothing else: what
a condition says is read from its text, and whether an alarm of a name is too recent is seen from
the alarms. An `AlarmEngine` keeps more, an operator and a threshold with each rule and a time for
each name, and less, the first 10000 alarms. In every run it gives the alarms of the watch, has its
rules, and answers its questions (`engine_watches`).
-/

namespace MiniTSDB
namespace Alarm

open Lib Sql

/-! ## The watch -/

/-- A rule as it was written. -/
structure WatchRule where
  name : Bytes
  tagName : Bytes
  condition : Bytes
  actions : List Bytes
  deriving DecidableEq, Repr

structure Watch where
  rules : List WatchRule := []
  given : List AlarmEvent := []

/-- The rule without what was read from its condition. -/
def AlarmRule.written (r : AlarmRule) : WatchRule :=
  { name := r.name, tagName := r.tagName, condition := r.condition, actions := r.actions }

/-- `QueryEvents`. -/
def AlarmEngine.queryEvents (e : AlarmEngine) (tag : Bytes) (start stop : Timestamp) :
    List AlarmEvent :=
  e.events.filter fun event =>
    (tag.isEmpty || event.tagName = tag) && start ≤ event.ts && event.ts ≤ stop

/-- The event is one that `QueryEvents` is asked for. -/
def AlarmEvent.Within (event : AlarmEvent) (tag : Bytes) (start stop : Timestamp) : Prop :=
  (tag = [] ∨ event.tagName = tag) ∧ start ≤ event.ts ∧ event.ts ≤ stop

instance decidableWithin (event : AlarmEvent) (tag : Bytes) (start stop : Timestamp) :
    Decidable (event.Within tag start stop) :=
  inferInstanceAs
    (Decidable ((tag = [] ∨ event.tagName = tag) ∧ start ≤ event.ts ∧ event.ts ≤ stop))

theorem queried_eq (event : AlarmEvent) (tag : Bytes) (start stop : Timestamp) :
    ((tag.isEmpty || event.tagName = tag) && start ≤ event.ts && event.ts ≤ stop)
      = decide (event.Within tag start stop) := by
  rw [Bool.eq_iff_iff, decide_eq_true_iff]
  simp [AlarmEvent.Within, and_assoc]

section
variable (stod : Bytes → Option UInt64)

/-- The text is a condition, and holds of the value. -/
def HoldsOf (condition : Bytes) (value : UInt64) : Prop :=
  ∃ op threshold, parseCondition stod condition = some (op, threshold) ∧ Compares op value threshold

def Readable (condition : Bytes) : Prop := (parseCondition stod condition).isSome = true

instance decidableReadable (condition : Bytes) : Decidable (Readable stod condition) :=
  inferInstanceAs (Decidable (_ = true))

/-- What `AlterRule` makes of the rule. -/
def WatchRule.altered (r : WatchRule) (property value : Bytes) : Option WatchRule :=
  if property = ascii "condition" then
    if Readable stod value then some { r with condition := value } else none
  else if property = ascii "action" then some { r with actions := splitActions value }
  else none

/-- The last alarm of the name was given less than 60000 before. -/
def Watch.Recent (v : Watch) (name : Bytes) (ts : Timestamp) : Prop :=
  ∃ last, lastTime (eventsOf name v.given) = some last ∧ ts - last < 60000

open Classical in
/-- The alarms for a point. -/
noncomputable def Watch.alarms (v : Watch) (tag : Bytes) (point : DataPoint) : List AlarmEvent :=
  match point.value with
  | .double value =>
    (v.rules.filter fun r => r.tagName = tag ∧ HoldsOf stod r.condition value ∧
      ¬ v.Recent r.name point.ts).map fun r =>
        { alarmName := r.name, tagName := tag, value := value, ts := point.ts
          condition := r.condition }
  | .int64 _ | .string _ => []

noncomputable def Watch.step (v : Watch) : AlarmCall → Watch
  | .addRule rule =>
    if (∃ r ∈ v.rules, r.name = rule.name) ∨ ¬ Readable stod rule.condition then v
    else { v with rules := v.rules ++ [rule.written] }
  | .removeRule name => { v with rules := v.rules.filter fun r => r.name ≠ name }
  | .removeRulesByTag tag => { v with rules := v.rules.filter fun r => r.tagName ≠ tag }
  | .alterRule name property value =>
    { v with rules := v.rules.map fun r =>
        if r.name = name then (r.altered stod property value).getD r else r }
  | .evaluate tag point => { v with given := v.given ++ v.alarms stod tag point }

/-- The watch after the calls. -/
noncomputable def watch (calls : List AlarmCall) : Watch := calls.foldl (Watch.step stod) {}

/-- The engine has the rules of the watch, with what is read from their conditions, and has given
its alarms. -/
structure Tracks (s : AlarmEngine × List AlarmEvent) (v : Watch) : Prop where
  rules : v.rules = s.1.rules.map AlarmRule.written
  read : ∀ r ∈ s.1.rules, parseCondition stod r.condition = some (r.op, r.threshold)
  given : v.given = s.2
  times : ∀ name, s.1.lastTriggerTime.lookup name = lastTime (eventsOf name s.2)

end

section
variable {stod : Bytes → Option UInt64} {s : AlarmEngine × List AlarmEvent} {v : Watch}

/-! ## One call -/

theorem names_written (rules : List AlarmRule) :
    (rules.map AlarmRule.written).map WatchRule.name = rules.map AlarmRule.name := by
  rw [List.map_map]
  rfl

/-- A rule whose condition has been read says what its text says. -/
theorem evaluate_iff_holdsOf {r : AlarmRule}
    (h : parseCondition stod r.condition = some (r.op, r.threshold)) (value : UInt64) :
    r.evaluate value = true ↔ HoldsOf stod r.condition value := by
  rw [evaluate_iff]
  constructor
  · intro hcompares
    exact ⟨r.op, r.threshold, h, hcompares⟩
  · rintro ⟨op, threshold, hparse, hcompares⟩
    rw [h] at hparse
    cases hparse
    exact hcompares

theorem Tracks.suppressed_iff (h : Tracks stod s v) (name : Bytes) (ts : Timestamp) :
    s.1.suppressed name ts = true ↔ v.Recent name ts := by
  rw [AlarmEngine.suppressed, h.times, Watch.Recent, h.given]
  cases lastTime (eventsOf name s.2) with
  | none => simp
  | some last => simp

/-- The rules that an `Evaluate` gives an alarm for. -/
def AlarmEngine.due (e : AlarmEngine) (tag : Bytes) (value : UInt64) (ts : Timestamp)
    (r : AlarmRule) : Bool :=
  r.tagName = tag && r.evaluate value && !e.suppressed r.name ts

/-- **The turns of the loop do not see each other**: each is about a name of its own. -/
theorem foldl_evaluateRule_eq {e : AlarmEngine} (tag : Bytes) (value : UInt64) (ts : Timestamp)
    {rules : List AlarmRule} (hdistinct : (rules.map AlarmRule.name).Nodup)
    {s : AlarmEngine × List AlarmEvent} (hsame : ∀ r ∈ rules,
      s.1.lastTriggerTime.lookup r.name = e.lastTriggerTime.lookup r.name) :
    (rules.foldl (evaluateRule tag value ts) s).2
      = s.2 ++ (rules.filter (e.due tag value ts)).map fun r => r.event tag value ts := by
  induction rules generalizing s with
  | nil => simp
  | cons r rules ih =>
    rw [List.map_cons, List.nodup_cons] at hdistinct
    have hlater : ∀ r' ∈ rules, (evaluateRule tag value ts s r).1.lastTriggerTime.lookup r'.name
        = e.lastTriggerTime.lookup r'.name := by
      intro r' hr'
      have hne : r.name ≠ r'.name := fun heq =>
        hdistinct.1 (heq ▸ List.mem_map_of_mem hr')
      rw [(evaluateRule_other tag value ts s hne).1]
      exact hsame r' (List.mem_cons_of_mem r hr')
    have hsuppressed : s.1.suppressed r.name ts = e.suppressed r.name ts := by
      rw [AlarmEngine.suppressed, AlarmEngine.suppressed, hsame r List.mem_cons_self]
    rw [List.foldl_cons, ih hdistinct.2 hlater, evaluateRule, hsuppressed, List.filter_cons]
    by_cases hdue : e.due tag value ts r = true
    · have hfires : r.tagName = tag ∧ r.evaluate value = true ∧ e.suppressed r.name ts = false := by
        simpa [AlarmEngine.due, and_assoc] using hdue
      rw [if_pos hfires, if_pos hdue]
      simp
    · have hnot : ¬ (r.tagName = tag ∧ r.evaluate value = true ∧
          e.suppressed r.name ts = false) := by
        simpa [AlarmEngine.due, and_assoc] using hdue
      rw [if_neg hnot, if_neg hdue]

/-- What `Evaluate` hands over. -/
theorem evaluate_events (e : AlarmEngine) (tag : Bytes) (ts : Timestamp) (value : UInt64) :
    (e.evaluate tag { ts := ts, value := .double value }).2
      = (e.rules.filter (e.due tag value ts)).map fun r => r.event tag value ts := by
  show (e.rules.foldl (evaluateRule tag value ts) (e, [])).2 = _
  rw [foldl_evaluateRule_eq tag value ts e.distinct fun _ _ => rfl, List.nil_append]

open Classical in
theorem Tracks.alarms (h : Tracks stod s v) (tag : Bytes) (point : DataPoint) :
    v.alarms stod tag point = (s.1.evaluate tag point).2 := by
  obtain ⟨ts, value⟩ := point
  cases value with
  | double value =>
    rw [evaluate_events, Watch.alarms]
    dsimp only
    rw [h.rules, List.filter_map, List.map_map]
    have hdue : ∀ r ∈ s.1.rules, s.1.due tag value ts r
        = decide (r.tagName = tag ∧ HoldsOf stod r.condition value ∧ ¬ v.Recent r.name ts) := by
      intro r hr
      rw [← evaluate_iff_holdsOf (h.read r hr), ← h.suppressed_iff]
      simp [AlarmEngine.due, Bool.and_assoc]
    rw [List.filter_congr hdue]
    rfl
  | int64 i => rfl
  | string text => rfl

theorem written_alter (r : AlarmRule) (property value : Bytes) :
    (r.alter stod property value).map AlarmRule.written
      = r.written.altered stod property value := by
  unfold AlarmRule.alter WatchRule.altered
  split
  · cases hparse : parseCondition stod value with
    | none =>
      rw [if_neg (by simp [Readable, hparse])]
      rfl
    | some parsed =>
      rw [if_pos (by simp [Readable, hparse])]
      rfl
  split
  · rfl
  · rfl

/-- The rules of one name are one, so altering the first is altering all. -/
theorem written_alterRule {property value : Bytes} (name : Bytes) {rules : List AlarmRule}
    (hdistinct : (rules.map AlarmRule.name).Nodup) :
    (alterRule stod name property value rules).2.map AlarmRule.written
      = (rules.map AlarmRule.written).map fun r =>
        if r.name = name then (r.altered stod property value).getD r else r := by
  induction rules with
  | nil => rfl
  | cons r rules ih =>
    rw [List.map_cons, List.nodup_cons] at hdistinct
    rw [alterRule]
    split
    case isTrue hname =>
      have hothers : ∀ r' ∈ rules.map AlarmRule.written, (if r'.name = name then
          (r'.altered stod property value).getD r' else r') = r' := by
        intro r' hr'
        refine if_neg fun heq => hdistinct.1 ?_
        rw [hname, ← heq, ← names_written]
        exact List.mem_map_of_mem hr'
      rw [List.map_cons, List.map_cons, List.map_congr_left hothers, List.map_id',
        if_pos (show r.written.name = name from hname), ← written_alter]
      cases r.alter stod property value with
      | none => rfl
      | some r' => rfl
    case isFalse hname =>
      show r.written :: (alterRule stod name property value rules).2.map AlarmRule.written = _
      rw [ih hdistinct.2, List.map_cons, List.map_cons,
        if_neg (show ¬ r.written.name = name from hname)]

/-- When `AlterRule` says that it has altered. -/
theorem altered_alterRule {property value : Bytes} (name : Bytes) {rules : List AlarmRule}
    (hdistinct : (rules.map AlarmRule.name).Nodup) :
    (alterRule stod name property value rules).1 = true ↔ ∃ r ∈ rules.map AlarmRule.written,
      r.name = name ∧ (r.altered stod property value).isSome = true := by
  induction rules with
  | nil => simp [alterRule]
  | cons r rules ih =>
    rw [List.map_cons, List.nodup_cons] at hdistinct
    rw [alterRule, List.map_cons, List.exists_mem_cons_iff]
    split
    case isTrue hname =>
      have hothers : ¬ ∃ r' ∈ rules.map AlarmRule.written, r'.name = name ∧
          (r'.altered stod property value).isSome = true := by
        rintro ⟨r', hr', heq, -⟩
        refine hdistinct.1 ?_
        rw [hname, ← heq, ← names_written]
        exact List.mem_map_of_mem hr'
      rw [or_iff_left hothers, ← written_alter,
        and_iff_right (show r.written.name = name from hname)]
      cases r.alter stod property value with
      | none => simp
      | some r' => simp
    case isFalse hname =>
      rw [or_iff_right fun hfirst => hname hfirst.1]
      exact ih hdistinct.2

/-- What is read of an altered condition is kept with it. -/
theorem read_alterRule {name property value : Bytes} {rules : List AlarmRule}
    (h : ∀ r ∈ rules, parseCondition stod r.condition = some (r.op, r.threshold)) :
    ∀ r ∈ (alterRule stod name property value rules).2,
      parseCondition stod r.condition = some (r.op, r.threshold) := by
  induction rules with
  | nil => exact h
  | cons r rules ih =>
    have hr := h r List.mem_cons_self
    have hrules : ∀ r ∈ rules, parseCondition stod r.condition = some (r.op, r.threshold) :=
      fun r' hr' => h r' (List.mem_cons_of_mem r hr')
    rw [alterRule]
    split
    · cases halter : r.alter stod property value with
      | none => exact h
      | some r' =>
        refine List.forall_mem_cons.mpr ⟨?_, hrules⟩
        unfold AlarmRule.alter at halter
        split at halter
        · obtain ⟨parsed, hparsed, rfl⟩ := Option.map_eq_some_iff.mp halter
          exact hparsed
        split at halter
        · cases halter
          exact hr
        · cases halter
    · exact List.forall_mem_cons.mpr ⟨hr, ih hrules⟩

theorem parsedRule_iff (e : AlarmEngine) (rule : AlarmRule) :
    (∃ parsed, e.parsedRule stod rule = some parsed) ↔
      rule.name ∉ e.rules.map AlarmRule.name ∧ Readable stod rule.condition := by
  unfold AlarmEngine.parsedRule Readable
  split
  case isTrue hmem => simp [hmem]
  case isFalse hnew =>
    rw [and_iff_right hnew, Option.isSome_iff_exists]
    simp [Option.map_eq_some_iff]

/-- Adding a rule, on both sides. -/
theorem Tracks.addRule (h : Tracks stod s v) (rule : AlarmRule) :
    Tracks stod (record stod s (.addRule rule)) (v.step stod (.addRule rule)) := by
  obtain ⟨e, log⟩ := s
  have hnamed : (∃ r ∈ v.rules, r.name = rule.name) ↔ rule.name ∈ e.rules.map AlarmRule.name := by
    rw [← List.mem_map, h.rules, names_written]
  have hiff : (∃ parsed, e.parsedRule stod rule = some parsed) ↔
      rule.name ∉ e.rules.map AlarmRule.name ∧ Readable stod rule.condition := parsedRule_iff e rule
  show Tracks stod ((e.addRule stod rule).2, log ++ []) (v.step stod (.addRule rule))
  rw [List.append_nil, Watch.step]
  unfold AlarmEngine.addRule
  split
  case h_1 hnone =>
    have hrefused : (∃ r ∈ v.rules, r.name = rule.name) ∨ ¬ Readable stod rule.condition := by
      by_contra hnot
      rw [not_or, not_not, hnamed] at hnot
      obtain ⟨parsed, hparsed⟩ := hiff.mpr hnot
      rw [hnone] at hparsed
      cases hparsed
    rw [if_pos hrefused]
    exact h
  case h_2 parsed hparsed =>
    obtain ⟨hnew, hreadable⟩ := hiff.mp ⟨parsed, hparsed⟩
    have hwritten : parsed.written = rule.written ∧
        parseCondition stod parsed.condition = some (parsed.op, parsed.threshold) := by
      unfold AlarmEngine.parsedRule at hparsed
      rw [if_neg hnew] at hparsed
      obtain ⟨cond, hcond, rfl⟩ := Option.map_eq_some_iff.mp hparsed
      exact ⟨rfl, hcond⟩
    rw [if_neg (not_or.mpr ⟨mt hnamed.mp hnew, not_not.mpr hreadable⟩)]
    constructor
    case rules =>
      show v.rules ++ [rule.written] = (e.rules ++ [parsed]).map AlarmRule.written
      rw [h.rules, List.map_append, List.map_singleton, hwritten.1]
    case read =>
      intro r hr
      rcases List.mem_append.mp hr with hr | hr
      · exact h.read r hr
      · rw [List.mem_singleton.mp hr]
        exact hwritten.2
    case given => exact h.given
    case times => exact h.times

theorem Tracks.without (h : Tracks stod s v) {drop : AlarmRule → Bool} {keep : WatchRule → Bool}
    (hkeep : ∀ r : AlarmRule, keep r.written = !drop r) :
    Tracks stod (s.1.without drop, s.2 ++ []) { v with rules := v.rules.filter keep } where
  rules := by
    show v.rules.filter keep = (s.1.rules.filter fun r => !drop r).map AlarmRule.written
    rw [h.rules, List.filter_map]
    congr 1
    exact List.filter_congr fun r _ => hkeep r
  read r hr := h.read r (List.mem_of_mem_filter hr)
  given := by rw [List.append_nil]; exact h.given
  times := by rw [List.append_nil]; exact h.times

/-- **One call keeps the engine and the watch together.** -/
theorem Tracks.step (h : Tracks stod s v) (c : AlarmCall)
    (htimes : ∀ name, (record stod s c).1.lastTriggerTime.lookup name
      = lastTime (eventsOf name (record stod s c).2)) :
    Tracks stod (record stod s c) (v.step stod c) := by
  cases c with
  | addRule rule => exact h.addRule rule
  | removeRule name => exact h.without fun r => decide_not
  | removeRulesByTag tag => exact h.without fun r => decide_not
  | alterRule name property value =>
    refine ⟨?_, read_alterRule h.read, ?_, htimes⟩
    · show v.rules.map _ = (Alarm.alterRule stod name property value s.1.rules).2.map _
      rw [written_alterRule name s.1.distinct, h.rules]
    · show v.given = s.2 ++ []
      rw [List.append_nil, h.given]
  | evaluate tag point =>
    have hsame : (s.1.evaluate tag point).1.rules = s.1.rules := rules_evaluate s.1 tag point
    refine ⟨?_, fun r hr => h.read r ?_, ?_, htimes⟩
    · show v.rules = (s.1.evaluate tag point).1.rules.map AlarmRule.written
      rw [hsame, h.rules]
    · rwa [← hsame]
    · show v.given ++ v.alarms stod tag point = s.2 ++ (s.1.evaluate tag point).2
      rw [h.given, h.alarms]

/-! ## Runs -/

theorem tracks_run (stod : Bytes → Option UInt64) (calls : List AlarmCall) :
    Tracks stod (runFrom stod {} calls) (watch stod calls) := by
  have htimes : ∀ (calls : List AlarmCall) (name : Bytes),
      (runFrom stod {} calls).1.lastTriggerTime.lookup name
        = lastTime (eventsOf name (runFrom stod {} calls).2) := by
    intro calls name
    rw [lookup_run]
    exact Option.or_none
  induction calls using List.reverseRecOn with
  | nil => exact ⟨rfl, (fun r hr => nomatch hr), rfl, htimes []⟩
  | append_singleton calls c ih =>
    have hrun : runFrom stod {} (calls ++ [c]) = record stod (runFrom stod {} calls) c := by
      rw [runFrom, foldl_concat, ← runFrom]
    have hlater := htimes (calls ++ [c])
    rw [hrun] at hlater ⊢
    rw [watch, foldl_concat, ← watch]
    exact ih.step c hlater

end

/-- Whatever is asked of the engine, it answers as the watch would; of the alarms it has the first
10000. -/
structure Answers (stod : Bytes → Option UInt64) (e : AlarmEngine) (v : Watch) : Prop where
  rules : e.rules.map AlarmRule.written = v.rules
  added : ∀ rule, (e.addRule stod rule).1 = true ↔
    rule.name ∉ v.rules.map WatchRule.name ∧ Readable stod rule.condition
  removed : ∀ name, (e.removeRule name).1 = true ↔ ∃ r ∈ v.rules, r.name = name
  removedByTag : ∀ tag, (e.removeRulesByTag tag).1 = v.rules.countP fun r => r.tagName = tag
  altered : ∀ name property value, (e.alterRule stod name property value).1 = true ↔
    ∃ r ∈ v.rules, r.name = name ∧ (r.altered stod property value).isSome = true
  events : ∀ tag start stop, e.queryEvents tag start stop
    = (v.given.take 10000).filter fun event => event.Within tag start stop

theorem answers_run (stod : Bytes → Option UInt64) (calls : List AlarmCall) :
    Answers stod (runFrom stod {} calls).1 (watch stod calls) := by
  have h := tracks_run stod calls
  refine ⟨h.rules.symm, fun rule => ?_, fun name => ?_, fun tag => ?_, ?_, ?_⟩
  · rw [h.rules, names_written, ← parsedRule_iff]
    unfold AlarmEngine.addRule
    split
    case h_1 hnone => simp [hnone]
    case h_2 parsed hparsed => simp [hparsed]
  · rw [h.rules]
    simp [AlarmEngine.removeRule, AlarmRule.written]
  · rw [h.rules, List.countP_map]
    rfl
  · intro name property value
    rw [h.rules]
    exact altered_alterRule name (runFrom stod {} calls).1.distinct
  · intro tag start stop
    rw [h.given, ← events_run]
    exact List.filter_congr fun event _ => queried_eq event tag start stop

/-- **What the alarm engine is for.** In every run it gives the alarms that the rules, as they were
written, ask for in view of the alarms before, and answers for them. -/
theorem engine_watches (stod : Bytes → Option UInt64) (calls : List AlarmCall) :
    (runFrom stod {} calls).2 = (watch stod calls).given ∧
      Answers stod (runFrom stod {} calls).1 (watch stod calls) :=
  ⟨(tracks_run stod calls).given.symm, answers_run stod calls⟩

/-! ## Where an alarm comes from -/

section
variable (stod : Bytes → Option UInt64)

/-- A rule of this name was added, for this tag; and this condition was given to it then, or
later. -/
structure Ordered (log : List AlarmCall) (name tag condition : Bytes) : Prop where
  added : ∃ rule, .addRule rule ∈ log ∧ rule.name = name ∧ rule.tagName = tag
  worded : (∃ rule, .addRule rule ∈ log ∧ rule.name = name ∧ rule.condition = condition) ∨
    .alterRule name (ascii "condition") condition ∈ log

/-- The alarm is for a point that was evaluated and a rule that was ordered, and the condition
holds. -/
structure Explained (log : List AlarmCall) (event : AlarmEvent) : Prop where
  point : .evaluate event.tagName { ts := event.ts, value := .double event.value } ∈ log
  rule : Ordered log event.alarmName event.tagName event.condition
  holds : HoldsOf stod event.condition event.value

end

section
variable {stod : Bytes → Option UInt64} {log more : List AlarmCall}

theorem Ordered.mono {name tag condition : Bytes} (h : Ordered log name tag condition)
    (hsub : log ⊆ more) : Ordered more name tag condition where
  added := by
    obtain ⟨rule, hrule, hnamed⟩ := h.added
    exact ⟨rule, hsub hrule, hnamed⟩
  worded := by
    rcases h.worded with ⟨rule, hrule, hnamed⟩ | halter
    · exact .inl ⟨rule, hsub hrule, hnamed⟩
    · exact .inr (hsub halter)

theorem Explained.mono {event : AlarmEvent} (h : Explained stod log event) (hsub : log ⊆ more) :
    Explained stod more event :=
  ⟨hsub h.point, h.rule.mono hsub, h.holds⟩

/-- What altering a rule leaves of it. -/
theorem altered_eq_some {r r' : WatchRule} {property value : Bytes}
    (h : r.altered stod property value = some r') : r'.name = r.name ∧ r'.tagName = r.tagName ∧
      (r'.condition = r.condition ∨ property = ascii "condition" ∧ r'.condition = value) := by
  unfold WatchRule.altered at h
  split at h
  case isTrue hcondition =>
    split at h
    · cases h
      exact ⟨rfl, rfl, .inr ⟨hcondition, rfl⟩⟩
    · cases h
  case isFalse =>
    split at h
    · cases h
      exact ⟨rfl, rfl, .inl rfl⟩
    · cases h

/-- **Every rule in force was ordered.** -/
theorem ordered_of_mem {r : WatchRule} (h : r ∈ (watch stod log).rules) :
    Ordered log r.name r.tagName r.condition := by
  induction log using List.reverseRecOn generalizing r with
  | nil => cases h
  | append_singleton log c ih =>
    have hsub : log ⊆ log ++ [c] := List.subset_append_left _ _
    have hlast : c ∈ log ++ [c] := List.mem_concat_self
    rw [watch, foldl_concat, ← watch] at h
    cases c with
    | addRule rule =>
      rw [Watch.step] at h
      split at h
      · exact (ih h).mono hsub
      · rcases List.mem_append.mp h with h | h
        · exact (ih h).mono hsub
        · obtain rfl := List.mem_singleton.mp h
          exact ⟨⟨rule, hlast, rfl, rfl⟩, .inl ⟨rule, hlast, rfl, rfl⟩⟩
    | removeRule name => exact (ih (List.mem_of_mem_filter h)).mono hsub
    | removeRulesByTag tag => exact (ih (List.mem_of_mem_filter h)).mono hsub
    | evaluate tag point => exact (ih h).mono hsub
    | alterRule name property value =>
      obtain ⟨r₀, hr₀, heq⟩ := List.mem_map.mp h
      have hordered := (ih hr₀).mono hsub
      split at heq
      case isFalse =>
        obtain rfl := heq
        exact hordered
      case isTrue hname =>
        cases haltered : r₀.altered stod property value with
        | none =>
          rw [haltered] at heq
          obtain rfl : r₀ = r := heq
          exact hordered
        | some r' =>
          rw [haltered] at heq
          obtain rfl : r' = r := heq
          obtain ⟨hname', htag', hcondition⟩ := altered_eq_some haltered
          rw [hname', htag']
          rcases hcondition with hsame | ⟨rfl, rfl⟩
          · rw [hsame]
            exact hordered
          · exact ⟨hordered.added, .inr (by rw [hname]; exact hlast)⟩

/-- **Every alarm has its reason.** -/
theorem explained_of_mem {event : AlarmEvent} (h : event ∈ (watch stod log).given) :
    Explained stod log event := by
  induction log using List.reverseRecOn with
  | nil => cases h
  | append_singleton log c ih =>
    have hsub : log ⊆ log ++ [c] := List.subset_append_left _ _
    rw [watch, foldl_concat, ← watch] at h
    cases c with
    | addRule rule =>
      rw [Watch.step] at h
      split at h
      · exact (ih h).mono hsub
      · exact (ih h).mono hsub
    | removeRule name => exact (ih h).mono hsub
    | removeRulesByTag tag => exact (ih h).mono hsub
    | alterRule name property value => exact (ih h).mono hsub
    | evaluate tag point =>
      rcases List.mem_append.mp h with h | h
      · exact (ih h).mono hsub
      obtain ⟨ts, value⟩ := point
      cases value with
      | int64 i => cases h
      | string text => cases h
      | double value =>
        obtain ⟨r, hr, rfl⟩ := List.mem_map.mp h
        obtain ⟨hrule, hdue⟩ := List.mem_filter.mp hr
        have hdue : r.tagName = tag ∧ HoldsOf stod r.condition value ∧
            ¬ (watch stod log).Recent r.name ts := by
          simpa using hdue
        obtain ⟨rfl, hholds, -⟩ := hdue
        exact ⟨List.mem_concat_self, (ordered_of_mem hrule).mono hsub, hholds⟩

end

end Alarm
end MiniTSDB
