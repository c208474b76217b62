import MiniTSDB.Alarm.Watch
import MiniTSDB.Server.WriteLog

/-!
# The alarms behind the service

What the service asks of its alarms is one list of calls: the rules of the alarm statements that it
has executed, and the points that it has written (`alarms_of_run`). So the alarms that it keeps are
those of a watch over these calls, and each of them has a write and a statement that it comes from
(`alarm_explained`). The rules of a tag are never removed with the tag.
-/

namespace MiniTSDB
namespace Server

open Lib Os Storage Sql Auth Alarm Snapshot

/-! ## What is asked of the alarms -/

/-- What an alarm statement asks of the engine. -/
def ruleCall : SQLStmt → Option AlarmCall
  | .createAlarm stmt =>
    some (.addRule { name := stmt.alarmName, tagName := stmt.tagName, condition := stmt.condition
                     actions := stmt.actions })
  | .alterAlarm stmt => some (.alterRule stmt.name stmt.property stmt.value)
  | .dropAlarm name => some (.removeRule name)
  | _ => none

/-- The point of the call, if it evaluates one. -/
def evaluated : AlarmCall → Option (Bytes × DataPoint)
  | .evaluate tag point => some (tag, point)
  | _ => none

/-- The evaluation of a write. -/
def LoggedWrite.evaluation (e : LoggedWrite) : AlarmCall := .evaluate e.tag e.point

/-- Every call evaluates a point. -/
def Evaluates (added : List AlarmCall) : Prop := ∀ c ∈ added, (evaluated c).isSome = true

theorem evaluates_nil : Evaluates [] := fun _ hc => nomatch hc

theorem Evaluates.cons {tag : Bytes} {point : DataPoint} {added : List AlarmCall}
    (h : Evaluates added) : Evaluates ([.evaluate tag point] ++ added) := by
  intro c hc
  rcases List.mem_cons.mp hc with rfl | hc
  · rfl
  · exact h c hc

variable {Loc V : Type}

/-- The alarms are what the calls make of an engine that has just been made, and the snapshot has
the last point that was evaluated of each tag. -/
structure Heard (stod : Bytes → Option UInt64) (log : List AlarmCall) (d : Data Loc) : Prop where
  alarms : d.alarms = (runFrom stod {} log).1
  snapshot : ∀ tag, d.snapshot.get tag
    = (lastWritten (log.filterMap evaluated) tag).map (.ofPoint tag)

section
variable {stod : Bytes → Option UInt64} {log : List AlarmCall} {d : Data Loc}

theorem runFrom_concat (stod : Bytes → Option UInt64) (log : List AlarmCall) (c : AlarmCall) :
    (runFrom stod {} (log ++ [c])).1 = ((runFrom stod {} log).1.step stod c).1 := by
  rw [runFrom, foldl_concat, ← runFrom]
  rfl

theorem Heard.congr (h : Heard stod log d) {d' : Data Loc} (halarms : d'.alarms = d.alarms)
    (hsnapshot : d'.snapshot = d.snapshot) : Heard stod log d' :=
  ⟨halarms.trans h.alarms, fun tag => by rw [hsnapshot]; exact h.snapshot tag⟩

/-- Nothing more is heard. -/
theorem Heard.same (h : Heard stod log d) {d' : Data Loc} (halarms : d'.alarms = d.alarms)
    (hsnapshot : d'.snapshot = d.snapshot) : Heard stod (log ++ []) d' := by
  rw [List.append_nil]
  exact h.congr halarms hsnapshot

/-- A call about the rules. -/
theorem Heard.ruled (h : Heard stod log d) {c : AlarmCall} (hc : evaluated c = none)
    {d' : Data Loc} (halarms : d'.alarms = (d.alarms.step stod c).1)
    (hsnapshot : d'.snapshot = d.snapshot) : Heard stod (log ++ [c]) d' where
  alarms := by rw [halarms, h.alarms, runFrom_concat]
  snapshot tag := by
    rw [hsnapshot, h.snapshot, List.filterMap_append, List.filterMap_cons, hc,
      List.filterMap_nil, List.append_nil]

variable [DecidableEq Loc] {w : World Loc V}

/-- **A write is evaluated.** -/
theorem Heard.engineWrite {d' : Data Loc} {call : WriteCall} (h : Heard w.conv.stod log d)
    (hwrite : d.engineWrite w call = some d') :
    Heard w.conv.stod (log ++ [.evaluate call.tag call.point]) d' := by
  unfold Data.engineWrite at hwrite
  obtain ⟨engine, -, rfl⟩ := Option.map_eq_some_iff.mp hwrite
  constructor
  case alarms =>
    show (d.alarms.evaluate call.tag call.point).1 = _
    rw [h.alarms, runFrom_concat]
    rfl
  case snapshot =>
    intro tag
    show (d.snapshot.onWrite call.tag call.point).get tag = _
    rw [get_onWrite, List.filterMap_append]
    show _ = (lastWritten (log.filterMap evaluated ++ [(call.tag, call.point)]) tag).map _
    rw [lastWritten_append]
    by_cases htag : tag = call.tag
    · rw [if_pos htag, if_pos htag, htag]
      rfl
    · rw [if_neg htag, if_neg htag]
      exact h.snapshot tag

theorem Heard.write {d' : Data Loc} {call : WriteCall} (h : Heard w.conv.stod log d)
    (hwrite : d.write w call = some d') :
    Heard w.conv.stod (log ++ [.evaluate call.tag call.point]) d' := by
  unfold Data.write at hwrite
  obtain ⟨d₁, hengine, rfl⟩ := Option.map_eq_some_iff.mp hwrite
  exact (h.engineWrite hengine).congr rfl rfl

/-- The loop of `ExecuteInsert`. -/
theorem Heard.insertRows {env : CallEnv} {db : Bytes} {stmt : InsertStmt}
    (rows : List (List Bytes)) (i : Nat) (count : Int64) {log : List AlarmCall} {d : Data Loc}
    (h : Heard w.conv.stod log d) : ∃ added,
      Heard w.conv.stod (log ++ added) (d.insertRows w env db stmt rows i count).2 ∧
        Evaluates added := by
  induction rows generalizing i count log d with
  | nil => exact ⟨[], h.same rfl rfl, evaluates_nil⟩
  | cons row rows ih =>
    rw [Data.insertRows]
    cases scanRow w.conv (w.paths.tagExists d.tree db stmt.tableName) (env.rows i).now stmt.columns
      row with
    | error tag => exact ⟨[], h.same rfl rfl, evaluates_nil⟩
    | ok scan =>
      obtain ⟨tag, value, ts⟩ := scan
      rcases tag with _ | tag
      · exact ih (i + 1) count h
      rcases value with _ | value
      · exact ih (i + 1) count h
      dsimp only
      split
      case h_1 => exact ⟨[], h.same rfl rfl, evaluates_nil⟩
      case h_2 d' hwrite =>
        obtain ⟨added, hheard, hadded⟩ := ih (i + 1) (count + 1) (h.write hwrite)
        rw [List.append_assoc] at hheard
        exact ⟨_, hheard, hadded.cons⟩

/-- The loop of `Insert`: what it has acknowledged it has evaluated. -/
theorem Heard.insertPoints {log : List AlarmCall} {d : Data Loc} (h : Heard w.conv.stod log d)
    (env : CallEnv) (points : List TagValue) (i : Nat) (count : Int64) : ∃ added,
      Heard w.conv.stod (log ++ added) (d.insertPoints w env points i count).2 ∧
        Evaluates added ∧ ((d.insertPoints w env points i count).1 ≠ .raised →
          added = (pointWrites env i points).map LoggedWrite.evaluation) := by
  induction points generalizing i count log d with
  | nil => exact ⟨[], h.same rfl rfl, evaluates_nil, fun _ => rfl⟩
  | cons p points ih =>
    rw [Data.insertPoints]
    split
    case h_1 => exact ⟨[], h.same rfl rfl, evaluates_nil, fun hno => absurd rfl hno⟩
    case h_2 d' hwrite =>
      obtain ⟨added, hheard, hadded, hall⟩ := ih (h.write hwrite) (i + 1) (count + 1)
      rw [List.append_assoc] at hheard
      refine ⟨_, hheard, hadded.cons, fun hanswered => ?_⟩
      rw [hall hanswered]
      rfl

/-! ## Any calls -/

variable [LinearOrder V] [Zero V] [Add V] [Mul V] [Div V] [NatCast V] [Sub V]

/-- What a statement asks: its call about the rules, or only that points be evaluated. -/
def StatementAsks (stmt : SQLStmt) (added : List AlarmCall) : Prop :=
  match ruleCall stmt with
  | some c => added = [c]
  | none => Evaluates added

theorem Heard.dispatch {s : Service Loc} (h : Heard w.conv.stod log s.data) (env : CallEnv)
    (db token : Bytes) (stmt : SQLStmt) : ∃ added,
      Heard w.conv.stod (log ++ added) (dispatch w env db token s stmt).2.data ∧
        StatementAsks stmt added := by
  have hnone : ∀ d : Data Loc, d.alarms = s.data.alarms → d.snapshot = s.data.snapshot →
      ruleCall stmt = none → ∃ added, Heard w.conv.stod (log ++ added) d ∧
        StatementAsks stmt added := by
    intro d halarms hsnapshot hcall
    refine ⟨[], h.same halarms hsnapshot, ?_⟩
    rw [StatementAsks, hcall]
    exact evaluates_nil
  cases stmt with
  | createAlarm stmt => exact ⟨_, h.ruled rfl rfl rfl, rfl⟩
  | alterAlarm stmt => exact ⟨_, h.ruled rfl rfl rfl, rfl⟩
  | dropAlarm name => exact ⟨_, h.ruled rfl rfl rfl, rfl⟩
  | insert stmt =>
    show ∃ added, Heard w.conv.stod (log ++ added) (s.data.executeInsert w env db stmt).2 ∧
      Evaluates added
    unfold Data.executeInsert
    split
    case isTrue => exact ⟨[], h.same rfl rfl, evaluates_nil⟩
    case isFalse =>
      split
      case isTrue => exact h.insertRows stmt.rows 0 0
      case isFalse => exact ⟨[], h.same rfl rfl, evaluates_nil⟩
  | update stmt =>
    -- dropping the tag's directory asks nothing
    have hdropped : Heard w.conv.stod log
        (s.data.runOps w (w.paths.dropTag db stmt.tableName stmt.tagFilter)) := h.congr rfl rfl
    show ∃ added, Heard w.conv.stod (log ++ added) (s.data.executeUpdate w env db stmt).2 ∧
      Evaluates added
    unfold Data.executeUpdate
    dsimp only
    split
    case h_1 => exact ⟨[], h.same rfl rfl, evaluates_nil⟩
    case h_2 d hwrite => exact ⟨_, hdropped.engineWrite hwrite, by simp [Evaluates, evaluated]⟩
  | select stmt => exact hnone _ rfl rfl rfl
  | createTag stmt => exact hnone _ rfl rfl rfl
  | alterSystem stmt => exact hnone _ rfl rfl rfl
  | createUser stmt => exact hnone _ rfl rfl rfl
  | dropTag stmt => exact hnone _ rfl rfl rfl
  | dropUser username => exact hnone _ rfl rfl rfl
  | dropTable name => exact hnone _ rfl rfl rfl
  | dropDatabase name => exact hnone _ rfl rfl rfl
  | createDatabase name => exact hnone _ rfl rfl rfl
  | use name => exact hnone _ rfl rfl rfl
  | createTable stmt => exact hnone _ rfl rfl rfl
  | createTags stmt => exact hnone _ rfl rfl rfl
  | alterTag stmt => exact hnone _ rfl rfl rfl
  | alterUser stmt => exact hnone _ rfl rfl rfl
  | delete stmt => exact hnone _ rfl rfl rfl
  | show_ stmt => exact hnone _ rfl rfl rfl

/-- What a call of the service asks. -/
structure AsksAlarms (w : World Loc V) (s : Service Loc) (call : CallEnv × Request)
    (added : List AlarmCall) : Prop where
  rules : ∀ stmt c, Runs w s call stmt → ruleCall stmt = some c → added = [c]
  only : Evaluates added ∨ ∃ stmt c, Runs w s call stmt ∧ ruleCall stmt = some c ∧ added = [c]
  acknowledged : ∀ points, Acknowledges w s call points →
    added = (pointWrites call.1 0 points).map LoggedWrite.evaluation

/-- A text asks what its statement asks. -/
theorem Heard.runSQL {s : Service Loc} (h : Heard w.conv.stod log s.data) (env : CallEnv)
    (sql : Bytes) : ∃ added, Heard w.conv.stod (log ++ added) (runSQL w env s sql).2.data ∧
      ((∃ stmt, Accepts w.conv sql stmt ∧ StatementAsks stmt added) ∨
        (¬ ∃ stmt, Accepts w.conv sql stmt) ∧ added = []) := by
  unfold Server.runSQL
  cases hparse : parseSql w.conv sql with
  | error fault =>
    refine ⟨[], h.same rfl rfl, .inr ⟨?_, rfl⟩⟩
    rintro ⟨stmt, parsed, hparsed, -⟩
    rw [hparse] at hparsed
    cases hparsed
  | ok parsed =>
    dsimp only
    cases hstmt : parsed.stmt with
    | none =>
      refine ⟨[], h.same rfl rfl, .inr ⟨?_, rfl⟩⟩
      rintro ⟨stmt, parsed', hparsed, hsome⟩
      rw [hparse] at hparsed
      cases hparsed
      rw [hstmt] at hsome
      cases hsome
    | some stmt =>
      obtain ⟨added, hheard, hasks⟩ := h.dispatch env [] [] stmt
      exact ⟨added, hheard, .inl ⟨stmt, ⟨parsed, hparse, hstmt⟩, hasks⟩⟩

/-- A text that asks for a permission first. -/
theorem Heard.checked {s : Service Loc} (h : Heard w.conv.stod log s.data) {env : CallEnv}
    {request : Request} {token operation sql : Bytes} (denied : Response)
    (respond : InsertOutcome → Response)
    (hruns : ∀ stmt, Runs w s (env, request) stmt ↔
      permitted s.auth env.auth.now token operation = true ∧ Accepts w.conv sql stmt)
    (hother : ∀ points, ¬ Acknowledges w s (env, request) points) :
    ∃ added, Heard w.conv.stod (log ++ added)
        (guarded s env.auth.now token operation denied fun s =>
          let (ending, s) := Server.runSQL w env s sql
          (respond ending, s)).2.data ∧ AsksAlarms w s (env, request) added := by
  rw [guarded_eq]
  cases hpermitted : permitted s.auth env.auth.now token operation with
  | false =>
    refine ⟨[], h.same rfl rfl, fun stmt c hstmt => ?_, .inl evaluates_nil,
      fun points hack => absurd hack (hother points)⟩
    rw [hruns, hpermitted] at hstmt
    exact absurd hstmt.1 (by decide)
  | true =>
    have hcleaned : Heard w.conv.stod log
      { s with auth := s.auth.cleanupExpiredTokens env.auth.now }.data := h
    obtain ⟨added, hheard, hasks⟩ := hcleaned.runSQL env sql
    refine ⟨added, hheard, fun stmt c hstmt hc => ?_, ?_,
      fun points hack => absurd hack (hother points)⟩
    · obtain ⟨-, haccepts⟩ := (hruns stmt).mp hstmt
      rcases hasks with ⟨stmt', haccepts', hasks⟩ | ⟨hnone, -⟩
      · obtain rfl := haccepts.unique haccepts'
        rw [StatementAsks, hc] at hasks
        exact hasks
      · exact absurd ⟨stmt, haccepts⟩ hnone
    · rcases hasks with ⟨stmt, haccepts, hasks⟩ | ⟨-, rfl⟩
      · unfold StatementAsks at hasks
        split at hasks
        case h_1 c hc => exact .inr ⟨stmt, c, (hruns stmt).mpr ⟨hpermitted, haccepts⟩, hc, hasks⟩
        case h_2 => exact .inl hasks
      · exact .inl evaluates_nil

/-- **One call.** -/
theorem Heard.serve {s : Service Loc} (h : Heard w.conv.stod log s.data)
    (call : CallEnv × Request) :
    ∃ added, Heard w.conv.stod (log ++ added) (serve w s call).2.data ∧
      AsksAlarms w s call added := by
  obtain ⟨env, request⟩ := call
  have hother : (∀ request', request ≠ .insert request') →
      ∀ points, ¬ Acknowledges w s (env, request) points := by
    rintro hno points ⟨request', response, heq, -⟩
    exact hno request' heq
  have hnothing : (∀ request', request ≠ .insert request') →
      (∀ stmt, ¬ Runs w s (env, request) stmt) → AsksAlarms w s (env, request) [] := by
    intro hno hruns
    exact ⟨fun stmt c hstmt => absurd hstmt (hruns stmt), .inl evaluates_nil,
      fun points hack => absurd hack (hother hno points)⟩
  cases request with
  | query token sql => exact h.checked _ queryResponse (fun stmt => Iff.rfl) (hother (by simp))
  | admin token command =>
    exact h.checked _ adminResponse (fun stmt => Iff.rfl) (hother (by simp))
  | insert request =>
    have hserve := serve_insert w s env request
    have hruns : ∀ stmt, ¬ Runs w s (env, .insert request) stmt := fun stmt hstmt => hstmt
    cases hpermitted : permitted s.auth env.auth.now request.token (ascii "INSERT") with
    | false =>
      rw [hpermitted] at hserve
      refine ⟨[], by rw [hserve]; exact h.same rfl rfl, fun stmt c hstmt => absurd hstmt
        (hruns stmt), .inl evaluates_nil, ?_⟩
      rintro points ⟨request', response, -, -, hresponse, hok⟩
      rw [hserve] at hresponse
      cases hresponse
      cases hok
    | true =>
      rw [hpermitted] at hserve
      obtain ⟨added, hheard, hadded, hall⟩ := h.insertPoints env request.points 0 0
      refine ⟨added, by rw [hserve]; exact hheard, fun stmt c hstmt => absurd hstmt (hruns stmt),
        .inl hadded, ?_⟩
      rintro points ⟨request', response, heq, rfl, hresponse, -⟩
      cases heq
      apply hall
      rw [hserve] at hresponse
      change (s.data.insertPoints w env request.points 0 0).1 = _ at hresponse
      rw [hresponse]
      exact fun hno => nomatch hno
  | auth username password =>
    refine ⟨[], ?_, hnothing (by simp) fun stmt hstmt => hstmt⟩
    rw [List.append_nil]
    unfold Server.serve handle
    dsimp only
    generalize s.auth.login env.auth username password = login
    obtain ⟨token, a⟩ := login
    cases token with
    | nil => exact h
    | cons c token => exact h
  | snapshot request =>
    refine ⟨[], ?_, hnothing (by simp) fun stmt hstmt => hstmt⟩
    rw [List.append_nil]
    unfold Server.serve handle
    dsimp only
    generalize s.auth.validateToken env.auth.now request.token = validated
    obtain ⟨user, a⟩ := validated
    cases user with
    | none => exact h
    | some user => exact h

/-! ## Runs -/

/-- The list of what a run asks of the alarms: the statements about rules that it executes and the
points that it writes, each where the alarms are what the calls in front of it have made of them. -/
structure AlarmLogOf (w : World Loc V) (s : Service Loc) (calls : List (CallEnv × Request))
    (log : List AlarmCall) : Prop where
  heard : Heard w.conv.stod log (runTo (serve w) s calls).data
  rules : ∀ c ∈ log, evaluated c = none → ∃ front call stmt, front ++ [call] <+: calls ∧
    Runs w (runTo (serve w) s front) call stmt ∧ ruleCall stmt = some c
  executed : ∀ front call stmt c, front ++ [call] <+: calls →
    Runs w (runTo (serve w) s front) call stmt → ruleCall stmt = some c →
      ∃ before after, log = before ++ [c] ++ after ∧
        (runTo (serve w) s front).data.alarms = (runFrom w.conv.stod {} before).1
  acknowledged : ∀ front call points, front ++ [call] <+: calls →
    Acknowledges w (runTo (serve w) s front) call points →
      ∃ before after,
        log = before ++ (pointWrites call.1 0 points).map LoggedWrite.evaluation ++ after ∧
          (runTo (serve w) s front).data.alarms = (runFrom w.conv.stod {} before).1

theorem exists_alarmLogOf (w : World Loc V) {s : Service Loc} (h : Unwritten s.data)
    (hnone : s.data.alarms = {}) (calls : List (CallEnv × Request)) :
    ∃ log, AlarmLogOf w s calls log := by
  induction calls using List.reverseRecOn with
  | nil =>
    have hno : ∀ (front : List (CallEnv × Request)) (call : CallEnv × Request),
        ¬ front ++ [call] <+: [] := by
      intro front call hfront
      have hlen := hfront.length_le
      simp at hlen
    refine ⟨[], ⟨hnone, fun tag => ?_⟩, fun c hc => absurd hc List.not_mem_nil,
      fun front call _ _ hfront => absurd hfront (hno front call),
      fun front call _ hfront => absurd hfront (hno front call)⟩
    show s.data.snapshot.get tag = _
    rw [h.snapshot]
    rfl
  | append_singleton calls call ih =>
    obtain ⟨log, hlog⟩ := ih
    obtain ⟨added, hheard, hasks⟩ := hlog.heard.serve call
    have hmore : ∀ {part : List AlarmCall} {a : AlarmEngine},
        (∃ before after, log = before ++ part ++ after ∧
          a = (runFrom w.conv.stod {} before).1) →
        ∃ before after, log ++ added = before ++ part ++ after ∧
          a = (runFrom w.conv.stod {} before).1 := by
      rintro part a ⟨before, after, rfl, ha⟩
      exact ⟨before, after ++ added, by rw [List.append_assoc], ha⟩
    refine ⟨log ++ added, by rw [runTo_concat]; exact hheard, ?_, ?_, ?_⟩
    · intro c hc hrule
      rcases List.mem_append.mp hc with hc | hc
      · obtain ⟨front, last, stmt, hfront, hruns⟩ := hlog.rules c hc hrule
        exact ⟨front, last, stmt, hfront.trans (List.prefix_append _ _), hruns⟩
      · rcases hasks.only with hevaluates | ⟨stmt, c', hruns, hcall, rfl⟩
        · have hpoint := hevaluates c hc
          rw [hrule] at hpoint
          cases hpoint
        · obtain rfl := List.mem_singleton.mp hc
          exact ⟨calls, call, stmt, List.prefix_refl _, hruns, hcall⟩
    · intro front last stmt c hfront hruns hcall
      rcases concat_prefix_concat.mp hfront with ⟨rfl, rfl⟩ | hbefore
      · obtain rfl := hasks.rules stmt c hruns hcall
        exact ⟨log, [], by rw [List.append_nil], hlog.heard.alarms⟩
      · exact hmore (hlog.executed front last stmt c hbefore hruns hcall)
    · intro front last points hfront hack
      rcases concat_prefix_concat.mp hfront with ⟨rfl, rfl⟩ | hbefore
      · obtain rfl := hasks.acknowledged points hack
        exact ⟨log, [], by rw [List.append_nil], hlog.heard.alarms⟩
      · exact hmore (hlog.acknowledged front last points hbefore hack)

/-- The statement gives this condition to the alarm of this name. -/
def Words (name condition : Bytes) : SQLStmt → Prop
  | .createAlarm stmt => stmt.alarmName = name ∧ stmt.condition = condition
  | .alterAlarm stmt =>
    stmt.name = name ∧ stmt.property = ascii "condition" ∧ stmt.value = condition
  | _ => False

theorem ruleCall_eq_addRule {stmt : SQLStmt} {rule : AlarmRule}
    (h : ruleCall stmt = some (.addRule rule)) : ∃ created, stmt = .createAlarm created ∧
      created.alarmName = rule.name ∧ created.tagName = rule.tagName ∧
        created.condition = rule.condition := by
  cases stmt with
  | createAlarm created =>
    cases h
    exact ⟨created, rfl, rfl, rfl, rfl⟩
  | _ => cases h

theorem ruleCall_eq_alterRule {stmt : SQLStmt} {name property value : Bytes}
    (h : ruleCall stmt = some (.alterRule name property value)) : ∃ altered,
      stmt = .alterAlarm altered ∧ altered.name = name ∧ altered.property = property ∧
        altered.value = value := by
  cases stmt with
  | alterAlarm altered =>
    cases h
    exact ⟨altered, rfl, rfl, rfl, rfl⟩
  | _ => cases h

/-- Where an alarm of a run comes from: a write of its tag, a `CREATE ALARM` of its name on the tag,
and a statement that gave the alarm the condition, which holds of what was written. -/
structure ComesFrom (w : World Loc V) (s : Service Loc) (calls : List (CallEnv × Request))
    (log : List AlarmCall) (event : AlarmEvent) : Prop where
  written : .evaluate event.tagName { ts := event.ts, value := .double event.value } ∈ log
  holds : HoldsOf w.conv.stod event.condition event.value
  created : ∃ front call stmt, front ++ [call] <+: calls ∧
    Runs w (runTo (serve w) s front) call (.createAlarm stmt) ∧
      stmt.alarmName = event.alarmName ∧ stmt.tagName = event.tagName
  worded : ∃ front call stmt, front ++ [call] <+: calls ∧
    Runs w (runTo (serve w) s front) call stmt ∧ Words event.alarmName event.condition stmt

theorem AlarmLogOf.comesFrom {s : Service Loc} {calls : List (CallEnv × Request)}
    {log : List AlarmCall} (h : AlarmLogOf w s calls log) {event : AlarmEvent}
    (hevent : event ∈ (runTo (serve w) s calls).data.alarms.events) :
    ComesFrom w s calls log event := by
  rw [h.heard.alarms, events_run, ← (tracks_run w.conv.stod log).given] at hevent
  have hexplained := explained_of_mem (List.mem_of_mem_take hevent)
  refine ⟨hexplained.point, hexplained.holds, ?_, ?_⟩
  · obtain ⟨rule, hrule, hname, htag⟩ := hexplained.rule.added
    obtain ⟨front, call, stmt, hfront, hruns, hcall⟩ := h.rules _ hrule rfl
    obtain ⟨created, rfl, hname', htag', -⟩ := ruleCall_eq_addRule hcall
    exact ⟨front, call, created, hfront, hruns, hname'.trans hname, htag'.trans htag⟩
  · rcases hexplained.rule.worded with ⟨rule, hrule, hname, hcondition⟩ | halter
    · obtain ⟨front, call, stmt, hfront, hruns, hcall⟩ := h.rules _ hrule rfl
      obtain ⟨created, rfl, hname', -, hcondition'⟩ := ruleCall_eq_addRule hcall
      exact ⟨front, call, .createAlarm created, hfront, hruns, hname'.trans hname,
        hcondition'.trans hcondition⟩
    · obtain ⟨front, call, stmt, hfront, hruns, hcall⟩ := h.rules _ halter rfl
      obtain ⟨altered, rfl, hname, hproperty, hvalue⟩ := ruleCall_eq_alterRule hcall
      exact ⟨front, call, .alterAlarm altered, hfront, hruns, hname, hproperty, hvalue⟩

end

/-! ## A run -/

/-- The service reads the numbers that `stod1400` reads. -/
def armedWorld : World Bytes Int :=
  { plainWorld with conv := { plainWorld.conv with stod := stod1400 } }

/-- The administrator logs in, makes an alarm and writes a point that it is for. -/
def armedCalls : List (CallEnv × Request) :=
  [(callAt 1 (ascii "t"), .auth (ascii "admin") (ascii "admin123")),
    (callAt 2 (ascii "u"), .query (ascii "t")
      (ascii "CREATE ALARM hot ON x WHEN value > 1400.0 THEN ACTION('log')")),
    (callAt 3 (ascii "v"), .insert
      { token := ascii "t"
        points := [{ tag := ascii "x", timestamp := 5, value := 0x4096000000000000 }] })]

end Server
end MiniTSDB
