import MiniTSDB.Cache.History
import MiniTSDB.Server.Accounts
import MiniTSDB.Snapshot.LatestStores

/-!
# One log behind three stores

A write goes to the engine's cache of latest values, to the snapshot and, but for that of an
`UPDATE`, to the cache of the executors. Whatever calls the service has answered, there is one list
of writes of which the three are views (`stores_of_run`): the two caches have the latest point of a
tag, the snapshot its last one. A point whose `Insert` was acknowledged is in the list.

So the two caches have the same point of a tag unless an `UPDATE` has written under that name
(`caches_agree`).
-/

namespace MiniTSDB
namespace Server

open Lib Os Storage Sql Auth Alarm Snapshot

/-- A write to the engine, and whether an `UPDATE` made it. -/
structure LoggedWrite where
  tag : Bytes
  point : DataPoint
  byUpdate : Bool
  deriving DecidableEq, Repr

/-- The entry of a write. -/
def logged (byUpdate : Bool) (call : WriteCall) : LoggedWrite :=
  { tag := call.tag, point := call.point, byUpdate := byUpdate }

def LoggedWrite.op (e : LoggedWrite) : CacheOp := .update e.tag e.point

/-- The writes that the executors' cache has seen. -/
def ofInserts (log : List LoggedWrite) : List LoggedWrite := log.filter fun e => !e.byUpdate

variable {Loc V : Type}

/-- The stores are what the writes make of nothing. -/
structure Views (log : List LoggedWrite) (d : Data Loc) : Prop where
  latest : d.engine.latest = LatestCache.after (log.map LoggedWrite.op)
  cache : d.cache = LatestCache.after ((ofInserts log).map LoggedWrite.op)
  snapshot : ∀ tag, d.snapshot.get tag
    = (lastWritten (log.map fun e => (e.tag, e.point)) tag).map (.ofPoint tag)

/-- The stores before anything was written. -/
structure Unwritten (d : Data Loc) : Prop where
  latest : d.engine.latest = ∅
  cache : d.cache = ∅
  snapshot : d.snapshot = .empty

theorem views_nil {d : Data Loc} (h : Unwritten d) : Views [] d where
  latest := h.latest
  cache := h.cache
  snapshot tag := by
    rw [h.snapshot]
    rfl

/-- What changes nothing in the three stores. -/
theorem Views.congr {log : List LoggedWrite} {d d' : Data Loc} (h : Views log d)
    (hlatest : d'.engine.latest = d.engine.latest) (hcache : d'.cache = d.cache)
    (hsnapshot : d'.snapshot = d.snapshot) : Views log d' where
  latest := hlatest.trans h.latest
  cache := hcache.trans h.cache
  snapshot tag := by
    rw [hsnapshot]
    exact h.snapshot tag

theorem after_concat (ops : List CacheOp) (tag : Bytes) (point : DataPoint) :
    LatestCache.after (ops ++ [.update tag point]) = (LatestCache.after ops).update tag point := by
  rw [LatestCache.after, foldl_concat]
  rfl

theorem Views.snapshot_concat {log : List LoggedWrite} {d : Data Loc} (h : Views log d)
    (e : LoggedWrite) (tag : Bytes) : (d.snapshot.onWrite e.tag e.point).get tag
      = (lastWritten ((log ++ [e]).map fun e => (e.tag, e.point)) tag).map (.ofPoint tag) := by
  rw [get_onWrite, List.map_append, List.map_singleton, lastWritten_append]
  by_cases htag : tag = e.tag
  · subst htag
    rw [if_pos rfl, if_pos rfl]
    rfl
  · rw [if_neg htag, if_neg htag]
    exact h.snapshot tag

/-- The points of a tag. -/
def pointsOf (tag : Bytes) (log : List LoggedWrite) : List DataPoint :=
  (log.filter fun e => e.tag = tag).map LoggedWrite.point

theorem sinceRemoval_op (tag : Bytes) (log : List LoggedWrite) :
    sinceRemoval tag (log.map LoggedWrite.op) = pointsOf tag log := by
  induction log using List.reverseRecOn with
  | nil => rfl
  | append_singleton log e ih =>
    have hkeeps : e.op.removes tag = false := rfl
    rw [List.map_append, List.map_singleton, sinceRemoval_concat, hkeeps, ih, pointsOf, pointsOf,
      List.filter_append, List.map_append, List.filter_singleton]
    by_cases htag : e.tag = tag
    · have hpoint : e.op.pointOf tag = some e.point := if_pos htag
      simp [hpoint, htag]
    · have hpoint : e.op.pointOf tag = none := if_neg htag
      simp [hpoint, htag]

theorem Views.isLatestOf_latest {log : List LoggedWrite} {d : Data Loc} (h : Views log d)
    (tag : Bytes) : IsLatestOf (pointsOf tag log) (d.engine.latest.lookup tag) := by
  rw [h.latest, ← sinceRemoval_op]
  exact isLatestOf_get_after _ tag

theorem Views.isLatestOf_cache {log : List LoggedWrite} {d : Data Loc} (h : Views log d)
    (tag : Bytes) : IsLatestOf (pointsOf tag (ofInserts log)) (d.cache.lookup tag) := by
  rw [h.cache, ← sinceRemoval_op]
  exact isLatestOf_get_after _ tag

/-- The points of a tag that no `UPDATE` has written. -/
theorem pointsOf_ofInserts {log : List LoggedWrite} {tag : Bytes}
    (h : ∀ e ∈ log, e.byUpdate = true → e.tag ≠ tag) :
    pointsOf tag (ofInserts log) = pointsOf tag log := by
  unfold pointsOf ofInserts
  rw [List.filter_filter]
  congr 1
  apply List.filter_congr
  intro e he
  cases hupdate : e.byUpdate with
  | false => simp
  | true => simp [h e he hupdate]

section
variable [DecidableEq Loc] {w : World Loc V}

/-- A write of the engine goes to its cache and to the snapshot. -/
theorem engineWrite_stores {d d' : Data Loc} {call : WriteCall}
    (h : d.engineWrite w call = some d') :
    d'.engine.latest = d.engine.latest.update call.tag call.point ∧ d'.cache = d.cache ∧
      d'.snapshot = d.snapshot.onWrite call.tag call.point := by
  unfold Data.engineWrite at h
  obtain ⟨engine, hengine, rfl⟩ := Option.map_eq_some_iff.mp h
  unfold Engine.write at hengine
  obtain ⟨data, -, hengine⟩ := Option.bind_eq_some_iff.mp hengine
  cases hengine
  exact ⟨rfl, rfl, rfl⟩

/-- **A write of an `UPDATE`.** -/
theorem Views.engineWrite {log : List LoggedWrite} {d d' : Data Loc} {call : WriteCall}
    (h : Views log d) (hwrite : d.engineWrite w call = some d') :
    Views (log ++ [logged true call]) d' := by
  obtain ⟨hlatest, hcache, hsnapshot⟩ := engineWrite_stores hwrite
  constructor
  case latest =>
    rw [hlatest, h.latest, List.map_append]
    exact (after_concat _ _ _).symm
  case cache =>
    rw [hcache, h.cache, ofInserts, ofInserts, List.filter_append]
    simp [logged]
  case snapshot =>
    intro tag
    rw [hsnapshot]
    exact h.snapshot_concat (logged true call) tag

/-- **Any other write.** -/
theorem Views.write {log : List LoggedWrite} {d d' : Data Loc} {call : WriteCall}
    (h : Views log d) (hwrite : d.write w call = some d') :
    Views (log ++ [logged false call]) d' := by
  unfold Data.write at hwrite
  obtain ⟨d₁, hengine, rfl⟩ := Option.map_eq_some_iff.mp hwrite
  obtain ⟨hlatest, hcache, hsnapshot⟩ := engineWrite_stores hengine
  constructor
  case latest =>
    show d₁.engine.latest = _
    rw [hlatest, h.latest, List.map_append]
    exact (after_concat _ _ _).symm
  case cache =>
    show d₁.cache.update call.tag call.point = _
    have hlog : ofInserts (log ++ [logged false call])
        = ofInserts log ++ [logged false call] := by
      rw [ofInserts, List.filter_append]
      rfl
    rw [hcache, h.cache, hlog, List.map_append]
    exact (after_concat _ _ _).symm
  case snapshot =>
    intro tag
    show d₁.snapshot.get tag = _
    rw [hsnapshot]
    exact h.snapshot_concat (logged false call) tag

/-! ## What a call writes -/

/-- The loop of `ExecuteInsert`. -/
theorem Views.insertRows {env : CallEnv} {db : Bytes} {stmt : InsertStmt}
    (rows : List (List Bytes)) (i : Nat) (count : Int64) {log : List LoggedWrite} {d : Data Loc}
    (h : Views log d) : ∃ added, Views (log ++ added) (d.insertRows w env db stmt rows i count).2 ∧
      ∀ e ∈ added, e.byUpdate = false := by
  induction rows generalizing i count log d with
  | nil => exact ⟨[], by rwa [List.append_nil], by simp⟩
  | cons row rows ih =>
    have hskip : ∃ added, Views (log ++ added)
        (Data.insertRows w env db stmt rows (i + 1) count d).2 ∧
          ∀ e ∈ added, e.byUpdate = false := ih (i + 1) count h
    rw [Data.insertRows]
    cases scanRow w.conv (w.paths.tagExists d.tree db stmt.tableName) (env.rows i).now stmt.columns
      row with
    | error tag => exact ⟨[], by rwa [List.append_nil], by simp⟩
    | ok scan =>
      obtain ⟨tag, value, ts⟩ := scan
      rcases tag with _ | tag
      · exact hskip
      rcases value with _ | value
      · exact hskip
      dsimp only
      cases hwrite : d.write w { pad := (env.rows i).pad, tag := tag, point := { ts := ts, value := value } }
      with
      | none => exact ⟨[], by rwa [List.append_nil], by simp⟩
      | some d' =>
        obtain ⟨added, hviews, hadded⟩ := ih (i + 1) (count + 1) (h.write hwrite)
        rw [List.append_assoc] at hviews
        refine ⟨_, hviews, fun e he => ?_⟩
        rcases List.mem_append.mp he with he | he
        · rw [List.mem_singleton.mp he]
          rfl
        · exact hadded e he

/-- The points of an `Insert`, as they are written. -/
def pointWrites (env : CallEnv) : Nat → List TagValue → List LoggedWrite
  | _, [] => []
  | i, p :: points =>
    { tag := p.tag, point := p.dataPoint (env.points i).now, byUpdate := false }
      :: pointWrites env (i + 1) points

/-- The loop of `Insert`: what it has acknowledged it has written. -/
theorem Views.insertPoints {log : List LoggedWrite} {d : Data Loc} (h : Views log d)
    (w : World Loc V) (env : CallEnv) (points : List TagValue) (i : Nat) (count : Int64) :
    ∃ added, Views (log ++ added) (d.insertPoints w env points i count).2 ∧
      (∀ e ∈ added, e.byUpdate = false) ∧
        ((d.insertPoints w env points i count).1 ≠ .raised → added = pointWrites env i points) := by
  induction points generalizing i count log d with
  | nil => exact ⟨[], by rwa [List.append_nil], by simp, fun _ => rfl⟩
  | cons p points ih =>
    rw [Data.insertPoints]
    cases hwrite : d.write w
      { pad := (env.points i).pad, tag := p.tag, point := p.dataPoint (env.points i).now } with
    | none => exact ⟨[], by rwa [List.append_nil], by simp, fun hno => absurd rfl hno⟩
    | some d' =>
      obtain ⟨added, hviews, hadded, hall⟩ := ih (h.write hwrite) (i + 1) (count + 1)
      rw [List.append_assoc] at hviews
      refine ⟨_, hviews, fun e he => ?_, fun hanswered => ?_⟩
      · rcases List.mem_append.mp he with he | he
        · rw [List.mem_singleton.mp he]
          rfl
        · exact hadded e he
      · rw [hall hanswered]
        rfl

/-! ## Any calls -/

variable [LinearOrder V] [Zero V] [Add V] [Mul V] [Div V] [NatCast V] [Sub V]

/-- What a statement writes; under which name, if it is an `UPDATE`. -/
theorem Views.dispatch {s : Service Loc} {log : List LoggedWrite} (h : Views log s.data)
    (w : World Loc V) (env : CallEnv) (db token : Bytes) (stmt : SQLStmt) :
    ∃ added, Views (log ++ added) (dispatch w env db token s stmt).2.data ∧
      ∀ e ∈ added, e.byUpdate = true → ∃ update, stmt = .update update ∧
        e.tag = flatKey db update.tableName update.tagFilter := by
  have hnone : ∀ d : Data Loc, d.engine.latest = s.data.engine.latest → d.cache = s.data.cache →
      d.snapshot = s.data.snapshot → ∃ added, Views (log ++ added) d ∧
        ∀ e ∈ added, e.byUpdate = true → ∃ update, stmt = .update update ∧
          e.tag = flatKey db update.tableName update.tagFilter := by
    intro d hlatest hcache hsnapshot
    exact ⟨[], by rw [List.append_nil]; exact h.congr hlatest hcache hsnapshot, by simp⟩
  cases stmt with
  | insert stmt =>
    have hinsert : ∃ added, Views (log ++ added) (s.data.executeInsert w env db stmt).2 ∧
        ∀ e ∈ added, e.byUpdate = false := by
      unfold Data.executeInsert
      split
      case isTrue => exact ⟨[], by rwa [List.append_nil], by simp⟩
      case isFalse =>
        split
        case isTrue => exact h.insertRows stmt.rows 0 0
        case isFalse => exact ⟨[], by rwa [List.append_nil], by simp⟩
    obtain ⟨added, hviews, hadded⟩ := hinsert
    refine ⟨added, hviews, fun e he hupdate => ?_⟩
    rw [hadded e he] at hupdate
    cases hupdate
  | update stmt =>
    -- dropping the tag's directory writes nothing
    have hdropped : Views log (s.data.runOps w (w.paths.dropTag db stmt.tableName stmt.tagFilter)) :=
      h.congr rfl rfl rfl
    show ∃ added, Views (log ++ added) (s.data.executeUpdate w env db stmt).2 ∧ _
    unfold Data.executeUpdate
    dsimp only
    split
    case h_1 => exact ⟨[], by rwa [List.append_nil], by simp⟩
    case h_2 d hwrite =>
      refine ⟨_, hdropped.engineWrite hwrite, fun e he _ => ?_⟩
      rw [List.mem_singleton.mp he]
      exact ⟨stmt, rfl, rfl⟩
  | select stmt => exact hnone _ rfl rfl rfl
  | createTag stmt => exact hnone _ rfl rfl rfl
  | createAlarm stmt => exact hnone _ rfl rfl rfl
  | alterSystem stmt => exact hnone _ rfl rfl rfl
  | createUser stmt => exact hnone _ rfl rfl rfl
  | dropTag stmt => exact hnone _ rfl rfl rfl
  | dropAlarm name => exact hnone _ rfl rfl rfl
  | dropUser username => exact hnone _ rfl rfl rfl
  | dropTable name => exact hnone _ rfl rfl rfl
  | dropDatabase name => exact hnone _ rfl rfl rfl
  | createDatabase name => exact hnone _ rfl rfl rfl
  | use name => exact hnone _ rfl rfl rfl
  | createTable stmt => exact hnone _ rfl rfl rfl
  | createTags stmt => exact hnone _ rfl rfl rfl
  | alterTag stmt => exact hnone _ rfl rfl rfl
  | alterAlarm stmt => exact hnone _ rfl rfl rfl
  | alterUser stmt => exact hnone _ rfl rfl rfl
  | delete stmt => exact hnone _ rfl rfl rfl
  | show_ stmt => exact hnone _ rfl rfl rfl

theorem Views.runSQL {s : Service Loc} {log : List LoggedWrite} (h : Views log s.data)
    (w : World Loc V) (env : CallEnv) (sql : Bytes) :
    ∃ added, Views (log ++ added) (runSQL w env s sql).2.data ∧
      ∀ e ∈ added, e.byUpdate = true → ∃ update, Accepts w.conv sql (.update update) ∧
        e.tag = flatKey [] update.tableName update.tagFilter := by
  unfold Server.runSQL
  cases hparse : parseSql w.conv sql with
  | error fault => exact ⟨[], by rwa [List.append_nil], by simp⟩
  | ok parsed =>
    dsimp only
    cases hstmt : parsed.stmt with
    | none => exact ⟨[], by rwa [List.append_nil], by simp⟩
    | some stmt =>
      obtain ⟨added, hviews, hadded⟩ := h.dispatch w env [] [] stmt
      refine ⟨added, hviews, fun e he hupdate => ?_⟩
      obtain ⟨update, rfl, htag⟩ := hadded e he hupdate
      exact ⟨update, ⟨parsed, hparse, hstmt⟩, htag⟩

/-- What a text writes that asks for a permission. -/
theorem Views.checked {s : Service Loc} {log : List LoggedWrite} (h : Views log s.data)
    (w : World Loc V) (env : CallEnv) (token operation sql : Bytes) (denied : Response)
    (respond : InsertOutcome → Response) :
    ∃ added, Views (log ++ added) (guarded s env.auth.now token operation denied fun s =>
        let (ending, s) := Server.runSQL w env s sql
        (respond ending, s)).2.data ∧
      ∀ e ∈ added, e.byUpdate = true → ∃ update,
        (permitted s.auth env.auth.now token operation = true ∧
          Accepts w.conv sql (.update update)) ∧
            e.tag = flatKey [] update.tableName update.tagFilter := by
  rw [guarded_eq]
  cases permitted s.auth env.auth.now token operation with
  | false => exact ⟨[], by rw [List.append_nil]; exact h, by simp⟩
  | true =>
    obtain ⟨added, hviews, hadded⟩ := Views.runSQL
      (s := { s with auth := s.auth.cleanupExpiredTokens env.auth.now }) h w env sql
    refine ⟨added, hviews, fun e he hupdate => ?_⟩
    obtain ⟨update, haccepts, htag⟩ := hadded e he hupdate
    exact ⟨update, ⟨rfl, haccepts⟩, htag⟩

/-- The call is an `Insert` that is acknowledged. -/
def Acknowledges (w : World Loc V) (s : Service Loc) (call : CallEnv × Request)
    (points : List TagValue) : Prop :=
  ∃ request response, call.2 = .insert request ∧ request.points = points ∧
    (serve w s call).1 = .insert response ∧ response.ok = true

theorem serve_insert (w : World Loc V) (s : Service Loc) (env : CallEnv)
    (request : InsertRequest) : serve w s (env, .insert request) =
      if permitted s.auth env.auth.now request.token (ascii "INSERT") = true then
        ((s.data.insertPoints w env request.points 0 0).1,
          { data := (s.data.insertPoints w env request.points 0 0).2
            auth := s.auth.cleanupExpiredTokens env.auth.now })
      else (.insert { error := ascii "Permission denied" },
        { s with auth := s.auth.cleanupExpiredTokens env.auth.now }) := by
  unfold serve handle
  exact guarded_eq s env.auth.now request.token (ascii "INSERT") _ _

/-- **One call.** -/
theorem Views.serve {s : Service Loc} {log : List LoggedWrite} (h : Views log s.data)
    (w : World Loc V) (call : CallEnv × Request) :
    ∃ added, Views (log ++ added) (serve w s call).2.data ∧
      (∀ e ∈ added, e.byUpdate = true → ∃ update, Runs w s call (.update update) ∧
        e.tag = flatKey [] update.tableName update.tagFilter) ∧
      ∀ points, Acknowledges w s call points → added = pointWrites call.1 0 points := by
  obtain ⟨env, request⟩ := call
  have hother : ∀ points, (∀ request', request ≠ .insert request') →
      ¬ Acknowledges w s (env, request) points := by
    rintro points hno ⟨request', response, heq, -⟩
    exact hno request' heq
  cases request with
  | query token sql =>
    obtain ⟨added, hviews, hadded⟩ := h.checked w env token sql sql
      (.query { ok := false, error := ascii "Permission denied" }) queryResponse
    exact ⟨added, hviews, hadded, fun points hack => absurd hack (hother points (by simp))⟩
  | insert request =>
    have hserve := serve_insert w s env request
    cases hpermitted : permitted s.auth env.auth.now request.token (ascii "INSERT") with
    | false =>
      rw [hpermitted] at hserve
      refine ⟨[], by rw [hserve, List.append_nil]; exact h, by simp, ?_⟩
      rintro points ⟨request', response, -, -, hresponse, hok⟩
      rw [hserve] at hresponse
      cases hresponse
      cases hok
    | true =>
      rw [hpermitted] at hserve
      obtain ⟨added, hviews, hadded, hall⟩ := h.insertPoints w env request.points 0 0
      refine ⟨added, by rw [hserve]; exact hviews, fun e he hupdate => ?_, ?_⟩
      · rw [hadded e he] at hupdate
        cases hupdate
      · rintro points ⟨request', response, heq, rfl, hresponse, -⟩
        cases heq
        apply hall
        rw [hserve] at hresponse
        change (s.data.insertPoints w env request.points 0 0).1 = _ at hresponse
        rw [hresponse]
        exact fun hno => nomatch hno
  | auth username password =>
    refine ⟨[], ?_, by simp, fun points hack => absurd hack (hother points (by simp))⟩
    rw [List.append_nil]
    unfold Server.serve handle
    dsimp only
    generalize s.auth.login env.auth username password = login
    obtain ⟨token, a⟩ := login
    cases token with
    | nil => exact h
    | cons c token => exact h
  | admin token command =>
    obtain ⟨added, hviews, hadded⟩ := h.checked w env token (ascii "CREATE TAG") command
      (.admin { ok := false, error := ascii "Permission denied" }) adminResponse
    exact ⟨added, hviews, hadded, fun points hack => absurd hack (hother points (by simp))⟩
  | snapshot request =>
    refine ⟨[], ?_, by simp, fun points hack => absurd hack (hother points (by simp))⟩
    rw [List.append_nil]
    unfold Server.serve handle
    dsimp only
    generalize s.auth.validateToken env.auth.now request.token = validated
    obtain ⟨user, a⟩ := validated
    cases user with
    | none => exact h
    | some user => exact h

/-- What the run has in its log. -/
structure LogOf (w : World Loc V) (s : Service Loc) (calls : List (CallEnv × Request))
    (log : List LoggedWrite) : Prop where
  views : Views log (runTo (serve w) s calls).data
  updates : ∀ e ∈ log, e.byUpdate = true → ∃ front call update, front ++ [call] <+: calls ∧
    Runs w (runTo (serve w) s front) call (.update update) ∧
      e.tag = flatKey [] update.tableName update.tagFilter
  acknowledged : ∀ front call points, front ++ [call] <+: calls →
    Acknowledges w (runTo (serve w) s front) call points →
      ∀ e ∈ pointWrites call.1 0 points, e ∈ log

theorem exists_logOf (w : World Loc V) {s : Service Loc} (h : Unwritten s.data)
    (calls : List (CallEnv × Request)) : ∃ log, LogOf w s calls log := by
  induction calls using List.reverseRecOn with
  | nil =>
    refine ⟨[], views_nil h, by simp, fun front call points hfront => ?_⟩
    have hlen := hfront.length_le
    simp at hlen
  | append_singleton calls call ih =>
    obtain ⟨log, hlog⟩ := ih
    obtain ⟨added, hviews, hupdates, hacknowledged⟩ :=
      hlog.views.serve w call
    refine ⟨log ++ added, by rw [runTo_concat]; exact hviews, ?_, ?_⟩
    · intro e he hupdate
      rcases List.mem_append.mp he with he | he
      · obtain ⟨front, last, update, hfront, hruns⟩ := hlog.updates e he hupdate
        exact ⟨front, last, update, hfront.trans (List.prefix_append _ _), hruns⟩
      · obtain ⟨update, hruns⟩ := hupdates e he hupdate
        exact ⟨calls, call, update, List.prefix_refl _, hruns⟩
    · intro front last points hfront hack e he
      rcases concat_prefix_concat.mp hfront with ⟨rfl, rfl⟩ | hbefore
      · rw [hacknowledged points hack]
        exact List.mem_append_right _ he
      · exact List.mem_append_left _ (hlog.acknowledged front last points hbefore hack e he)

/-- Some `UPDATE` of the run has been executed whose tag has this name in the engine. -/
def Updated (w : World Loc V) (s : Service Loc) (calls : List (CallEnv × Request)) (tag : Bytes) :
    Prop :=
  ∃ front call update, front ++ [call] <+: calls ∧
    Runs w (runTo (serve w) s front) call (.update update) ∧
      tag = flatKey [] update.tableName update.tagFilter

end

/-! ## A run -/

theorem unwritten_plainService : Unwritten plainService.data where
  latest := by
    show freshSession.engine.latest = ∅
    rw [freshSession_eq]
  cache := rfl
  snapshot := rfl

end Server
end MiniTSDB
