import MiniTSDB.Lib.Purge
import MiniTSDB.Server.Service

/-!
# Calls that nobody notices

A call that is refused, a login that fails, a `Snapshot` and a statement that only reads leave the
service as it is, but for sessions that have expired by then. So they can be taken out of any run of
calls, whoever made them and whatever came in between: the other calls get the same responses, and
the service ends in the same state (`silent_unnoticed`).

All that a viewer can ask for is silent, and all that a stranger can, whatever the text of the
statement is (`outsider_silent`).
-/

namespace MiniTSDB

namespace Auth

open Lib

/-! ## Sessions from some time on -/

/-- The accounts, and the sessions that have not expired at this time. -/
def AuthManager.aliveFrom (a : AuthManager) (t : Int) : AuthManager :=
  { a with tokens := keep (fun session => decide (t ≤ session.expiresAt.toInt)) a.tokens }

theorem cleanup_eq_aliveFrom (a : AuthManager) (now : Timestamp) :
    a.cleanupExpiredTokens now = a.aliveFrom now.toInt := by
  unfold AuthManager.cleanupExpiredTokens AuthManager.aliveFrom
  have hexpired : (fun session : SessionToken => !decide (session.expiresAt < now))
      = fun session => decide (now.toInt ≤ session.expiresAt.toInt) := by
    funext session
    simp [Int64.lt_iff_toInt_lt, ← decide_not]
  rw [hexpired]

theorem aliveFrom_later (a : AuthManager) {t t' : Int} (h : t ≤ t') :
    (a.aliveFrom t).aliveFrom t' = a.aliveFrom t' := by
  unfold AuthManager.aliveFrom
  dsimp only
  rw [keep_keep]
  intro session halive
  exact decide_eq_true (h.trans (of_decide_eq_true halive))

/-- The accounts are the same, and so are the sessions from this time on. -/
def SameFrom (t : Int) (a b : AuthManager) : Prop := a.aliveFrom t = b.aliveFrom t

variable {a b : AuthManager} {now : Timestamp}

theorem SameFrom.later {t t' : Int} (hle : t ≤ t') (h : SameFrom t a b) : SameFrom t' a b := by
  unfold SameFrom at h ⊢
  rw [← aliveFrom_later a hle, h, aliveFrom_later b hle]

theorem sameFrom_cleanup (a : AuthManager) (now : Timestamp) :
    SameFrom now.toInt (a.cleanupExpiredTokens now) a := by
  unfold SameFrom
  rw [cleanup_eq_aliveFrom, aliveFrom_later a (Int.le_refl _)]

theorem SameFrom.cleanup (h : SameFrom now.toInt a b) :
    a.cleanupExpiredTokens now = b.cleanupExpiredTokens now := by
  rw [cleanup_eq_aliveFrom, cleanup_eq_aliveFrom]
  exact h

theorem SameFrom.users {t : Int} (h : SameFrom t a b) : a.users = b.users :=
  (AuthManager.mk.inj h).1

/-- A call that looks at a token sees no difference, and leaves none. -/
theorem SameFrom.validateToken (h : SameFrom now.toInt a b) (token : Bytes) :
    a.validateToken now token = b.validateToken now token := by
  rw [validateToken_eq, validateToken_eq, h.cleanup, h.users]

theorem SameFrom.checkPermission (h : SameFrom now.toInt a b) (token operation : Bytes) :
    a.checkPermission now token operation = b.checkPermission now token operation := by
  unfold AuthManager.checkPermission
  rw [h.validateToken]

theorem sameFrom_validateToken (a : AuthManager) (now : Timestamp) (token : Bytes) :
    SameFrom now.toInt (a.validateToken now token).2 a := by
  rw [validateToken_eq]
  exact sameFrom_cleanup a now

/-! ## Logging in -/

/-- The account is there and active, and the password is its own. -/
def AuthManager.admits (a : AuthManager) (env : AuthEnv) (username password : Bytes) : Bool :=
  (a.users.lookup username).any fun user =>
    user.active && user.passwordHash = env.hashPassword password user.salt

theorem login_eq (a : AuthManager) (env : AuthEnv) (username password : Bytes) :
    a.login env username password =
      match (a.users.lookup username).filter fun user =>
        user.active && user.passwordHash = env.hashPassword password user.salt with
      | none => ([], a)
      | some user =>
        (env.token, { a.cleanupExpiredTokens env.now with
          tokens := (a.cleanupExpiredTokens env.now).tokens.insert env.token
            { token := env.token, username := username, role := user.role
              expiresAt := env.now + (a.cleanupExpiredTokens env.now).tokenExpirySec } }) := by
  unfold AuthManager.login
  cases a.users.lookup username with
  | none => rfl
  | some user =>
    rw [Option.filter_some]
    by_cases hactive : user.active = true
    · by_cases hhash : user.passwordHash = env.hashPassword password user.salt
      · simp [hactive, hhash]
      · simp [hactive, hhash]
    · simp [hactive]

theorem login_refused {env : AuthEnv} {username password : Bytes}
    (h : a.admits env username password = false) : a.login env username password = ([], a) := by
  have hnone : ((a.users.lookup username).filter fun user =>
      user.active && user.passwordHash = env.hashPassword password user.salt) = none := by
    unfold AuthManager.admits at h
    rw [Option.filter_eq_none_iff]
    intro user huser
    rw [huser] at h
    exact Bool.eq_false_iff.mp h
  rw [login_eq, hnone]

/-- A login sees the accounts, and leaves no difference. -/
theorem SameFrom.login {env : AuthEnv} (h : SameFrom env.now.toInt a b)
    (username password : Bytes) :
    (a.login env username password).1 = (b.login env username password).1 ∧
      SameFrom env.now.toInt (a.login env username password).2
        (b.login env username password).2 := by
  rw [login_eq, login_eq, h.users, h.cleanup]
  split
  · exact ⟨rfl, h⟩
  · exact ⟨rfl, rfl⟩

end Auth

namespace Server

open Lib Os Storage Sql Auth Alarm Snapshot

/-! ## Statements that only read -/

/-- The statement changes nothing: of those that are no `SELECT` and no `SHOW`, some have nothing
behind them. -/
def reads : SQLStmt → Bool
  | .select _ => true
  | .show_ _ => true
  | .createTag _ => true
  | .alterSystem _ => true
  | .alterTag _ => true
  | .use _ => true
  | _ => false

/-- The text runs no other statement. -/
def readsOnly (conv : Conversions) (sql : Bytes) : Bool :=
  match parseSql conv sql with
  | .error _ => true
  | .ok parsed => parsed.stmt.all reads

variable {Loc V : Type} {w : World Loc V} {env : CallEnv}

/-! ## Silent calls -/

/-- The token has the permission. -/
def permitted (a : AuthManager) (now : Timestamp) (token operation : Bytes) : Bool :=
  (a.checkPermission now token operation).1

/-- Asking for a permission drops the sessions that have expired, whatever the answer is. -/
theorem checkPermission_eq (a : AuthManager) (now : Timestamp) (token operation : Bytes) :
    a.checkPermission now token operation
      = (permitted a now token operation, a.cleanupExpiredTokens now) := by
  rw [← validateToken_snd a now token, ← checkPermission_snd a now token operation]
  rfl

theorem guarded_eq (s : Service Loc) (now : Timestamp) (token operation : Bytes)
    (denied : Response) (handler : Service Loc → Response × Service Loc) :
    guarded s now token operation denied handler =
      if permitted s.auth now token operation = true then
        handler { s with auth := s.auth.cleanupExpiredTokens now }
      else (denied, { s with auth := s.auth.cleanupExpiredTokens now }) := by
  rw [guarded, checkPermission_eq]
  cases permitted s.auth now token operation with
  | false => rfl
  | true => rfl

/-- The call is refused, or only reads. -/
def silent (w : World Loc V) (s : Service Loc) (call : CallEnv × Request) : Bool :=
  match call.2 with
  | .query token sql =>
    !permitted s.auth call.1.auth.now token sql || readsOnly w.conv sql
  | .insert request =>
    !permitted s.auth call.1.auth.now request.token (ascii "INSERT") || request.points.isEmpty
  | .auth username password => !s.auth.admits call.1.auth username password
  | .admin token command =>
    !permitted s.auth call.1.auth.now token (ascii "CREATE TAG") || readsOnly w.conv command
  | .snapshot _ => true

/-! ## Those who can only read -/

/-- The role may do no more than a viewer's. -/
def outside : UserRole → Bool
  | .admin => false
  | .operator => false
  | .viewer => true
  | .other _ => true

/-- The token that a call shows, if it shows one. -/
def Request.token? : Request → Option Bytes
  | .query token _ => some token
  | .insert request => some request.token
  | .auth _ _ => none
  | .admin token _ => some token
  | .snapshot request => some request.token

/-- The call is a viewer's, or nobody's. -/
def outsider (s : Service Loc) (call : CallEnv × Request) : Bool :=
  call.2.token?.any fun token =>
    (s.auth.roleOf call.1.auth.now token).all outside

/-- What the likes of a viewer may do starts with `SELECT`. -/
theorem permits_outside {role : UserRole} (h : outside role = true) (operation : Bytes) :
    role.permits operation = opStarts operation (ascii "SELECT") := by
  cases role with
  | admin => cases h
  | operator => cases h
  | viewer => rfl
  | other byte => rfl

/-- Behind a `SELECT` there is no other statement. -/
theorem readsOnly_select {conv : Conversions} {sql : Bytes} (h : ascii "SELECT" <+: sql) :
    readsOnly conv sql = true := by
  unfold readsOnly
  cases hparse : parseSql conv sql with
  | error fault => rfl
  | ok parsed =>
    dsimp only
    cases hstmt : parsed.stmt with
    | none => rfl
    | some stmt =>
      have hname := accepts_select ⟨parsed, hparse, hstmt⟩ h
      cases stmt with
      | select stmt => rfl
      | _ => simp [getOperationName, ascii] at hname

theorem permitted_outside {a : AuthManager} {now : Timestamp} {token operation : Bytes}
    (h : (a.roleOf now token).all outside = true)
    (hpermitted : permitted a now token operation = true) : ascii "SELECT" <+: operation := by
  unfold permitted at hpermitted
  rw [checkPermission_fst, Option.any_eq_true] at hpermitted
  obtain ⟨role, hrole, hpermits⟩ := hpermitted
  rw [hrole, Option.all_some] at h
  rw [permits_outside h] at hpermits
  exact opStarts_iff.mp hpermits

/-- **Viewers and strangers can only read**, whatever they ask for. -/
theorem outsider_silent {s : Service Loc} {call : CallEnv × Request}
    (h : outsider s call = true) : silent w s call = true := by
  obtain ⟨env, request⟩ := call
  unfold outsider at h
  unfold silent
  cases request with
  | query token sql =>
    dsimp only [Request.token?] at h ⊢
    rw [Option.any_some] at h
    cases hpermitted : permitted s.auth env.auth.now token sql with
    | false => rfl
    | true => exact readsOnly_select (permitted_outside h hpermitted)
  | insert request =>
    dsimp only [Request.token?] at h ⊢
    rw [Option.any_some] at h
    cases hpermitted : permitted s.auth env.auth.now request.token (ascii "INSERT") with
    | false => rfl
    | true => exact absurd (permitted_outside h hpermitted) (by decide)
  | auth username password => cases h
  | admin token command =>
    dsimp only [Request.token?] at h ⊢
    rw [Option.any_some] at h
    cases hpermitted : permitted s.auth env.auth.now token (ascii "CREATE TAG") with
    | false => rfl
    | true => exact absurd (permitted_outside h hpermitted) (by decide)
  | snapshot request => rfl

/-! ## What is left of a silent call -/

/-- The service is the same from some time on. -/
def SameService (t : Int) (s s' : Service Loc) : Prop :=
  s.data = s'.data ∧ SameFrom t s.auth s'.auth

/-- A `SHOW USERS` looks at a token. -/
theorem executeShow_snd (rules : List AlarmRule) (a : AuthManager) (now : Timestamp)
    (token : Bytes) (listing : Option (List DirEntry)) (stmt : ShowStmt) :
    (executeShow rules a now token listing stmt).2
      = if stmt.type = .users then a.cleanupExpiredTokens now else a := by
  unfold executeShow
  cases stmt.type with
  | databases => rfl
  | tables => rfl
  | tags =>
    dsimp only
    split
    · rfl
    · rfl
  | users => exact getUsers_snd a now token
  | alarms => rfl

theorem sameFrom_executeShow (rules : List AlarmRule) (a : AuthManager) (now : Timestamp)
    (token : Bytes) (listing : Option (List DirEntry)) (stmt : ShowStmt) :
    SameFrom now.toInt (executeShow rules a now token listing stmt).2 a := by
  rw [executeShow_snd]
  split
  case isTrue => exact sameFrom_cleanup a now
  case isFalse => rfl

/-- A call that is let through leaves the service if what it does then leaves it. -/
theorem guarded_leaves {s : Service Loc} {now : Timestamp} {token operation : Bytes}
    {denied : Response} {handler : Service Loc → Response × Service Loc}
    (h : permitted s.auth now token operation = true →
      SameService now.toInt (handler { s with auth := s.auth.cleanupExpiredTokens now }).2
        { s with auth := s.auth.cleanupExpiredTokens now }) :
    SameService now.toInt (guarded s now token operation denied handler).2 s := by
  have hclean := sameFrom_cleanup s.auth now
  rw [guarded_eq]
  by_cases hpermitted : permitted s.auth now token operation = true
  · rw [if_pos hpermitted]
    obtain ⟨hdata, hauth⟩ := h hpermitted
    exact ⟨hdata, hauth.trans hclean⟩
  · rw [if_neg hpermitted]
    exact ⟨rfl, hclean⟩

variable [DecidableEq Loc] [LinearOrder V] [Zero V] [Add V] [Mul V] [Div V] [NatCast V] [Sub V]

/-- **A statement that reads leaves the service.** -/
theorem dispatch_reads {db token : Bytes} (s : Service Loc) {stmt : SQLStmt}
    (h : reads stmt = true) :
    SameService env.auth.now.toInt (dispatch w env db token s stmt).2 s := by
  cases stmt with
  | select stmt => exact ⟨rfl, rfl⟩
  | createTag stmt => exact ⟨rfl, rfl⟩
  | alterSystem stmt => exact ⟨rfl, rfl⟩
  | use name => exact ⟨rfl, rfl⟩
  | alterTag stmt => exact ⟨rfl, rfl⟩
  | show_ stmt => exact ⟨rfl, sameFrom_executeShow _ _ _ _ _ _⟩
  | _ => cases h

/-- An executor without a token asks for no permission. -/
theorem execute_nil (db : Bytes) (s : Service Loc) (stmt : SQLStmt) :
    execute w env db [] s stmt = dispatch w env db [] s stmt := rfl

theorem runSQL_reads (s : Service Loc) {sql : Bytes} (h : readsOnly w.conv sql = true) :
    SameService env.auth.now.toInt (runSQL w env s sql).2 s := by
  unfold runSQL
  unfold readsOnly at h
  cases hparse : parseSql w.conv sql with
  | error fault => exact ⟨rfl, rfl⟩
  | ok parsed =>
    rw [hparse] at h
    dsimp only at h ⊢
    cases hstmt : parsed.stmt with
    | none => exact ⟨rfl, rfl⟩
    | some stmt =>
      rw [hstmt] at h
      exact dispatch_reads s h

/-- One call of a run. -/
def serve (w : World Loc V) (s : Service Loc) (call : CallEnv × Request) :
    Response × Service Loc := handle w call.1 s call.2

/-- The time of a call. -/
def callTime (call : CallEnv × Request) : Int := call.1.auth.now.toInt

/-- A silent call leaves the service, but for what has expired. -/
theorem silent_leaves {s : Service Loc} {call : CallEnv × Request}
    (h : silent w s call = true) : SameService (callTime call) (serve w s call).2 s := by
  obtain ⟨env, request⟩ := call
  unfold silent at h
  unfold serve handle callTime
  cases request with
  | query token sql =>
    dsimp only at h ⊢
    refine guarded_leaves fun hpermitted => ?_
    rw [hpermitted] at h
    exact runSQL_reads _ h
  | insert request =>
    dsimp only at h ⊢
    refine guarded_leaves fun hpermitted => ?_
    rw [hpermitted] at h
    have hnil : request.points = [] := List.isEmpty_iff.mp h
    dsimp only
    rw [hnil]
    exact ⟨rfl, rfl⟩
  | auth username password =>
    dsimp only at h ⊢
    rw [login_refused ((Bool.not_eq_true' _).mp h)]
    exact ⟨rfl, rfl⟩
  | admin token command =>
    dsimp only at h ⊢
    refine guarded_leaves fun hpermitted => ?_
    rw [hpermitted] at h
    exact runSQL_reads _ h
  | snapshot request =>
    dsimp only
    have hsame := sameFrom_validateToken s.auth env.auth.now request.token
    generalize s.auth.validateToken env.auth.now request.token = validated at hsame ⊢
    obtain ⟨user, a⟩ := validated
    cases user with
    | none => exact ⟨rfl, hsame⟩
    | some user => exact ⟨rfl, hsame⟩

/-- What has expired by the time of a call is not seen by it. -/
theorem serve_same {s s' : Service Loc} {call : CallEnv × Request}
    (h : SameService (callTime call) s s') :
    (serve w s call).1 = (serve w s' call).1 ∧
      SameService (callTime call) (serve w s call).2 (serve w s' call).2 := by
  obtain ⟨d, a⟩ := s
  obtain ⟨d', a'⟩ := s'
  obtain ⟨rfl, hauth⟩ := h
  obtain ⟨env, request⟩ := call
  unfold serve handle
  cases request with
  | query token sql =>
    dsimp only [guarded]
    rw [hauth.checkPermission]
    exact ⟨rfl, rfl, rfl⟩
  | insert request =>
    dsimp only [guarded]
    rw [hauth.checkPermission]
    exact ⟨rfl, rfl, rfl⟩
  | auth username password =>
    -- the one call that changes the accounts' sessions without having looked at a token
    obtain ⟨htoken, hsame⟩ := hauth.login username password
    dsimp only
    generalize a.login env.auth username password = login at htoken hsame ⊢
    generalize a'.login env.auth username password = login' at htoken hsame ⊢
    obtain ⟨token, b⟩ := login
    obtain ⟨token', b'⟩ := login'
    dsimp only at htoken hsame
    subst htoken
    cases token with
    | nil => exact ⟨rfl, rfl, hsame⟩
    | cons c token =>
      dsimp only
      rw [hsame.validateToken]
      exact ⟨rfl, rfl, rfl⟩
  | admin token command =>
    dsimp only [guarded]
    rw [hauth.checkPermission]
    exact ⟨rfl, rfl, rfl⟩
  | snapshot request =>
    dsimp only
    rw [hauth.validateToken]
    exact ⟨rfl, rfl, rfl⟩

theorem unnoticed (w : World Loc V) : Unnoticed (serve w) (silent w) callTime SameService where
  later hle h := ⟨h.1, h.2.later hle⟩
  answered h := (serve_same h).1
  stepped h := (serve_same h).2
  quiet hsilent h :=
    ⟨(silent_leaves hsilent).1.trans h.1, (silent_leaves hsilent).2.trans h.2⟩

/-- **Silent calls are not noticed**: take them out of any run, and every other call gets the
response it got, and the service ends with the same data, accounts and live sessions. -/
theorem silent_unnoticed (w : World Loc V) (s : Service Loc) {t : Int}
    {calls : List (CallEnv × Request)} (htimes : TimesFrom callTime t calls) :
    loudAnswers (serve w) (silent w) s calls
        = answers (serve w) s (purge (serve w) (silent w) s calls) ∧
      SameService (lastTimeOf callTime t calls) (runTo (serve w) s calls)
        (runTo (serve w) s (purge (serve w) (silent w) s calls)) :=
  (unnoticed w).purge htimes ⟨rfl, rfl⟩

theorem silent_unnoticed_demo :
    (purge (serve plainWorld) (silent plainWorld) plainService demoCalls).length = 3 ∧
      loudAnswers (serve plainWorld) (silent plainWorld) plainService demoCalls
        = answers (serve plainWorld) plainService
            (purge (serve plainWorld) (silent plainWorld) plainService demoCalls) ∧
      SameService (lastTimeOf callTime 0 demoCalls)
        (runTo (serve plainWorld) plainService demoCalls)
        (runTo (serve plainWorld) plainService
          (purge (serve plainWorld) (silent plainWorld) plainService demoCalls)) :=
  ⟨by decide, silent_unnoticed plainWorld plainService
    ⟨by decide, by decide, by decide, by decide, trivial⟩⟩

/-! ## A run of viewers -/

/-- A login leaves the data and the accounts. -/
theorem serve_auth_leaves (w : World Loc V) (s : Service Loc) (env : CallEnv)
    (username password : Bytes) :
    (serve w s (env, .auth username password)).2.data = s.data ∧
      (serve w s (env, .auth username password)).2.auth.users = s.auth.users := by
  have husers : (s.auth.login env.auth username password).2.users = s.auth.users := by
    rw [login_eq]
    split
    · rfl
    · rfl
  unfold serve handle
  dsimp only
  generalize s.auth.login env.auth username password = login at husers
  obtain ⟨token, a⟩ := login
  cases token with
  | nil => exact ⟨rfl, husers⟩
  | cons c token =>
    dsimp only
    rw [validateToken_eq]
    exact ⟨rfl, husers⟩

/-- **Viewers and strangers change nothing**: in a run in which at each call the token, if it shows
one, is no administrator's and no operator's, the data and the accounts stay as they are. -/
theorem outsiders_change_nothing (w : World Loc V) {s : Service Loc}
    {calls : List (CallEnv × Request)}
    (h : ∀ front call, front ++ [call] <+: calls →
      call.2.token? = none ∨ outsider (runTo (serve w) s front) call = true) :
    (runTo (serve w) s calls).data = s.data ∧
      (runTo (serve w) s calls).auth.users = s.auth.users := by
  induction calls using List.reverseRecOn with
  | nil => exact ⟨rfl, rfl⟩
  | append_singleton calls call ih =>
    obtain ⟨hdata, husers⟩ :=
      ih fun front last hfront => h front last (hfront.trans (List.prefix_append _ _))
    rw [runTo_concat, ← hdata, ← husers]
    rcases h calls call (List.prefix_refl _) with hnone | houtsider
    · obtain ⟨env, request⟩ := call
      cases request with
      | auth username password => exact serve_auth_leaves w _ env username password
      | _ => cases hnone
    · have hleaves := silent_leaves (w := w) (outsider_silent houtsider)
      exact ⟨hleaves.1, hleaves.2.users⟩

/-- A stranger tries to drop a database, and to log in with a password that is not his. -/
def dropCall : CallEnv × Request :=
  (callAt 1 (ascii "t"), .query (ascii "z") (ascii "DROP DATABASE d"))

def loginCall : CallEnv × Request := (callAt 2 (ascii "u"), .auth (ascii "admin") (ascii "x"))

def strangerCalls : List (CallEnv × Request) := [] ++ [dropCall] ++ [loginCall]

theorem strangers_change_nothing :
    (runTo (serve plainWorld) plainService strangerCalls).data = plainService.data ∧
      (runTo (serve plainWorld) plainService strangerCalls).auth.users
        = plainService.auth.users := by
  refine outsiders_change_nothing plainWorld fun front call hfront => ?_
  unfold strangerCalls at hfront
  rcases concat_prefix_concat.mp hfront with ⟨rfl, rfl⟩ | hfront
  · exact .inl rfl
  rcases concat_prefix_concat.mp hfront with ⟨rfl, rfl⟩ | hfront
  · exact .inr (by decide)
  · exact absurd hfront.length_le (by simp)

end Server
end MiniTSDB
