import MiniTSDB.Auth.LastAdmin
import MiniTSDB.Auth.Sessions
import MiniTSDB.Server.Silent

/-!
# The accounts behind the service

What a call of the service does to the accounts is some calls of `AuthManager`, one after the other
(`auth_serve`), so what holds over their runs holds here. The executor of a call has no token, and no
session is filed under the empty one: nobody can drop or alter an account by a statement. Accounts
are only ever added (`accounts_of_run`), and there is an administrator throughout.

A token passes only if a login returned it not too long ago, or if it is the one that the service
took for itself to create an account (`sessions_of_run`).
-/

namespace MiniTSDB
namespace Server

open Lib Os Storage Sql Auth Alarm Snapshot

variable {Loc V : Type}

/-! ## What is asked of the accounts -/

/-- What a statement asks of the accounts, by an executor without a token. -/
def statementCalls (a : AuthManager) (env : AuthEnv) : SQLStmt → List AuthCall
  | .createUser stmt =>
    [.adminLogin,
      .change (.create (a.adminLogin env).1 stmt.username stmt.password
        (roleNamed stmt.role).toByte)]
  | .dropUser username => [.change (.drop [] username)]
  | .alterUser stmt => [.change (.alter [] stmt.name stmt.property stmt.value)]
  | .show_ stmt => if stmt.type = .users then [.getUsers []] else []
  | _ => []

/-- What a text asks of them. -/
def textCalls (conv : Conversions) (a : AuthManager) (env : AuthEnv) (sql : Bytes) :
    List AuthCall :=
  match parseSql conv sql with
  | .error _ => []
  | .ok parsed => (parsed.stmt.map (statementCalls a env)).getD []

/-- What a text asks of them behind its permission. -/
def checkedCalls (conv : Conversions) (a : AuthManager) (env : AuthEnv)
    (token operation sql : Bytes) : List AuthCall :=
  .checkPermission token operation ::
    match a.checkPermission env.now token operation with
    | (false, _) => []
    | (true, a) => textCalls conv a env sql

/-- What a call of the service asks of them. -/
def authCalls (w : World Loc V) (s : Service Loc) (call : CallEnv × Request) : List AuthCall :=
  match call.2 with
  | .query token sql => checkedCalls w.conv s.auth call.1.auth token sql sql
  | .insert request => [.checkPermission request.token (ascii "INSERT")]
  | .auth username password =>
    .login username password ::
      match (s.auth.login call.1.auth username password).1 with
      | [] => []
      | token => [.validateToken token]
  | .admin token command =>
    checkedCalls w.conv s.auth call.1.auth token (ascii "CREATE TAG") command
  | .snapshot request => [.validateToken request.token]

/-- The same calls with what they get from outside. -/
def within (env : AuthEnv) (calls : List AuthCall) : List (AuthEnv × AuthCall) :=
  calls.map fun call => (env, call)

/-- A role of `CREATE USER` is one of the three. -/
theorem ofByte_roleNamed (role : Bytes) :
    UserRole.ofByte (roleNamed role).toByte = roleNamed role := by
  unfold roleNamed
  dsimp only
  split
  · rfl
  · split
    · rfl
    · rfl

/-! ## Accounts are only added -/

/-- The statement is let through, and executed. -/
def Runs (w : World Loc V) (s : Service Loc) (call : CallEnv × Request) (stmt : SQLStmt) : Prop :=
  match call.2 with
  | .query token sql => permitted s.auth call.1.auth.now token sql = true ∧ Accepts w.conv sql stmt
  | .admin token command =>
    permitted s.auth call.1.auth.now token (ascii "CREATE TAG") = true ∧
      Accepts w.conv command stmt
  | _ => False

/-- The call adds to the accounts, or asks to change them with the empty token. -/
def Adds : AuthCall → Prop
  | .change (.drop token _) => token = []
  | .change (.alter token _ _ _) => token = []
  | _ => True

/-- A call that is no login. -/
def NoLogin : AuthCall → Prop
  | .login _ _ => False
  | .setTokenExpiry _ => False
  | _ => True

theorem roleOf_nil {a : AuthManager} (hnil : a.tokens.lookup [] = none) (now : Timestamp) :
    (a.validateToken now []).1 = none := by
  rw [validateToken_eq]
  have hgone : (a.cleanupExpiredTokens now).tokens.lookup [] = none := by
    rw [Option.eq_none_iff_forall_ne_some]
    intro session hsession
    rw [lookup_cleanup, hnil] at hsession
    cases hsession.1
  rw [hgone]
  rfl

/-- What is granted to a call that adds is that it creates an account. -/
theorem Adds.granted {a : AuthManager} {env : AuthEnv} {c : UserChange}
    (hnil : a.tokens.lookup [] = none) (hadds : Adds (.change c)) (h : Granted a env c) :
    ∃ token username password role, c = .create token username password role ∧
      a.users.lookup username = none := by
  cases c with
  | create token username password role => exact ⟨token, username, password, role, rfl, h.2⟩
  | drop token username =>
    obtain ⟨requester, -, hrequester, -⟩ := h
    rw [show token = [] from hadds, roleOf_nil hnil] at hrequester
    cases hrequester
  | alter token username property value =>
    obtain ⟨requester, hrequester, -⟩ := roleOf_eq_some.mp h.1
    rw [show token = [] from hadds, roleOf_nil hnil] at hrequester
    cases hrequester

/-- One call keeps every account, and an account that comes with it is one that it creates. -/
theorem users_adds {a : AuthManager} (env : AuthEnv) {call : AuthCall}
    (hnil : a.tokens.lookup [] = none) (hadds : Adds call) :
    (∀ name user, a.users.lookup name = some user →
      (a.call env call).users.lookup name = some user) ∧
    ∀ name user, (a.call env call).users.lookup name = some user →
      a.users.lookup name = some user ∨
        ∃ token password role, call = .change (.create token name password role) ∧
          user = newUser env name password (.ofByte role) := by
  by_cases hchange : ∃ c, call = .change c ∧ Granted a env c
  · obtain ⟨c, rfl, hgranted⟩ := hchange
    obtain ⟨token, username, password, role, rfl, hfree⟩ := hadds.granted hnil hgranted
    rw [users_of_granted hgranted, applied]
    constructor
    · intro name user huser
      have hne : name ≠ username := by
        rintro rfl
        rw [hfree] at huser
        cases huser
      rwa [AList.lookup_insert_ne hne]
    · intro name user huser
      by_cases hname : name = username
      · subst hname
        rw [AList.lookup_insert] at huser
        exact .inr ⟨token, password, role, rfl, (Option.some.inj huser).symm⟩
      · rw [AList.lookup_insert_ne hname] at huser
        exact .inl huser
  · have hsame : (a.call env call).users = a.users :=
      users_of_not_granted fun c hc hgranted => hchange ⟨c, hc, hgranted⟩
    rw [hsame]
    exact ⟨fun _ _ h => h, fun _ _ h => .inl h⟩

theorem lookup_nil_call {a : AuthManager} {env : AuthEnv} (call : AuthCall) (htoken : env.token ≠ [])
    (hnil : a.tokens.lookup [] = none) : (a.call env call).tokens.lookup [] = none := by
  rw [Option.eq_none_iff_forall_ne_some]
  intro session hsession
  rw [lookup_tokens_call (fun _ => htoken) hsession] at hnil
  cases hnil

/-- What some calls leave that only add. -/
theorem users_runCalls (env : AuthEnv) (htoken : env.token ≠ []) {calls : List AuthCall}
    (hadds : ∀ call ∈ calls, Adds call) {a : AuthManager} (hnil : a.tokens.lookup [] = none) :
    (a.runCalls (within env calls)).tokens.lookup [] = none ∧
    (∀ name user, a.users.lookup name = some user →
      (a.runCalls (within env calls)).users.lookup name = some user) ∧
    ∀ name user, (a.runCalls (within env calls)).users.lookup name = some user →
      a.users.lookup name = some user ∨
        ∃ token password role, .change (.create token name password role) ∈ calls ∧
          user = newUser env name password (.ofByte role) := by
  induction calls generalizing a with
  | nil => exact ⟨hnil, fun _ _ h => h, fun _ _ h => .inl h⟩
  | cons call calls ih =>
    obtain ⟨hfirst, hrest⟩ := List.forall_mem_cons.mp hadds
    obtain ⟨hkeeps, hnew⟩ := users_adds env hnil hfirst
    obtain ⟨hnil', hkeeps', hnew'⟩ := ih hrest (lookup_nil_call call htoken hnil)
    refine ⟨hnil', fun name user huser => hkeeps' name user (hkeeps name user huser), ?_⟩
    intro name user huser
    rcases hnew' name user huser with hbefore | ⟨token, password, role, hmem, huser⟩
    · rcases hnew name user hbefore with hbefore | ⟨token, password, role, hcall, huser⟩
      · exact .inl hbefore
      · exact .inr ⟨token, password, role, hcall ▸ List.mem_cons_self, huser⟩
    · exact .inr ⟨token, password, role, List.mem_cons_of_mem _ hmem, huser⟩

/-- What a statement can ask for. -/
theorem mem_statementCalls {a : AuthManager} {env : AuthEnv} {stmt : SQLStmt} {call : AuthCall}
    (h : call ∈ statementCalls a env stmt) :
    (∃ user, stmt = .createUser user ∧ (call = .adminLogin ∨
        call = .change (.create (a.adminLogin env).1 user.username user.password
          (roleNamed user.role).toByte))) ∨
      (∃ username, call = .change (.drop [] username)) ∨
      (∃ name property value, call = .change (.alter [] name property value)) ∨
      call = .getUsers [] := by
  cases stmt with
  | createUser user =>
    rcases List.mem_cons.mp h with h | h
    · exact .inl ⟨user, rfl, .inl h⟩
    · exact .inl ⟨user, rfl, .inr (List.mem_singleton.mp h)⟩
  | dropUser username => exact .inr (.inl ⟨username, List.mem_singleton.mp h⟩)
  | alterUser stmt => exact .inr (.inr (.inl ⟨_, _, _, List.mem_singleton.mp h⟩))
  | show_ stmt =>
    change call ∈ (if stmt.type = .users then [.getUsers []] else []) at h
    split at h
    · exact .inr (.inr (.inr (List.mem_singleton.mp h)))
    · cases h
  | _ => cases h

theorem adds_statementCalls (a : AuthManager) (env : AuthEnv) (stmt : SQLStmt) :
    ∀ call ∈ statementCalls a env stmt, Adds call := by
  intro call hcall
  rcases mem_statementCalls hcall with
    ⟨_, -, rfl | rfl⟩ | ⟨_, rfl⟩ | ⟨_, _, _, rfl⟩ | rfl
  · exact trivial
  · exact trivial
  · exact rfl
  · exact rfl
  · exact trivial

theorem noLogin_statementCalls (a : AuthManager) (env : AuthEnv) (stmt : SQLStmt) :
    ∀ call ∈ statementCalls a env stmt, NoLogin call := by
  intro call hcall
  rcases mem_statementCalls hcall with
    ⟨_, -, rfl | rfl⟩ | ⟨_, rfl⟩ | ⟨_, _, _, rfl⟩ | rfl
  all_goals exact trivial

/-- Only a `CREATE USER` logs in as the administrator. -/
theorem createUser_of_adminLogin {a : AuthManager} {env : AuthEnv} {stmt : SQLStmt}
    (h : .adminLogin ∈ statementCalls a env stmt) : ∃ user, stmt = .createUser user := by
  rcases mem_statementCalls h with ⟨user, hstmt, -⟩ | ⟨_, heq⟩ | ⟨_, _, _, heq⟩ | heq
  · exact ⟨user, hstmt⟩
  all_goals cases heq

theorem mem_textCalls {conv : Conversions} {a : AuthManager} {env : AuthEnv} {sql : Bytes}
    {call : AuthCall} (h : call ∈ textCalls conv a env sql) :
    ∃ stmt, Accepts conv sql stmt ∧ call ∈ statementCalls a env stmt := by
  unfold textCalls at h
  cases hparse : parseSql conv sql with
  | error fault =>
    rw [hparse] at h
    cases h
  | ok parsed =>
    rw [hparse] at h
    dsimp only at h
    cases hstmt : parsed.stmt with
    | none =>
      rw [hstmt] at h
      cases h
    | some stmt =>
      rw [hstmt] at h
      exact ⟨stmt, ⟨parsed, hparse, hstmt⟩, h⟩

/-- Behind a permission there is what the text asks for. -/
theorem mem_checkedCalls {conv : Conversions} {a : AuthManager} {env : AuthEnv}
    {token operation sql : Bytes} {call : AuthCall}
    (h : call ∈ checkedCalls conv a env token operation sql) :
    call = .checkPermission token operation ∨
      ∃ stmt a', permitted a env.now token operation = true ∧ Accepts conv sql stmt ∧
        call ∈ statementCalls a' env stmt := by
  unfold checkedCalls at h
  rcases List.mem_cons.mp h with rfl | h
  · exact .inl rfl
  · right
    rw [checkPermission_eq] at h
    cases hpermitted : permitted a env.now token operation with
    | false =>
      rw [hpermitted] at h
      cases h
    | true =>
      rw [hpermitted] at h
      obtain ⟨stmt, haccepts, hmem⟩ := mem_textCalls h
      exact ⟨stmt, _, rfl, haccepts, hmem⟩

/-- What a call of the service asks for, but for looking at tokens and a login: what a statement does
that it runs. -/
theorem mem_authCalls {w : World Loc V} {s : Service Loc} {call : CallEnv × Request} {c : AuthCall}
    (h : c ∈ authCalls w s call) :
    (∃ token operation, c = .checkPermission token operation) ∨ (∃ token, c = .validateToken token) ∨
      (∃ username password, call.2 = .auth username password ∧ c = .login username password) ∨
        ∃ stmt a, Runs w s call stmt ∧ c ∈ statementCalls a call.1.auth stmt := by
  obtain ⟨env, request⟩ := call
  unfold authCalls at h
  cases request with
  | query token sql =>
    rcases mem_checkedCalls h with rfl | ⟨stmt, a, hpermitted, haccepts, hmem⟩
    · exact .inl ⟨token, sql, rfl⟩
    · exact .inr (.inr (.inr ⟨stmt, a, ⟨hpermitted, haccepts⟩, hmem⟩))
  | insert request => exact .inl ⟨_, _, List.mem_singleton.mp h⟩
  | auth username password =>
    rcases List.mem_cons.mp h with rfl | h
    · exact .inr (.inr (.inl ⟨username, password, rfl, rfl⟩))
    · split at h
      · cases h
      · exact .inr (.inl ⟨_, List.mem_singleton.mp h⟩)
  | admin token command =>
    rcases mem_checkedCalls h with rfl | ⟨stmt, a, hpermitted, haccepts, hmem⟩
    · exact .inl ⟨token, _, rfl⟩
    · exact .inr (.inr (.inr ⟨stmt, a, ⟨hpermitted, haccepts⟩, hmem⟩))
  | snapshot request => exact .inr (.inl ⟨_, List.mem_singleton.mp h⟩)

theorem adds_authCalls (w : World Loc V) (s : Service Loc) (call : CallEnv × Request) :
    ∀ c ∈ authCalls w s call, Adds c := by
  intro c hc
  rcases mem_authCalls hc with ⟨_, _, rfl⟩ | ⟨_, rfl⟩ | ⟨_, _, -, rfl⟩ | ⟨stmt, a, -, hmem⟩
  · exact trivial
  · exact trivial
  · exact trivial
  · exact adds_statementCalls a call.1.auth stmt c hmem

/-- An account is created by a `CREATE USER` of its name. -/
theorem create_mem_authCalls {w : World Loc V} {s : Service Loc} {call : CallEnv × Request}
    {token name password : Bytes} {role : UInt8}
    (h : .change (.create token name password role) ∈ authCalls w s call) :
    ∃ stmt, Runs w s call (.createUser stmt) ∧ stmt.username = name ∧ stmt.password = password ∧
      UserRole.ofByte role = roleNamed stmt.role := by
  rcases mem_authCalls h with ⟨_, _, heq⟩ | ⟨_, heq⟩ | ⟨_, _, -, heq⟩ | ⟨stmt, a, hruns, hmem⟩
  · cases heq
  · cases heq
  · cases heq
  · rcases mem_statementCalls hmem with
      ⟨user, rfl, heq | heq⟩ | ⟨_, heq⟩ | ⟨_, _, _, heq⟩ | heq
    · cases heq
    · cases heq
      exact ⟨user, hruns, rfl, rfl, ofByte_roleNamed user.role⟩
    all_goals cases heq

/-! ## The calls of a call -/

variable [DecidableEq Loc] [LinearOrder V] [Zero V] [Add V] [Mul V] [Div V] [NatCast V] [Sub V]
  {w : World Loc V} {env : CallEnv}

theorem auth_dispatch (db : Bytes) (s : Service Loc) (stmt : SQLStmt) :
    (dispatch w env db [] s stmt).2.auth
      = s.auth.runCalls (within env.auth (statementCalls s.auth env.auth stmt)) := by
  cases stmt with
  | createUser stmt =>
    show (executeCreateUser s.auth env.auth stmt).2
      = ((s.auth.adminLogin env.auth).2.createUser env.auth (s.auth.adminLogin env.auth).1
          stmt.username stmt.password (.ofByte (roleNamed stmt.role).toByte)).2
    rw [ofByte_roleNamed]
    rfl
  | dropUser username => rfl
  | alterUser stmt => rfl
  | show_ stmt =>
    show (executeShow s.data.alarms.rules s.auth env.auth.now [] env.listing stmt).2 = _
    rw [executeShow_snd, statementCalls]
    split
    case isTrue => exact (getUsers_snd s.auth env.auth.now []).symm
    case isFalse => rfl
  | insert stmt => rfl
  | select stmt => rfl
  | createTag stmt => rfl
  | createAlarm stmt => rfl
  | alterSystem stmt => rfl
  | dropTag stmt => rfl
  | dropAlarm name => rfl
  | dropTable name => rfl
  | dropDatabase name => rfl
  | createDatabase name => rfl
  | use name => rfl
  | createTable stmt => rfl
  | createTags stmt => rfl
  | alterTag stmt => rfl
  | alterAlarm stmt => rfl
  | delete stmt => rfl
  | update stmt => rfl

theorem auth_runSQL (s : Service Loc) (sql : Bytes) :
    (runSQL w env s sql).2.auth
      = s.auth.runCalls (within env.auth (textCalls w.conv s.auth env.auth sql)) := by
  unfold runSQL textCalls
  cases parseSql w.conv sql with
  | error fault => rfl
  | ok parsed =>
    dsimp only
    cases parsed.stmt with
    | none => rfl
    | some stmt => exact auth_dispatch [] s stmt

/-- What a text that asks for a permission does to the accounts. -/
theorem auth_checked (s : Service Loc) (env : CallEnv) (token operation sql : Bytes)
    (denied : Response) {respond : InsertOutcome → Response} :
    (guarded s env.auth.now token operation denied fun s =>
        let (ending, s) := runSQL w env s sql
        (respond ending, s)).2.auth
      = s.auth.runCalls (within env.auth
          (checkedCalls w.conv s.auth env.auth token operation sql)) := by
  have hfirst : ∀ calls, s.auth.runCalls (within env.auth (.checkPermission token operation :: calls))
      = (s.auth.cleanupExpiredTokens env.auth.now).runCalls (within env.auth calls) := by
    intro calls
    show (s.auth.checkPermission env.auth.now token operation).2.runCalls _ = _
    rw [checkPermission_eq]
    rfl
  rw [checkedCalls, hfirst, guarded_eq, checkPermission_eq]
  cases permitted s.auth env.auth.now token operation with
  | false => rfl
  | true => exact auth_runSQL _ sql

/-- **What a call of the service does to the accounts is what its calls of `AuthManager` do.** -/
theorem auth_serve (w : World Loc V) (s : Service Loc) (call : CallEnv × Request) :
    (serve w s call).2.auth = s.auth.runCalls (within call.1.auth (authCalls w s call)) := by
  obtain ⟨env, request⟩ := call
  unfold serve handle authCalls
  cases request with
  | query token sql => exact auth_checked s env token sql sql _
  | insert request =>
    show _ = (s.auth.checkPermission env.auth.now request.token (ascii "INSERT")).2
    dsimp only
    rw [guarded_eq, checkPermission_eq]
    split
    · rfl
    · rfl
  | auth username password =>
    dsimp only
    show _ = AuthManager.runCalls (s.auth.login env.auth username password).2 _
    generalize s.auth.login env.auth username password = login
    obtain ⟨token, a⟩ := login
    cases token with
    | nil => rfl
    | cons c token => rfl
  | admin token command => exact auth_checked s env token (ascii "CREATE TAG") command _
  | snapshot request =>
    dsimp only
    show _ = (s.auth.validateToken env.auth.now request.token).2
    generalize s.auth.validateToken env.auth.now request.token = validated
    obtain ⟨user, a⟩ := validated
    cases user with
    | none => rfl
    | some user => rfl

/-! ## Runs -/

/-- Nothing is filed under the empty token. -/
theorem lookup_nil_run (w : World Loc V) {s : Service Loc} (hnil : s.auth.tokens.lookup [] = none)
    {calls : List (CallEnv × Request)} (htokens : ∀ call ∈ calls, call.1.auth.token ≠ []) :
    (runTo (serve w) s calls).auth.tokens.lookup [] = none := by
  induction calls using List.reverseRecOn with
  | nil => exact hnil
  | append_singleton calls call ih =>
    rw [List.forall_mem_append, List.forall_mem_singleton] at htokens
    rw [runTo_concat, auth_serve]
    exact (users_runCalls _ htokens.2 (adds_authCalls _ _ _) (ih htokens.1)).1

/-- An account of this name is created by the call. -/
def Creates (w : World Loc V) (s : Service Loc) (call : CallEnv × Request) (name : Bytes)
    (user : User) : Prop :=
  ∃ stmt, Runs w s call (.createUser stmt) ∧ stmt.username = name ∧
    user = newUser call.1.auth name stmt.password (roleNamed stmt.role)

/-- **Accounts are only ever added.** Whatever is asked of the service, an account stays as it is,
its password and its role too; and one that was not there has been made by a `CREATE USER` that was
let through. -/
theorem accounts_of_run (w : World Loc V) {s : Service Loc}
    (hnil : s.auth.tokens.lookup [] = none) {calls : List (CallEnv × Request)}
    (htokens : ∀ call ∈ calls, call.1.auth.token ≠ []) :
    (∀ name user, s.auth.users.lookup name = some user →
      (runTo (serve w) s calls).auth.users.lookup name = some user) ∧
    ∀ name user, (runTo (serve w) s calls).auth.users.lookup name = some user →
      s.auth.users.lookup name = some user ∨
        ∃ front call, front ++ [call] <+: calls ∧
          Creates w (runTo (serve w) s front) call name user := by
  induction calls using List.reverseRecOn with
  | nil => exact ⟨fun _ _ h => h, fun _ _ h => .inl h⟩
  | append_singleton calls call ih =>
    rw [List.forall_mem_append, List.forall_mem_singleton] at htokens
    obtain ⟨hkeeps, hnew⟩ := ih htokens.1
    obtain ⟨-, hkeeps', hnew'⟩ :=
      users_runCalls call.1.auth htokens.2 (adds_authCalls w (runTo (serve w) s calls) call)
        (lookup_nil_run w hnil htokens.1)
    rw [runTo_concat, auth_serve]
    refine ⟨fun name user huser => hkeeps' name user (hkeeps name user huser), ?_⟩
    intro name user huser
    rcases hnew' name user huser with hbefore | ⟨token, password, role, hmem, rfl⟩
    · rcases hnew name user hbefore with hbefore | ⟨front, last, hfront, hcreates⟩
      · exact .inl hbefore
      · exact .inr ⟨front, last, hfront.trans (List.prefix_append _ _), hcreates⟩
    · obtain ⟨stmt, hruns, hname, rfl, hrole⟩ := create_mem_authCalls hmem
      rw [hrole]
      exact .inr ⟨calls, call, List.prefix_refl _, stmt, hruns, hname, rfl⟩

/-! ## Where sessions come from -/

theorem tokens_login {a : AuthManager} {env : AuthEnv} {username password token : Bytes}
    {session : SessionToken}
    (h : (a.login env username password).2.tokens.lookup token = some session) :
    a.tokens.lookup token = some session ∨ (token = env.token ∧
      session.expiresAt = env.now + a.tokenExpirySec ∧
        a.admits env username password = true ∧ session.username = username) := by
  by_cases hadmits : a.admits env username password = true
  · have hmatch := hadmits
    rw [AuthManager.admits, Option.any_eq_true] at hmatch
    obtain ⟨user, huser, hmatch⟩ := hmatch
    have hfound : (a.users.lookup username).filter (fun user =>
        user.active && user.passwordHash = env.hashPassword password user.salt) = some user := by
      rw [Option.filter_eq_some_iff]
      exact ⟨huser, hmatch⟩
    rw [login_eq, hfound] at h
    by_cases htoken : token = env.token
    · subst htoken
      rw [AList.lookup_insert] at h
      cases h
      exact .inr ⟨rfl, rfl, hadmits, rfl⟩
    · rw [AList.lookup_insert_ne htoken] at h
      exact .inl (lookup_cleanup.mp h).1
  · rw [login_refused (Bool.eq_false_iff.mpr hadmits)] at h
    exact .inl h

theorem tokens_adminLogin {a : AuthManager} {env : AuthEnv} {token : Bytes}
    {session : SessionToken} (h : (a.adminLogin env).2.tokens.lookup token = some session) :
    a.tokens.lookup token = some session ∨ (token = env.token ∧
      session.expiresAt = env.now + a.tokenExpirySec ∧ session.username = ascii "admin") := by
  unfold AuthManager.adminLogin at h
  split at h
  case h_1 => exact .inl h
  case h_2 =>
    split at h
    case isTrue => exact .inl h
    case isFalse =>
      by_cases htoken : token = env.token
      · subst htoken
        rw [AList.lookup_insert] at h
        cases h
        exact .inr ⟨rfl, rfl, rfl⟩
      · rw [AList.lookup_insert_ne htoken] at h
        exact .inl (lookup_cleanup.mp h).1

/-- A session after a call that is no login was there before, or it is the administrator's. -/
theorem tokens_call {a : AuthManager} {env : AuthEnv} {call : AuthCall} (hcall : NoLogin call)
    {token : Bytes} {session : SessionToken}
    (h : (a.call env call).tokens.lookup token = some session) :
    a.tokens.lookup token = some session ∨ (call = .adminLogin ∧ token = env.token ∧
      session.expiresAt = env.now + a.tokenExpirySec ∧ session.username = ascii "admin") := by
  by_cases hadmin : call = .adminLogin
  · subst hadmin
    exact (tokens_adminLogin h).imp id fun hmade => ⟨rfl, hmade⟩
  · -- no other call takes a token
    refine .inl (lookup_tokens_call (fun hgenerates => ?_) h)
    cases call with
    | login username password => exact hcall.elim
    | adminLogin => exact absurd rfl hadmin
    | validateToken shown => cases hgenerates
    | checkPermission shown operation => cases hgenerates
    | change c => cases hgenerates
    | getUsers shown => cases hgenerates
    | setTokenExpiry seconds => cases hgenerates

theorem tokenExpirySec_call {a : AuthManager} {env : AuthEnv} {call : AuthCall}
    (hcall : ∀ seconds, call ≠ .setTokenExpiry seconds) :
    (a.call env call).tokenExpirySec = a.tokenExpirySec := by
  cases call with
  | login username password =>
    rw [AuthManager.call, login_eq]
    split
    · rfl
    · rfl
  | adminLogin =>
    rw [AuthManager.call, AuthManager.adminLogin]
    split
    · rfl
    · split
      · rfl
      · rfl
  | validateToken token => rw [AuthManager.call, validateToken_snd]; rfl
  | checkPermission token operation =>
    rw [AuthManager.call, checkPermission_snd, validateToken_snd]
    rfl
  | change c =>
    rw [AuthManager.call]
    by_cases hgranted : Granted a env c
    · rw [change_granted hgranted]
      rfl
    · rw [(change_refused hgranted).1]
      rfl
  | getUsers token => rw [AuthManager.call, getUsers_snd]; rfl
  | setTokenExpiry seconds => exact absurd rfl (hcall seconds)

theorem tokenExpirySec_runCalls {env : AuthEnv} {calls : List AuthCall}
    (hcalls : ∀ call ∈ calls, ∀ seconds, call ≠ .setTokenExpiry seconds) (a : AuthManager) :
    (a.runCalls (within env calls)).tokenExpirySec = a.tokenExpirySec := by
  induction calls generalizing a with
  | nil => rfl
  | cons call calls ih =>
    obtain ⟨hfirst, hrest⟩ := List.forall_mem_cons.mp hcalls
    exact (ih hrest (a.call env call)).trans (tokenExpirySec_call hfirst)

theorem tokens_runCalls {env : AuthEnv} {calls : List AuthCall}
    (hcalls : ∀ call ∈ calls, NoLogin call) {a : AuthManager} {token : Bytes}
    {session : SessionToken}
    (h : (a.runCalls (within env calls)).tokens.lookup token = some session) :
    a.tokens.lookup token = some session ∨ (.adminLogin ∈ calls ∧ token = env.token ∧
      session.expiresAt = env.now + a.tokenExpirySec ∧ session.username = ascii "admin") := by
  induction calls generalizing a with
  | nil => exact .inl h
  | cons call calls ih =>
    obtain ⟨hfirst, hrest⟩ := List.forall_mem_cons.mp hcalls
    rcases ih hrest h with hbefore | ⟨hmem, htoken, hexpiry, hname⟩
    · rcases tokens_call hfirst hbefore with hbefore | ⟨hadmin, hmade⟩
      · exact .inl hbefore
      · exact .inr ⟨hadmin ▸ List.mem_cons_self, hmade⟩
    · have hsame : (a.call env call).tokenExpirySec = a.tokenExpirySec :=
        tokenExpirySec_call fun seconds hset => by
          rw [hset] at hfirst
          exact hfirst
      rw [hsame] at hexpiry
      exact .inr ⟨List.mem_cons_of_mem _ hmem, htoken, hexpiry, hname⟩

/-- The call is a login with the password of the account, and its response is the token. -/
def LogsIn (w : World Loc V) (s : Service Loc) (call : CallEnv × Request) (session : SessionToken) :
    Prop :=
  ∃ password role, call.2 = .auth session.username password ∧
    s.auth.admits call.1.auth session.username password = true ∧
    (serve w s call).1 = .auth { ok := true, token := call.1.auth.token, role := role }

/-- The service logs in as the administrator, to create an account. -/
def TakesSession (w : World Loc V) (s : Service Loc) (call : CallEnv × Request)
    (session : SessionToken) : Prop :=
  session.username = ascii "admin" ∧ ∃ stmt, Runs w s call (.createUser stmt)

/-- What a login with the right password answers. -/
theorem response_of_admits (w : World Loc V) {s : Service Loc} {env : CallEnv}
    {username password : Bytes} (htoken : env.auth.token ≠ [])
    (h : s.auth.admits env.auth username password = true) :
    ∃ role, (serve w s (env, .auth username password)).1
      = .auth { ok := true, token := env.auth.token, role := role } := by
  have hlogin : (s.auth.login env.auth username password).1 = env.auth.token := by
    rw [AuthManager.admits, Option.any_eq_true] at h
    obtain ⟨user, huser, hmatch⟩ := h
    have hfound : (s.auth.users.lookup username).filter (fun user =>
        user.active && user.passwordHash = env.auth.hashPassword password user.salt)
          = some user := Option.filter_eq_some_iff.mpr ⟨huser, hmatch⟩
    rw [login_eq, hfound]
  unfold serve handle
  dsimp only
  generalize s.auth.login env.auth username password = login at hlogin
  obtain ⟨token, a⟩ := login
  dsimp only at hlogin
  subst hlogin
  cases htext : env.auth.token with
  | nil => exact absurd htext htoken
  | cons c rest => exact ⟨_, rfl⟩

/-- A session after a call of the service was there before, or the call makes it. -/
theorem tokens_serve {s : Service Loc} {call : CallEnv × Request} (hne : call.1.auth.token ≠ [])
    {token : Bytes} {session : SessionToken}
    (h : (serve w s call).2.auth.tokens.lookup token = some session) :
    s.auth.tokens.lookup token = some session ∨ (token = call.1.auth.token ∧
      session.expiresAt = call.1.auth.now + s.auth.tokenExpirySec ∧
        (LogsIn w s call session ∨ TakesSession w s call session)) := by
  rw [auth_serve] at h
  by_cases hauth : ∃ username password, call.2 = .auth username password
  · obtain ⟨env, request⟩ := call
    obtain ⟨username, password, rfl⟩ := hauth
    -- what comes behind the login only looks at a token
    have hlogin : (s.auth.login env.auth username password).2.tokens.lookup token
        = some session := by
      unfold authCalls at h
      dsimp only at h
      split at h
      · exact h
      · rw [within, List.map_cons, List.map_singleton] at h
        change (AuthManager.validateToken _ _ _).2.tokens.lookup token = some session at h
        rw [validateToken_snd] at h
        exact (lookup_cleanup.mp h).1
    refine (tokens_login hlogin).imp id ?_
    rintro ⟨rfl, hexpiry, hadmits, rfl⟩
    obtain ⟨role, hresponse⟩ := response_of_admits w hne hadmits
    exact ⟨rfl, hexpiry, .inl ⟨password, role, rfl, hadmits, hresponse⟩⟩
  · have hcalls : ∀ c ∈ authCalls w s call, NoLogin c := by
      intro c hc
      rcases mem_authCalls hc with ⟨_, _, rfl⟩ | ⟨_, rfl⟩ | ⟨_, _, heq, -⟩ | ⟨stmt, a, -, hmem⟩
      · exact trivial
      · exact trivial
      · exact absurd ⟨_, _, heq⟩ hauth
      · exact noLogin_statementCalls a call.1.auth stmt c hmem
    refine (tokens_runCalls hcalls h).imp id ?_
    rintro ⟨hmem, htoken, hexpiry, hname⟩
    refine ⟨htoken, hexpiry, .inr ⟨hname, ?_⟩⟩
    rcases mem_authCalls hmem with ⟨_, _, heq⟩ | ⟨_, heq⟩ | ⟨_, _, -, heq⟩ | ⟨stmt, a, hruns, hmem⟩
    · cases heq
    · cases heq
    · cases heq
    · obtain ⟨stmt, rfl⟩ := createUser_of_adminLogin hmem
      exact ⟨stmt, hruns⟩

theorem tokenExpirySec_serve (w : World Loc V) (s : Service Loc) (call : CallEnv × Request) :
    (serve w s call).2.auth.tokenExpirySec = s.auth.tokenExpirySec := by
  rw [auth_serve]
  apply tokenExpirySec_runCalls
  intro c hc seconds hset
  subst hset
  rcases mem_authCalls hc with ⟨_, _, heq⟩ | ⟨_, heq⟩ | ⟨_, _, -, heq⟩ | ⟨stmt, a, -, hmem⟩
  · cases heq
  · cases heq
  · cases heq
  · exact noLogin_statementCalls a call.1.auth stmt _ hmem

theorem tokenExpirySec_run (w : World Loc V) (s : Service Loc)
    (calls : List (CallEnv × Request)) :
    (runTo (serve w) s calls).auth.tokenExpirySec = s.auth.tokenExpirySec := by
  induction calls using List.reverseRecOn with
  | nil => rfl
  | append_singleton calls call ih => rw [runTo_concat, tokenExpirySec_serve, ih]

/-- A session under the token, and the call that made it. -/
theorem session_of_run (w : World Loc V) {s : Service Loc} (hnone : s.auth.tokens = ∅)
    {calls : List (CallEnv × Request)} (htokens : ∀ call ∈ calls, call.1.auth.token ≠ [])
    {token : Bytes} {session : SessionToken}
    (h : (runTo (serve w) s calls).auth.tokens.lookup token = some session) :
    ∃ front call, front ++ [call] <+: calls ∧ token = call.1.auth.token ∧
      session.expiresAt = call.1.auth.now + s.auth.tokenExpirySec ∧
        (LogsIn w (runTo (serve w) s front) call session ∨
          TakesSession w (runTo (serve w) s front) call session) := by
  induction calls using List.reverseRecOn with
  | nil =>
    change s.auth.tokens.lookup token = some session at h
    rw [hnone] at h
    cases h
  | append_singleton calls call ih =>
    rw [List.forall_mem_append, List.forall_mem_singleton] at htokens
    rw [runTo_concat] at h
    rcases tokens_serve htokens.2 h with hbefore | ⟨htoken, hexpiry, hmade⟩
    · obtain ⟨front, last, hfront, hmade⟩ := ih htokens.1 hbefore
      exact ⟨front, last, hfront.trans (List.prefix_append _ _), hmade⟩
    · rw [tokenExpirySec_run] at hexpiry
      exact ⟨calls, call, List.prefix_refl _, htoken, hexpiry, hmade⟩

/-- **A token that passes was handed out, and not too long ago.** It is the response of a login with
the password of the account whose role it has now; or it is one that the service took for itself,
which no response has, and then that account is the administrator's. -/
theorem accepted_of_run (w : World Loc V) {s : Service Loc} (hnone : s.auth.tokens = ∅)
    {calls : List (CallEnv × Request)} (htokens : ∀ call ∈ calls, call.1.auth.token ≠ [])
    {now : Timestamp} {token : Bytes} {role : UserRole}
    (h : (runTo (serve w) s calls).auth.roleOf now token = some role) :
    ∃ front call session user, front ++ [call] <+: calls ∧ token = call.1.auth.token ∧
      ¬ call.1.auth.now + s.auth.tokenExpirySec < now ∧
        (runTo (serve w) s calls).auth.users.lookup session.username = some user ∧
          user.role = role ∧
            (LogsIn w (runTo (serve w) s front) call session ∨
              TakesSession w (runTo (serve w) s front) call session) := by
  obtain ⟨user, huser, hrole⟩ := roleOf_eq_some.mp h
  rw [validateToken_eq] at huser
  obtain ⟨session, hsession, huser⟩ := Option.bind_eq_some_iff.mp huser
  obtain ⟨hsession, hfresh⟩ := lookup_cleanup.mp hsession
  obtain ⟨front, call, hfront, htoken, hexpiry, hmade⟩ :=
    session_of_run w hnone htokens hsession
  rw [hexpiry] at hfresh
  exact ⟨front, call, session, user, hfront, htoken, hfresh, huser, hrole, hmade⟩

/-! ## A run -/

theorem tokens_demoCalls : ∀ call ∈ demoCalls, call.1.auth.token ≠ [] := by
  simp [demoCalls, callAt, ascii]

/-- What the administrator of a new service has. -/
def firstAdmin : User where
  name := ascii "admin"
  passwordHash := ascii "admin123"
  salt := []
  role := .admin

theorem accounts_of_demoCalls :
    (runTo (serve plainWorld) plainService demoCalls).auth.users.lookup (ascii "admin")
      = some firstAdmin :=
  (accounts_of_run plainWorld rfl tokens_demoCalls).1 (ascii "admin") firstAdmin
    (by decide)

theorem accepted_of_demoCalls :
    ∃ front call session user, front ++ [call] <+: demoCalls ∧
      ascii "t" = call.1.auth.token ∧ ¬ call.1.auth.now + plainService.auth.tokenExpirySec < 9 ∧
        (runTo (serve plainWorld) plainService demoCalls).auth.users.lookup session.username
          = some user ∧ user.role = .admin ∧
            (LogsIn plainWorld (runTo (serve plainWorld) plainService front) call session ∨
              TakesSession plainWorld (runTo (serve plainWorld) plainService front) call session) :=
  accepted_of_run plainWorld rfl tokens_demoCalls (by decide)

end Server
end MiniTSDB
