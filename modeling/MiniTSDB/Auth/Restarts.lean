import MiniTSDB.Auth.LastAdmin
import MiniTSDB.Auth.RoundTrip
import Mathlib.Data.Multiset.Basic

/-!
# The accounts over many processes

A host runs one process after the other over one `users.db`; each begins with the constructor and
`Init`, and then answers calls. A `Registry` is what that is for: the accounts and sessions, and the
accounts as they were last saved, which is what the next process begins with. Whatever order a map
gives its entries in and whatever is behind the end of a salt or in a variable that nothing was read
into, the host answers every call as the registry does (`host_mirrors`).
-/

namespace MiniTSDB
namespace Auth

open Lib Os

/-! ## Alike -/

/-- The two have the same accounts and the same sessions. -/
structure Alike (a b : AuthManager) : Prop where
  users : ∀ name, a.users.lookup name = b.users.lookup name
  tokens : a.tokens = b.tokens
  expiry : a.tokenExpirySec = b.tokenExpirySec

/-- What a call returns. The accounts that `GetUsers` returns are in no order. -/
inductive AuthAnswer
  | token (token : Bytes)
  | user (user : Option User)
  | allowed (allowed : Bool)
  | changed (changed : Bool)
  | users (users : Multiset User)
  | nothing

def AuthManager.answer (a : AuthManager) (env : AuthEnv) : AuthCall → AuthAnswer
  | .login username password => .token (a.login env username password).1
  | .adminLogin => .token (a.adminLogin env).1
  | .validateToken token => .user (a.validateToken env.now token).1
  | .checkPermission token operation => .allowed (a.checkPermission env.now token operation).1
  | .change c => .changed (a.change env c).1
  | .getUsers token => .users (a.getUsers env.now token).1
  | .setTokenExpiry _ => .nothing

section
variable {a b : AuthManager}

theorem Alike.refl (a : AuthManager) : Alike a a := ⟨fun _ => rfl, rfl, rfl⟩

theorem Alike.cleanup (h : Alike a b) (now : Timestamp) :
    Alike (a.cleanupExpiredTokens now) (b.cleanupExpiredTokens now) where
  users := h.users
  tokens := by
    unfold AuthManager.cleanupExpiredTokens
    dsimp only
    rw [h.tokens]
  expiry := h.expiry

theorem Alike.validated (h : Alike a b) (now : Timestamp) (token : Bytes) :
    (a.validateToken now token).1 = (b.validateToken now token).1 := by
  rw [validateToken_eq, validateToken_eq, (h.cleanup now).tokens]
  dsimp only
  congr 1
  funext session
  exact h.users session.username

theorem Alike.adminCount (h : Alike a b) : a.adminCount = b.adminCount :=
  (perm_entries_of_lookup h.users).countP_eq _

/-- What a change makes of an account depends on that account only. -/
theorem lookup_applied (users : Users) (env : AuthEnv) (c : UserChange) (name : Bytes) :
    (applied users env c).lookup name =
      if name = c.username then
        match c with
        | .create _ username password role => some (newUser env username password (.ofByte role))
        | .drop .. => none
        | .alter _ username property value =>
          ((users.lookup username).bind fun user => user.alter env property value).or
            (users.lookup username)
      else users.lookup name := by
  by_cases hname : name = c.username
  · rw [if_pos hname, hname]
    cases c with
    | create token username password role => exact AList.lookup_insert _
    | drop token username => exact AList.lookup_erase _ _
    | alter token username property value =>
      unfold applied
      dsimp only
      cases (users.lookup username).bind fun user => user.alter env property value with
      | none => rfl
      | some user => exact AList.lookup_insert _
  · rw [if_neg hname]
    exact lookup_applied_of_ne hname

theorem lookup_applied_congr {users users' : Users}
    (h : ∀ name, users.lookup name = users'.lookup name) (env : AuthEnv) (c : UserChange)
    (name : Bytes) :
    (applied users env c).lookup name = (applied users' env c).lookup name := by
  rw [lookup_applied, lookup_applied, h]
  cases c with
  | create token username password role => rfl
  | drop token username => rfl
  | alter token username property value => simp only [h username]

/-- A login leaves the accounts, and adds the same session. -/
theorem Alike.session (h : Alike a b) (env : AuthEnv) (username : Bytes) (role : UserRole) :
    Alike
      { a.cleanupExpiredTokens env.now with
        tokens := (a.cleanupExpiredTokens env.now).tokens.insert env.token
          { token := env.token, username := username, role := role
            expiresAt := env.now + a.tokenExpirySec } }
      { b.cleanupExpiredTokens env.now with
        tokens := (b.cleanupExpiredTokens env.now).tokens.insert env.token
          { token := env.token, username := username, role := role
            expiresAt := env.now + b.tokenExpirySec } } where
  users := h.users
  tokens := by rw [(h.cleanup env.now).tokens, h.expiry]
  expiry := h.expiry

theorem Alike.login (h : Alike a b) (env : AuthEnv) (username password : Bytes) :
    (a.login env username password).1 = (b.login env username password).1 ∧
      Alike (a.login env username password).2 (b.login env username password).2 := by
  unfold AuthManager.login
  rw [h.users]
  cases b.users.lookup username with
  | none => exact ⟨rfl, h⟩
  | some user =>
    dsimp only
    split
    · exact ⟨rfl, h⟩
    split
    · exact ⟨rfl, h⟩
    · exact ⟨rfl, h.session env username user.role⟩

theorem Alike.adminLogin (h : Alike a b) (env : AuthEnv) :
    (a.adminLogin env).1 = (b.adminLogin env).1 ∧
      Alike (a.adminLogin env).2 (b.adminLogin env).2 := by
  unfold AuthManager.adminLogin
  rw [h.users]
  cases b.users.lookup (ascii "admin") with
  | none => exact ⟨rfl, h⟩
  | some admin =>
    dsimp only
    split
    · exact ⟨rfl, h⟩
    · exact ⟨rfl, h.session env (ascii "admin") .admin⟩

theorem Alike.withUsers (h : Alike a b) {users users' : Users}
    (husers : ∀ name, users.lookup name = users'.lookup name) :
    Alike { a with users := users } { b with users := users' } :=
  ⟨husers, h.tokens, h.expiry⟩

/-- What a change begins with: whose the token is. -/
theorem Alike.validateToken_eq (h : Alike a b) (now : Timestamp) (token : Bytes) :
    ∃ user, a.validateToken now token = (user, a.cleanupExpiredTokens now) ∧
      b.validateToken now token = (user, b.cleanupExpiredTokens now) :=
  ⟨_, Prod.ext rfl (validateToken_snd a now token),
    Prod.ext (h.validated now token).symm (validateToken_snd b now token)⟩

theorem Alike.change (h : Alike a b) (env : AuthEnv) (c : UserChange) :
    (a.change env c).1 = (b.change env c).1 ∧
      Alike (a.change env c).2 (b.change env c).2 := by
  have hcleaned := h.cleanup env.now
  have happlied := lookup_applied_congr h.users env c
  have hcount : (a.cleanupExpiredTokens env.now).adminCount
      = (b.cleanupExpiredTokens env.now).adminCount := h.adminCount
  cases c with
  | create token username password role =>
    obtain ⟨user, ha, hb⟩ := h.validateToken_eq env.now token
    simp only [AuthManager.change, AuthManager.createUser, ha, hb]
    cases user with
    | none => exact ⟨rfl, hcleaned⟩
    | some requester =>
      dsimp only
      split
      · exact ⟨rfl, hcleaned⟩
      rw [hcleaned.users username]
      split
      · exact ⟨rfl, hcleaned⟩
      · exact ⟨rfl, hcleaned.withUsers happlied⟩
  | drop token username =>
    obtain ⟨user, ha, hb⟩ := h.validateToken_eq env.now token
    simp only [AuthManager.change, AuthManager.dropUser, ha, hb]
    cases user with
    | none => exact ⟨rfl, hcleaned⟩
    | some requester =>
      dsimp only
      split
      · exact ⟨rfl, hcleaned⟩
      split
      · exact ⟨rfl, hcleaned⟩
      rw [hcleaned.users username, hcount]
      cases (b.cleanupExpiredTokens env.now).users.lookup username with
      | none => exact ⟨rfl, hcleaned⟩
      | some user =>
        dsimp only
        split
        · exact ⟨rfl, hcleaned⟩
        · exact ⟨rfl, hcleaned.withUsers happlied⟩
  | alter token username property value =>
    obtain ⟨user, ha, hb⟩ := h.validateToken_eq env.now token
    simp only [AuthManager.change, AuthManager.alterUser, ha, hb]
    unfold applied at happlied
    dsimp only at happlied
    rw [h.users username] at happlied
    cases user with
    | none => exact ⟨rfl, hcleaned⟩
    | some requester =>
      dsimp only
      split
      · exact ⟨rfl, hcleaned⟩
      rw [hcleaned.users username]
      cases hafter : ((b.cleanupExpiredTokens env.now).users.lookup username).bind
        fun user => user.alter env property value with
      | none => exact ⟨rfl, hcleaned⟩
      | some user =>
        change (b.users.lookup username).bind _ = _ at hafter
        rw [hafter] at happlied
        exact ⟨rfl, hcleaned.withUsers happlied⟩

/-- **Two that are alike answer a call alike**, and are alike after it. -/
theorem Alike.call (h : Alike a b) (env : AuthEnv) (call : AuthCall) :
    a.answer env call = b.answer env call ∧ Alike (a.call env call) (b.call env call) := by
  cases call with
  | login username password =>
    obtain ⟨htoken, hafter⟩ := h.login env username password
    exact ⟨congrArg AuthAnswer.token htoken, hafter⟩
  | adminLogin =>
    obtain ⟨htoken, hafter⟩ := h.adminLogin env
    exact ⟨congrArg AuthAnswer.token htoken, hafter⟩
  | validateToken token =>
    refine ⟨congrArg AuthAnswer.user (h.validated env.now token), ?_⟩
    rw [AuthManager.call, AuthManager.call, validateToken_snd, validateToken_snd]
    exact h.cleanup env.now
  | checkPermission token operation =>
    constructor
    · unfold AuthManager.answer
      dsimp only
      rw [checkPermission_fst, checkPermission_fst, AuthManager.roleOf, AuthManager.roleOf,
        h.validated]
    · rw [AuthManager.call, AuthManager.call, checkPermission_snd, checkPermission_snd,
        validateToken_snd, validateToken_snd]
      exact h.cleanup env.now
  | change c =>
    obtain ⟨hchanged, hafter⟩ := h.change env c
    exact ⟨congrArg AuthAnswer.changed hchanged, hafter⟩
  | getUsers token =>
    obtain ⟨user, ha, hb⟩ := h.validateToken_eq env.now token
    constructor
    · unfold AuthManager.answer AuthManager.getUsers
      simp only [ha, hb]
      cases user with
      | none => rfl
      | some requester =>
        dsimp only
        split
        · rfl
        · exact congrArg AuthAnswer.users
            (Multiset.coe_eq_coe.mpr ((perm_entries_of_lookup h.users).map _))
    · rw [AuthManager.call, AuthManager.call, getUsers_snd, getUsers_snd]
      exact h.cleanup env.now
  | setTokenExpiry seconds => exact ⟨rfl, h.users, h.tokens, rfl⟩

end

/-! ## The host -/

/-- The order in which a map gives its entries. -/
structure MapOrder where
  order : Users → List (Sigma fun _ : Bytes => User)
  perm : ∀ users, (order users).Perm users.entries

/-- What a process gets from outside while it answers a call, or begins: besides what a call gets,
the order of the map and the bytes behind the salts for `Save`, and for `Load` what its variables
hold before they are read into. -/
structure HostEnv where
  auth : AuthEnv
  order : MapOrder
  beyond : Bytes → Nat → UInt8
  junk : LoadJunk

inductive HostEvent
  | call (call : AuthCall)
  | restart
  deriving DecidableEq, Repr

/-- The change is not refused, so it comes to its `Save()`. -/
def AuthManager.comesToSave (a : AuthManager) (env : AuthEnv) : UserChange → Bool
  | .create token username _ _ =>
    a.roleOf env.now token = some .admin && (a.users.lookup username).isNone
  | .drop token username =>
    match (a.validateToken env.now token).1, a.users.lookup username with
    | some requester, some user =>
      requester.role = .admin && requester.name ≠ username &&
        !(user.role = .admin && a.adminCount ≤ 1)
    | _, _ => false
  | .alter token username property value =>
    a.roleOf env.now token = some .admin &&
      ((a.users.lookup username).bind fun user => user.alter env property value).isSome

/-- The call writes `users.db`. -/
def AuthManager.saves (a : AuthManager) (env : AuthEnv) : AuthCall → Bool
  | .change c => env.saves && a.comesToSave env c
  | _ => false

/-- The process that is running, and `users.db`. -/
structure Host where
  auth : AuthManager
  file : Option Bytes

/-- A call, or the end of the process and the beginning of the next. -/
def Host.step (h : Host) (env : HostEnv) : HostEvent → Host
  | .call call =>
    let auth := h.auth.call env.auth call
    { auth := auth
      file := if h.auth.saves env.auth call then
          some (saveBytes (env.order.order auth.users) env.beyond)
        else h.file }
  | .restart =>
    let initial := AuthManager.initial env.auth
    let (users, file) := init env.junk initial.users h.file env.auth.saves
      (env.order.order initial.users) env.beyond
    { auth := { users := users }, file := file }

/-! ## The registry -/

/-- The accounts and sessions, and the accounts as they were last saved. -/
structure Registry where
  auth : AuthManager
  saved : Option Users

/-- A process begins with the accounts that were last saved, if they are not more than 1000, and
without sessions; otherwise with the first administrator, and these are then the saved ones. -/
def Registry.step (r : Registry) (env : AuthEnv) : HostEvent → Registry
  | .call call =>
    { auth := r.auth.call env call
      saved := if r.auth.saves env call then some (r.auth.call env call).users else r.saved }
  | .restart =>
    match r.saved.filter fun users => users.entries.length ≤ 1000 with
    | some users => { auth := { users := users }, saved := some users }
    | none =>
      { auth := .initial env
        saved := if env.saves then some (AuthManager.initial env).users else r.saved }

/-- The file has the saved accounts, in some order. -/
inductive FileOf : Option Users → Option Bytes → Prop
  | none : FileOf none none
  | some {users : Users} {order : List (Sigma fun _ : Bytes => User)}
      (beyond : Bytes → Nat → UInt8) (horder : order.Perm users.entries) :
      FileOf (some users) (some (saveBytes order beyond))

structure Mirrors (h : Host) (r : Registry) : Prop where
  alike : Alike h.auth r.auth
  file : FileOf r.saved h.file

/-- The account fits into the file, and has a salt. -/
def Storable (users : Users) : Prop :=
  ∀ name user, users.lookup name = some user → Fits name user ∧ user.salt ≠ []

structure Registry.Sound (r : Registry) : Prop where
  here : Storable r.auth.users
  saved : ∀ users, r.saved = some users → Storable users ∧ users.entries.length < 2 ^ 32

section
variable {h : Host} {r : Registry}

theorem comesToSave_iff (a : AuthManager) (env : AuthEnv) (c : UserChange) :
    a.comesToSave env c = true ↔ Granted a env c := by
  cases c with
  | create token username password role => simp [AuthManager.comesToSave, Granted]
  | drop token username =>
    rw [AuthManager.comesToSave, Granted]
    cases (a.validateToken env.now token).1 with
    | none => simp
    | some requester =>
      cases a.users.lookup username with
      | none => simp
      | some user => simp [and_assoc, imp_iff_not_or]
  | alter token username property value =>
    rw [AuthManager.comesToSave, Granted]
    cases a.users.lookup username with
    | none => simp
    | some user => simp

theorem Alike.granted {a b : AuthManager} (h : Alike a b) (env : AuthEnv) (c : UserChange) :
    Granted a env c ↔ Granted b env c := by
  cases c with
  | create token username password role =>
    rw [Granted, Granted, AuthManager.roleOf, AuthManager.roleOf, h.validated, h.users]
  | drop token username => rw [Granted, Granted, h.validated, h.users, h.adminCount]
  | alter token username property value =>
    rw [Granted, Granted, AuthManager.roleOf, AuthManager.roleOf, h.validated, h.users]

theorem Alike.saves {a b : AuthManager} (h : Alike a b) (env : AuthEnv) (call : AuthCall) :
    a.saves env call = b.saves env call := by
  cases call with
  | change c =>
    rw [Bool.eq_iff_iff, AuthManager.saves, AuthManager.saves, Bool.and_eq_true, Bool.and_eq_true,
      comesToSave_iff, comesToSave_iff, h.granted]
  | _ => rfl

/-! ## What can be stored -/

theorem storable_outcome {env : AuthEnv} (hreal : env.Real) {c : UserChange} {before : Option User}
    (hbefore : ∀ user, before = some user → Fits c.username user ∧ user.salt ≠ [])
    (hname : ∀ token username password role, c = .create token username password role →
      username.length < 2 ^ 16) {user : User} (houtcome : c.outcome env before = some user) :
    Fits c.username user ∧ user.salt ≠ [] := by
  refine ⟨Fits.outcome hreal (fun user huser => (hbefore user huser).1) hname houtcome, ?_⟩
  have hnew : env.salt ≠ [] := by
    obtain ⟨drawn, hsalt⟩ := hreal.salt
    rw [← List.length_pos_iff, hsalt, length_generateSalt]
    decide
  cases c with
  | create token username password role =>
    cases houtcome
    exact hnew
  | drop token username => cases houtcome
  | alter token username property value =>
    obtain ⟨user₀, hthere, halter⟩ := Option.bind_eq_some_iff.mp houtcome
    unfold User.alter at halter
    split at halter
    · cases halter
      exact hnew
    split at halter
    · obtain ⟨role, -, rfl⟩ := Option.map_eq_some_iff.mp halter
      exact (hbefore user₀ hthere).2
    · cases halter

/-- The account of the first administrator. -/
theorem storable_initial {env : AuthEnv} (hreal : env.Real) :
    Storable (AuthManager.initial env).users := by
  intro name user hlookup
  have hadmin : (AuthManager.initial env).users.lookup name
      = if name = ascii "admin" then some (newUser env (ascii "admin") (ascii "admin123") .admin)
        else none := by
    by_cases hname : name = ascii "admin"
    · rw [if_pos hname, hname]
      exact AList.lookup_insert _
    · rw [if_neg hname]
      exact (AList.lookup_insert_ne hname).trans (AList.lookup_empty _)
  rw [hadmin] at hlookup
  split at hlookup
  case isFalse => cases hlookup
  case isTrue hname =>
    rw [hname]
    have houtcome : UserChange.outcome env none
        (.create [] (ascii "admin") (ascii "admin123") 0) = some user := hlookup
    refine storable_outcome hreal ?_ ?_ houtcome
    · exact fun user huser => nomatch huser
    · rintro token username password role heq
      cases heq
      decide

theorem storable_call {a : AuthManager} (hstorable : Storable a.users) {env : AuthEnv}
    (hreal : env.Real) {call : AuthCall}
    (hname : ∀ token username password role,
      call = .change (.create token username password role) → username.length ≤ 65535) :
    Storable (a.call env call).users := by
  by_cases hgranted : ∃ c, call = .change c ∧ Granted a env c
  · obtain ⟨c, rfl, hgranted⟩ := hgranted
    rw [users_of_granted hgranted]
    intro name user
    refine forall_applied hstorable hgranted fun user houtcome =>
      storable_outcome hreal (hstorable _) ?_ houtcome
    rintro token username password role rfl
    exact Nat.lt_succ_of_le (hname token username password role rfl)
  · rw [users_of_not_granted fun c hcall hc => hgranted ⟨c, hcall, hc⟩]
    exact hstorable

theorem length_call_le (a : AuthManager) (env : AuthEnv) (call : AuthCall) :
    (a.call env call).users.entries.length ≤ a.users.entries.length + 1 := by
  by_cases hgranted : ∃ c, call = .change c ∧ Granted a env c
  · obtain ⟨c, rfl, hgranted⟩ := hgranted
    rw [users_of_granted hgranted]
    cases c with
    | create token username password role => exact length_insert_le _ _ _
    | drop token username =>
      exact ((List.kerase_sublist username a.users.entries).length_le).trans (Nat.le_succ _)
    | alter token username property value =>
      unfold applied
      dsimp only
      split
      · exact length_insert_le _ _ _
      · exact Nat.le_succ _
  · rw [users_of_not_granted fun c hcall hc => hgranted ⟨c, hcall, hc⟩]
    exact Nat.le_succ _

/-! ## Runs -/

/-- A name of an account that an event creates fits into its field. -/
def HostEvent.NameFits (event : HostEvent) : Prop :=
  ∀ token username password role,
    event = .call (.change (.create token username password role)) → username.length ≤ 65535

theorem Registry.Sound.step (hsound : r.Sound) {env : AuthEnv} (hreal : env.Real)
    {event : HostEvent} (hname : event.NameFits)
    (hcount : r.auth.users.entries.length + 1 < 2 ^ 32) : (r.step env event).Sound := by
  cases event with
  | call call =>
    have hstorable := storable_call hsound.here hreal
      fun token username password role hcall =>
        hname token username password role (congrArg HostEvent.call hcall)
    refine ⟨hstorable, fun users husers => ?_⟩
    unfold Registry.step at husers
    dsimp only at husers
    split at husers
    · cases husers
      exact ⟨hstorable, (length_call_le r.auth env call).trans_lt hcount⟩
    · exact hsound.saved users husers
  | restart =>
    rw [Registry.step]
    cases hsaved : r.saved.filter fun users => users.entries.length ≤ 1000 with
    | some users =>
      obtain ⟨hsome, -⟩ := Option.filter_eq_some_iff.mp hsaved
      have hkept := hsound.saved users hsome
      refine ⟨hkept.1, fun users' husers => ?_⟩
      cases husers
      exact hkept
    | none =>
      refine ⟨storable_initial hreal, fun users' husers => ?_⟩
      dsimp only at husers
      split at husers
      · cases husers
        exact ⟨storable_initial hreal, show 1 < 2 ^ 32 by decide⟩
      · exact hsound.saved users' husers

/-- What `Load` makes of the accounts that were saved. -/
theorem load_saved {users : Users} (hstorable : Storable users)
    (hcount : users.entries.length < 2 ^ 32) {order : List (Sigma fun _ : Bytes => User)}
    (horder : order.Perm users.entries) (beyond : Bytes → Nat → UInt8) (junk : LoadJunk)
    (first : Users) : (users.entries.length ≤ 1000 ∧ ∃ loaded,
        load junk first (some (saveBytes order beyond)) = (true, loaded) ∧
          ∀ name, loaded.lookup name = users.lookup name) ∨
      (¬ users.entries.length ≤ 1000 ∧
        load junk first (some (saveBytes order beyond)) = (false, first)) := by
  have hentry : ∀ entry ∈ order, users.lookup entry.1 = some entry.2 :=
    fun entry hmem => AList.mem_lookup_iff.mpr (horder.mem_iff.mp hmem)
  have hholds : HoldsRecords (saveBytes order beyond) (order.map Sigma.snd) :=
    saveBytes_holds (fun entry hmem => hstorable _ _ (hentry entry hmem))
      (by rwa [horder.length_eq]) beyond
  have hload := load_of_holdsRecords junk first hholds
  rw [List.length_map, horder.length_eq] at hload
  by_cases hmany : users.entries.length > 1000
  · rw [if_pos hmany] at hload
    exact .inr ⟨not_le.mpr hmany, hload⟩
  · rw [if_neg hmany] at hload
    exact .inl ⟨not_lt.mp hmany, _, hload, lookup_usersOf_entries horder
      fun entry hmem => (hstorable _ _ (hentry entry hmem)).1.name_eq⟩

/-- **One event keeps the host and the registry together**, and a call is answered alike. -/
theorem Mirrors.step (hmirrors : Mirrors h r) (hsound : r.Sound) (env : HostEnv)
    (event : HostEvent) : Mirrors (h.step env event) (r.step env.auth event) := by
  cases event with
  | call call =>
    have halike := (hmirrors.alike.call env.auth call).2
    refine ⟨halike, ?_⟩
    unfold Host.step Registry.step
    dsimp only
    rw [hmirrors.alike.saves]
    split
    · exact .some env.beyond ((env.order.perm _).trans (perm_entries_of_lookup halike.users))
    · exact hmirrors.file
  | restart =>
    obtain ⟨auth, file⟩ := h
    obtain ⟨-, hfile⟩ := hmirrors
    obtain ⟨auth', saved⟩ := r
    have hfirst : FileOf (some (AuthManager.initial env.auth).users)
        (some (saveBytes (env.order.order (AuthManager.initial env.auth).users) env.beyond)) :=
      .some env.beyond (env.order.perm _)
    rw [Host.step, Registry.step, init]
    cases hfile with
    | none =>
      refine ⟨Alike.refl _, ?_⟩
      show FileOf (if env.auth.saves then _ else none) (if env.auth.saves then _ else none)
      split
      · exact hfirst
      · exact .none
    | some beyond horder =>
      rename_i users order
      obtain ⟨hstorable, hcount⟩ := hsound.saved users rfl
      rcases load_saved hstorable hcount horder beyond env.junk (AuthManager.initial env.auth).users
        with ⟨hfew, loaded, hload, hsame⟩ | ⟨hmany, hload⟩
      · have hfilter : (some users).filter (fun users => users.entries.length ≤ 1000)
            = some users := by
          rw [Option.filter_some, if_pos (decide_eq_true hfew)]
        rw [hload, hfilter]
        exact ⟨⟨hsame, rfl, rfl⟩, .some beyond horder⟩
      · have hfilter : (some users).filter (fun users => users.entries.length ≤ 1000) = none := by
          rw [Option.filter_some, if_neg (by rwa [decide_eq_true_iff])]
        rw [hload, hfilter]
        refine ⟨Alike.refl _, ?_⟩
        show FileOf (if env.auth.saves then _ else some users)
          (if env.auth.saves then _ else some (saveBytes order beyond))
        split
        · exact hfirst
        · exact .some beyond horder

end

/-- The host after some events. -/
def Host.run (h : Host) (events : List (HostEnv × HostEvent)) : Host :=
  events.foldl (fun h e => h.step e.1 e.2) h

def Registry.run (r : Registry) (events : List (HostEnv × HostEvent)) : Registry :=
  events.foldl (fun r e => r.step e.1.auth e.2) r

/-- Before the first process there is no file. -/
def Host.bare : Host := { auth := {}, file := none }

def Registry.bare : Registry := { auth := {}, saved := none }

/-- What every event of a run gets from outside, and the names in it. -/
structure Proper (events : List (HostEnv × HostEvent)) : Prop where
  real : ∀ e ∈ events, e.1.auth.Real
  names : ∀ e ∈ events, e.2.NameFits
  few : events.length + 1 < 2 ^ 32

theorem Proper.front {events : List (HostEnv × HostEvent)} {last : HostEnv × HostEvent}
    (h : Proper (events ++ [last])) : Proper events where
  real e he := h.real e (List.mem_append_left _ he)
  names e he := h.names e (List.mem_append_left _ he)
  few := by
    have hfew := h.few
    rw [List.length_append] at hfew
    omega

/-- An event adds at most one account. -/
theorem Registry.length_run_le (events : List (HostEnv × HostEvent)) :
    (Registry.bare.run events).auth.users.entries.length ≤ events.length + 1 ∧
      ∀ users, (Registry.bare.run events).saved = some users →
        users.entries.length ≤ events.length + 1 := by
  induction events using List.reverseRecOn with
  | nil => exact ⟨Nat.zero_le _, fun users husers => nomatch husers⟩
  | append_singleton events last ih =>
    obtain ⟨hhere, hsaved⟩ := ih
    rw [Registry.run, foldl_concat, ← Registry.run, List.length_append, List.length_singleton]
    generalize Registry.bare.run events = r at hhere hsaved ⊢
    obtain ⟨env, event⟩ := last
    cases event with
    | call call =>
      have hlen := length_call_le r.auth env.auth call
      have hafter : (r.auth.call env.auth call).users.entries.length ≤ events.length + 1 + 1 :=
        hlen.trans (Nat.succ_le_succ hhere)
      refine ⟨hafter, fun users husers => ?_⟩
      unfold Registry.step at husers
      dsimp only at husers
      split at husers
      · cases husers
        exact hafter
      · exact (hsaved users husers).trans (Nat.le_succ _)
    | restart =>
      dsimp only
      rw [Registry.step]
      cases hfilter : r.saved.filter fun users => users.entries.length ≤ 1000 with
      | some users =>
        have hlen := hsaved users (Option.filter_eq_some_iff.mp hfilter).1
        refine ⟨hlen.trans (Nat.le_succ _), fun users' husers => ?_⟩
        cases husers
        exact hlen.trans (Nat.le_succ _)
      | none =>
        have hone : (AuthManager.initial env.auth).users.entries.length ≤ events.length + 1 + 1 :=
          Nat.succ_le_succ (Nat.zero_le _)
        refine ⟨hone, fun users' husers => ?_⟩
        dsimp only at husers
        split at husers
        · cases husers
          exact hone
        · exact (hsaved users' husers).trans (Nat.le_succ _)

theorem sound_run {events : List (HostEnv × HostEvent)} (h : Proper events) :
    (Registry.bare.run events).Sound ∧
      Mirrors (Host.bare.run events) (Registry.bare.run events) := by
  induction events using List.reverseRecOn with
  | nil =>
    refine ⟨⟨fun name user huser => ?_, fun users husers => nomatch husers⟩, Alike.refl _, .none⟩
    cases (AList.lookup_empty name).symm.trans huser
  | append_singleton events last ih =>
    obtain ⟨hsound, hmirrors⟩ := ih h.front
    have hlast : last ∈ events ++ [last] := List.mem_concat_self
    have hlen := (Registry.length_run_le events).1
    have hfew := h.few
    rw [List.length_append, List.length_singleton] at hfew
    rw [Registry.run, Host.run, foldl_concat, foldl_concat, ← Registry.run, ← Host.run]
    exact ⟨hsound.step (h.real last hlast) (h.names last hlast) (by omega),
      hmirrors.step hsound last.1 last.2⟩

/-- What is saved is what is there. -/
def Registry.Saved (r : Registry) : Prop :=
  ∃ users, r.saved = some users ∧ ∀ name, users.lookup name = r.auth.users.lookup name

theorem Registry.Saved.step {r : Registry} (h : r.Saved) {env : AuthEnv} (hsaves : env.saves = true)
    (event : HostEvent) : (r.step env event).Saved := by
  cases event with
  | call call =>
    unfold Registry.step
    cases hcall : r.auth.saves env call with
    | true => exact ⟨_, if_pos hcall, fun _ => rfl⟩
    | false =>
      -- nothing was to be saved, so no change was granted
      obtain ⟨users, hsaved, hsame⟩ := h
      have hkept : (r.auth.call env call).users = r.auth.users := by
        apply users_of_not_granted
        rintro c rfl hgranted
        rw [AuthManager.saves, hsaves, Bool.true_and, ← Bool.not_eq_true, comesToSave_iff] at hcall
        exact hcall hgranted
      refine ⟨users, (if_neg (by rw [hcall]; decide)).trans hsaved, fun name => ?_⟩
      show _ = (r.auth.call env call).users.lookup name
      rw [hkept]
      exact hsame name
  | restart =>
    rw [Registry.step]
    cases r.saved.filter fun users => users.entries.length ≤ 1000 with
    | some users => exact ⟨users, rfl, fun _ => rfl⟩
    | none => exact ⟨_, if_pos hsaves, fun _ => rfl⟩

theorem saved_run {first : HostEnv} {events : List (HostEnv × HostEvent)}
    (hfirst : first.auth.saves = true) (hsaves : ∀ e ∈ events, e.1.auth.saves = true) :
    (Registry.bare.run ((first, .restart) :: events)).Saved := by
  induction events using List.reverseRecOn with
  | nil => exact ⟨_, if_pos hfirst, fun _ => rfl⟩
  | append_singleton events last ih =>
    rw [← List.cons_append, Registry.run, foldl_concat, ← Registry.run]
    exact (ih fun e he => hsaves e (List.mem_append_left _ he)).step
      (hsaves last List.mem_concat_self) last.2

def plainHost : HostEnv where
  auth := envReal
  order := { order := fun users => users.entries, perm := fun _ => List.Perm.refl _ }
  beyond _ _ := 0
  junk := .zeros

/-- The administrator creates an account. -/
def firstProcess : List (HostEnv × HostEvent) :=
  oneCreated.map fun c => (plainHost, .call c.2)

theorem proper_firstProcess : Proper ((plainHost, .restart) :: firstProcess) := by
  have henv : ∀ e ∈ (plainHost, HostEvent.restart) :: firstProcess, e.1 = plainHost := by
    simp [firstProcess, oneCreated]
  refine ⟨fun e he => by rw [henv e he]; exact envReal_real, ?_, by decide⟩
  intro e he token username password role hcall
  simp only [firstProcess, oneCreated, List.map_cons, List.map_nil, List.mem_cons,
    List.not_mem_nil, or_false] at he
  rcases he with rfl | rfl | rfl
  · cases hcall
  · cases hcall
  · cases hcall
    decide

theorem saves_firstProcess : ∀ e ∈ firstProcess, e.1.auth.saves = true := by
  simp [firstProcess, oneCreated, plainHost, envReal]

theorem length_firstProcess :
    (Host.bare.run ((plainHost, .restart) :: firstProcess)).auth.users.entries.length ≤ 1000 := by
  have hsame := (sound_run proper_firstProcess).2.alike.users
  have hlen := (Registry.length_run_le ((plainHost, .restart) :: firstProcess)).1
  rw [length_entries_of_lookup hsame]
  exact hlen.trans (by decide)

end Auth
end MiniTSDB
