import MiniTSDB.Auth.AuthManager

/-!
# The calls of `AuthManager`

`CreateUser`, `DropUser` and `AlterUser` are the calls that change the accounts. Each is granted or
refused by what is there before it (`Granted`), and a granted one does one thing (`applied`):
`change_granted` and `change_refused` say this once, and what follows about the accounts rests on
them.
-/

namespace MiniTSDB
namespace Auth

open Lib

/-- `CreateUser`, `DropUser` and `AlterUser`. A role is the byte that is passed for it. -/
inductive UserChange
  | create (token username password : Bytes) (role : UInt8)
  | drop (token username : Bytes)
  | alter (token username property value : Bytes)
  deriving DecidableEq, Repr

inductive AuthCall
  | login (username password : Bytes)
  | adminLogin
  | validateToken (token : Bytes)
  | checkPermission (token operation : Bytes)
  | change (c : UserChange)
  | getUsers (token : Bytes)
  | setTokenExpiry (seconds : Int64)
  deriving DecidableEq, Repr

def AuthManager.change (a : AuthManager) (env : AuthEnv) : UserChange → Bool × AuthManager
  | .create token username password role =>
    a.createUser env token username password (.ofByte role)
  | .drop token username => a.dropUser env token username
  | .alter token username property value => a.alterUser env token username property value

/-- What a call leaves. -/
def AuthManager.call (a : AuthManager) (env : AuthEnv) : AuthCall → AuthManager
  | .login username password => (a.login env username password).2
  | .adminLogin => (a.adminLogin env).2
  | .validateToken token => (a.validateToken env.now token).2
  | .checkPermission token operation => (a.checkPermission env.now token operation).2
  | .change c => (a.change env c).2
  | .getUsers token => (a.getUsers env.now token).2
  | .setTokenExpiry seconds => a.setTokenExpiry seconds

/-- What some calls leave, each with what it gets from outside. -/
def AuthManager.runCalls (a : AuthManager) (calls : List (AuthEnv × AuthCall)) : AuthManager :=
  calls.foldl (fun a c => a.call c.1 c.2) a

/-! ## What a change does -/

/-- The account that `CreateUser` makes. -/
def newUser (env : AuthEnv) (username password : Bytes) (role : UserRole) : User where
  name := username
  passwordHash := env.hashPassword password env.salt
  salt := env.salt
  role := role
  createdAt := env.now

/-- The account it is about. -/
def UserChange.username : UserChange → Bytes
  | .create _ username _ _ => username
  | .drop _ username => username
  | .alter _ username _ _ => username

/-- The call is not refused: it changes `users_`, and comes to its `Save()`. -/
def Granted (a : AuthManager) (env : AuthEnv) : UserChange → Prop
  | .create token username _ _ =>
    a.roleOf env.now token = some .admin ∧ a.users.lookup username = none
  | .drop token username =>
    ∃ requester user, (a.validateToken env.now token).1 = some requester ∧
      requester.role = .admin ∧ requester.name ≠ username ∧
      a.users.lookup username = some user ∧ ¬ (user.role = .admin ∧ a.adminCount ≤ 1)
  | .alter token username property value =>
    a.roleOf env.now token = some .admin ∧
      ∃ user, a.users.lookup username = some user ∧ (user.alter env property value).isSome = true

/-- `users_` after a call that is not refused. -/
def applied (users : Users) (env : AuthEnv) : UserChange → Users
  | .create _ username password role =>
    users.insert username (newUser env username password (.ofByte role))
  | .drop _ username => users.erase username
  | .alter _ username property value =>
    match (users.lookup username).bind fun user => user.alter env property value with
    | some user => users.insert username user
    | none => users

/-- What it returns. Only `CreateUser` returns what `Save()` does. -/
def UserChange.answer (env : AuthEnv) : UserChange → Bool
  | .create .. => env.saves
  | .drop .. => true
  | .alter .. => true

/-- The requester, for one who is an administrator. -/
theorem roleOf_eq_some {a : AuthManager} {now : Timestamp} {token : Bytes} {role : UserRole} :
    a.roleOf now token = some role ↔
      ∃ requester, (a.validateToken now token).1 = some requester ∧ requester.role = role := by
  unfold AuthManager.roleOf
  exact Option.map_eq_some_iff

theorem validateToken_snd (a : AuthManager) (now : Timestamp) (token : Bytes) :
    (a.validateToken now token).2 = a.cleanupExpiredTokens now := by
  rw [validateToken_eq]

theorem getUsers_snd (a : AuthManager) (now : Timestamp) (token : Bytes) :
    (a.getUsers now token).2 = a.cleanupExpiredTokens now := by
  have hvalid : a.validateToken now token
      = ((a.validateToken now token).1, a.cleanupExpiredTokens now) :=
    Prod.ext rfl (validateToken_snd a now token)
  rw [AuthManager.getUsers, hvalid]
  cases (a.validateToken now token).1 with
  | none => rfl
  | some requester =>
    dsimp only
    split <;> rfl

/-- **A call that is granted** does what it is for, and drops the sessions that have expired. -/
theorem change_granted {a : AuthManager} {env : AuthEnv} {c : UserChange} (h : Granted a env c) :
    a.change env c = (c.answer env,
      { a.cleanupExpiredTokens env.now with users := applied a.users env c }) := by
  cases c with
  | create token username password role =>
    obtain ⟨hadmin, hfree⟩ := h
    obtain ⟨requester, hrequester, hrole⟩ := roleOf_eq_some.mp hadmin
    have hvalid : a.validateToken env.now token
        = (some requester, a.cleanupExpiredTokens env.now) :=
      Prod.ext hrequester (validateToken_snd a env.now token)
    have hnone : (a.cleanupExpiredTokens env.now).users.lookup username = none := hfree
    unfold AuthManager.change AuthManager.createUser
    simp only [hvalid, hrole, ne_eq, not_true_eq_false, if_false, hnone, Option.isSome_none,
      Bool.false_eq_true]
    rfl
  | drop token username =>
    obtain ⟨requester, user, hrequester, hrole, hother, huser, hguard⟩ := h
    have hvalid : a.validateToken env.now token
        = (some requester, a.cleanupExpiredTokens env.now) :=
      Prod.ext hrequester (validateToken_snd a env.now token)
    have hsome : (a.cleanupExpiredTokens env.now).users.lookup username = some user := huser
    have hcount : ¬ (user.role = .admin ∧ (a.cleanupExpiredTokens env.now).adminCount ≤ 1) :=
      hguard
    unfold AuthManager.change AuthManager.dropUser
    simp only [hvalid, hrole, ne_eq, not_true_eq_false, if_false, hother, hsome, hcount]
    rfl
  | alter token username property value =>
    obtain ⟨hadmin, user, huser, halter⟩ := h
    obtain ⟨requester, hrequester, hrole⟩ := roleOf_eq_some.mp hadmin
    obtain ⟨user', halter⟩ := Option.isSome_iff_exists.mp halter
    have hvalid : a.validateToken env.now token
        = (some requester, a.cleanupExpiredTokens env.now) :=
      Prod.ext hrequester (validateToken_snd a env.now token)
    have hsome : (a.cleanupExpiredTokens env.now).users.lookup username = some user := huser
    unfold AuthManager.change AuthManager.alterUser applied
    simp only [hvalid, hrole, ne_eq, not_true_eq_false, if_false, hsome, huser, Option.bind_some,
      halter]
    rfl

/-- **A call that is refused** drops the sessions that have expired. It returns false, unless the
account that it is to drop is not there. -/
theorem change_refused {a : AuthManager} {env : AuthEnv} {c : UserChange} (h : ¬ Granted a env c) :
    (a.change env c).2 = a.cleanupExpiredTokens env.now ∧
      ((a.change env c).1 = true →
        ∃ token username, c = .drop token username ∧ a.users.lookup username = none) := by
  have hvalid : ∀ token, ∃ requester,
      a.validateToken env.now token = (requester, a.cleanupExpiredTokens env.now) :=
    fun token => ⟨_, Prod.ext rfl (validateToken_snd a env.now token)⟩
  cases c with
  | create token username password role =>
    obtain ⟨requester, hvalid⟩ := hvalid token
    simp only [AuthManager.change, AuthManager.createUser, hvalid]
    cases requester with
    | none => exact ⟨rfl, fun hres => nomatch hres⟩
    | some requester =>
      dsimp only
      split
      case isTrue => exact ⟨rfl, fun hres => nomatch hres⟩
      case isFalse hrole =>
        have hadmin : a.roleOf env.now token = some .admin :=
          roleOf_eq_some.mpr ⟨requester, by rw [hvalid], not_not.mp hrole⟩
        split
        case isTrue => exact ⟨rfl, fun hres => nomatch hres⟩
        case isFalse hfree => exact absurd ⟨hadmin, Option.not_isSome_iff_eq_none.mp hfree⟩ h
  | drop token username =>
    obtain ⟨requester, hvalid⟩ := hvalid token
    simp only [AuthManager.change, AuthManager.dropUser, hvalid]
    cases requester with
    | none => exact ⟨rfl, fun hres => nomatch hres⟩
    | some requester =>
      dsimp only
      split
      case isTrue => exact ⟨rfl, fun hres => nomatch hres⟩
      case isFalse hrole =>
        split
        case isTrue => exact ⟨rfl, fun hres => nomatch hres⟩
        case isFalse hother =>
          split
          -- the account is not there: the only refusal that returns true
          case h_1 hnone => exact ⟨rfl, fun _ => ⟨token, username, rfl, hnone⟩⟩
          case h_2 user huser =>
            split
            case isTrue => exact ⟨rfl, fun hres => nomatch hres⟩
            case isFalse hguard =>
              exact absurd
                ⟨requester, user, by rw [hvalid], not_not.mp hrole, hother, huser, hguard⟩ h
  | alter token username property value =>
    obtain ⟨requester, hvalid⟩ := hvalid token
    simp only [AuthManager.change, AuthManager.alterUser, hvalid]
    cases requester with
    | none => exact ⟨rfl, fun hres => nomatch hres⟩
    | some requester =>
      dsimp only
      split
      case isTrue => exact ⟨rfl, fun hres => nomatch hres⟩
      case isFalse hrole =>
        have hadmin : a.roleOf env.now token = some .admin :=
          roleOf_eq_some.mpr ⟨requester, by rw [hvalid], not_not.mp hrole⟩
        split
        case h_1 => exact ⟨rfl, fun hres => nomatch hres⟩
        case h_2 user' halter =>
          obtain ⟨user, huser, halter⟩ := Option.bind_eq_some_iff.mp halter
          exact absurd ⟨hadmin, user, huser, by rw [halter]; rfl⟩ h

/-! ## The accounts after a call -/

theorem users_of_granted {a : AuthManager} {env : AuthEnv} {c : UserChange} (h : Granted a env c) :
    (a.call env (.change c)).users = applied a.users env c := by
  rw [AuthManager.call, change_granted h]

/-- Every other call leaves the accounts. -/
theorem users_of_not_granted {a : AuthManager} {env : AuthEnv} {call : AuthCall}
    (h : ∀ c, call = .change c → ¬ Granted a env c) : (a.call env call).users = a.users := by
  cases call with
  | login username password =>
    simp only [AuthManager.call, AuthManager.login]
    split
    · rfl
    · split
      · rfl
      · split <;> rfl
  | adminLogin =>
    simp only [AuthManager.call, AuthManager.adminLogin]
    split
    · rfl
    · split <;> rfl
  | validateToken token => rw [AuthManager.call, validateToken_snd]; rfl
  | checkPermission token operation =>
    rw [AuthManager.call, checkPermission_snd, validateToken_snd]
    rfl
  | change c => rw [AuthManager.call, (change_refused (h c rfl)).1]; rfl
  | getUsers token =>
    rw [AuthManager.call, getUsers_snd]
    rfl
  | setTokenExpiry seconds => rfl

/-- An account that the call does not name stays as it is. -/
theorem lookup_applied_of_ne {users : Users} {env : AuthEnv} {c : UserChange} {name : Bytes}
    (h : name ≠ c.username) : (applied users env c).lookup name = users.lookup name := by
  cases c with
  | create token username password role => exact AList.lookup_insert_ne h
  | drop token username => exact AList.lookup_erase_ne h
  | alter token username property value =>
    unfold applied
    dsimp only
    split
    · exact AList.lookup_insert_ne h
    · rfl

theorem lookup_altered {users : Users} {env : AuthEnv} {token username property value : Bytes}
    {before after : User} (hbefore : users.lookup username = some before)
    (halter : before.alter env property value = some after) :
    (applied users env (.alter token username property value)).lookup username = some after := by
  unfold applied
  simp only [hbefore, Option.bind_some, halter, AList.lookup_insert]

/-! ## Memory and file -/

/-- The account after a call that has been done, if it has one before. -/
def UserChange.outcome (env : AuthEnv) (before : Option User) : UserChange → Option User
  | .create _ username password role => some (newUser env username password (.ofByte role))
  | .drop .. => none
  | .alter _ _ property value => before.bind fun user => user.alter env property value

/-- `users_` has the change, and no other one. -/
def Reflects (env : AuthEnv) (c : UserChange) (before after : Users) : Prop :=
  after.lookup c.username = c.outcome env (before.lookup c.username) ∧
    ∀ name, name ≠ c.username → after.lookup name = before.lookup name

/-- What the call returns is true of both the memory and the file: `true` only if `users_` has the
change and the `Save()` it came to did not fail, `false` only if `users_` is as it was. -/
def Atomic (a : AuthManager) (env : AuthEnv) (c : UserChange) : Prop :=
  ((a.change env c).1 = true →
    Reflects env c a.users (a.change env c).2.users ∧ (Granted a env c → env.saves = true)) ∧
  ((a.change env c).1 = false → (a.change env c).2.users = a.users)

theorem reflects_applied {a : AuthManager} {env : AuthEnv} {c : UserChange} (h : Granted a env c) :
    Reflects env c a.users (applied a.users env c) := by
  refine ⟨?_, fun name hname => lookup_applied_of_ne hname⟩
  cases c with
  | create token username password role => exact AList.lookup_insert _
  | drop token username => exact AList.lookup_erase _ _
  | alter token username property value =>
    obtain ⟨-, user, huser, halter⟩ := h
    obtain ⟨user', halter⟩ := Option.isSome_iff_exists.mp halter
    have houtcome : (a.users.lookup username).bind (fun user => user.alter env property value)
        = some user' := by rw [huser, Option.bind_some, halter]
    exact (lookup_altered huser halter).trans houtcome.symm

/-- What holds of all the accounts, and of the one the call is about, holds after it. -/
theorem forall_applied {a : AuthManager} {env : AuthEnv} {c : UserChange} {P : Bytes → User → Prop}
    (h : ∀ name user, a.users.lookup name = some user → P name user) (hgranted : Granted a env c)
    (houtcome : ∀ user, c.outcome env (a.users.lookup c.username) = some user → P c.username user)
    {name : Bytes} {user : User} (hlookup : (applied a.users env c).lookup name = some user) :
    P name user := by
  obtain ⟨hnamed, hothers⟩ := reflects_applied hgranted
  by_cases hname : name = c.username
  · rw [hname, hnamed] at hlookup
    rw [hname]
    exact houtcome user hlookup
  · rw [hothers name hname] at hlookup
    exact h name user hlookup

/-- **A call is atomic exactly where it does not come to a `Save()` that fails.** -/
theorem change_atomic_iff (a : AuthManager) (env : AuthEnv) (c : UserChange) :
    Atomic a env c ↔ (Granted a env c → env.saves = true) := by
  constructor
  · intro h hgranted
    by_contra hfails
    have hchange := change_granted hgranted
    cases hanswer : c.answer env with
    | true =>
      have hres : (a.change env c).1 = true := by rw [hchange, hanswer]
      exact hfails ((h.1 hres).2 hgranted)
    | false =>
      -- only `CreateUser` says so, and the account is there
      have hres : (a.change env c).1 = false := by rw [hchange, hanswer]
      have hsame := h.2 hres
      rw [hchange] at hsame
      cases c with
      | create token username password role =>
        have hnew := congrArg (AList.lookup username) hsame
        rw [hgranted.2] at hnew
        exact absurd hnew (by rw [applied, AList.lookup_insert]; exact Option.some_ne_none _)
      | drop token username => cases hanswer
      | alter token username property value => cases hanswer
  · intro h
    by_cases hgranted : Granted a env c
    · have hchange := change_granted hgranted
      have hanswer : c.answer env = true := by
        cases c with
        | create token username password role => exact h hgranted
        | drop token username => rfl
        | alter token username property value => rfl
      refine ⟨fun _ => ⟨?_, h⟩, ?_⟩
      · rw [hchange]
        exact reflects_applied hgranted
      · intro hres
        rw [hchange, hanswer] at hres
        cases hres
    · obtain ⟨hsame, htrue⟩ := change_refused hgranted
      refine ⟨fun hres => ⟨?_, h⟩, fun _ => by rw [hsame]; rfl⟩
      obtain ⟨token, username, rfl, hnone⟩ := htrue hres
      rw [hsame]
      exact ⟨hnone, fun _ _ => rfl⟩

/-- What the outside gives a call: nothing is saved. -/
def envUnsaved : AuthEnv where
  now := 0
  token := ascii "a"
  salt := []
  hashPassword := fun _ _ => []
  saves := false

/-- The default administrator, logged in. -/
def adminIn : AuthManager := ((AuthManager.initial envUnsaved).adminLogin envUnsaved).2

/-- `CREATE USER b` that is not saved: it fails, and the account is there. -/
theorem create_unsaved : ¬ Atomic adminIn envUnsaved
    (.create (ascii "a") (ascii "b") (ascii "p") 2) := by
  intro h
  have hsame := congrArg (AList.lookup (ascii "b")) (h.2 (by decide))
  exact absurd hsame (by decide)

end Auth
end MiniTSDB
