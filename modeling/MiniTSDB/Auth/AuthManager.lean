import MiniTSDB.Common.Types
import MiniTSDB.Lib.Keep
import MiniTSDB.Lib.Search

/-!
# `AuthManager` (`auth_manager.cpp`)

Users, the tokens of their sessions, and what a role may do. A call reads the clock once: its
readings lie within one second, the unit of the expiry. What the call gets from outside is its
parameter: the time, the random token and salt, the digest, and whether the file of the users
could be saved.
-/

namespace MiniTSDB
namespace Auth

open Lib

/-- `UserRole`. The file of the users may hold any byte for it. -/
inductive UserRole
  | admin
  | operator
  | viewer
  | other (byte : UInt8)
  deriving DecidableEq, Repr

/-- `static_cast<UserRole>`. -/
def UserRole.ofByte (byte : UInt8) : UserRole :=
  if byte = 0 then .admin else if byte = 1 then .operator else if byte = 2 then .viewer
  else .other byte

/-- `static_cast<uint8_t>`. -/
def UserRole.toByte : UserRole → UInt8
  | .admin => 0
  | .operator => 1
  | .viewer => 2
  | .other byte => byte

structure User where
  name : Bytes
  passwordHash : Bytes
  salt : Bytes
  role : UserRole := .viewer
  createdAt : Timestamp := 0
  active : Bool := true
  deriving DecidableEq, Repr

/-- `users_`. -/
abbrev Users := AList fun _ : Bytes => User

structure SessionToken where
  token : Bytes
  username : Bytes
  role : UserRole
  expiresAt : Timestamp := 0
  deriving DecidableEq, Repr

structure AuthManager where
  users : Users := ∅
  tokens : AList fun _ : Bytes => SessionToken := ∅
  tokenExpirySec : Int64 := 28800

/-- What a call gets from outside. -/
structure AuthEnv where
  now : Timestamp
  token : Bytes
  salt : Bytes
  hashPassword : Bytes → Bytes → Bytes
  saves : Bool

def AuthManager.cleanupExpiredTokens (a : AuthManager) (now : Timestamp) : AuthManager :=
  { a with tokens := keep (fun session => !decide (session.expiresAt < now)) a.tokens }

/-- `ValidateToken`; `none` is the null pointer. -/
def AuthManager.validateToken (a : AuthManager) (now : Timestamp) (token : Bytes) :
    Option User × AuthManager :=
  let a := a.cleanupExpiredTokens now
  match a.tokens.lookup token with
  | none => (none, a)
  | some session =>
    if session.expiresAt < now then (none, { a with tokens := a.tokens.erase token })
    else (a.users.lookup session.username, a)

/-- `AdminLogin`. -/
def AuthManager.adminLogin (a : AuthManager) (env : AuthEnv) : Bytes × AuthManager :=
  match a.users.lookup (ascii "admin") with
  | none => ([], a)
  | some admin =>
    if !admin.active then ([], a)
    else
      let a := a.cleanupExpiredTokens env.now
      let session :=
        { token := env.token, username := ascii "admin", role := .admin,
          expiresAt := env.now + a.tokenExpirySec }
      (env.token, { a with tokens := a.tokens.insert env.token session })

/-- `CreateUser`: what it returns is whether the users could be saved. -/
def AuthManager.createUser (a : AuthManager) (env : AuthEnv) (requesterToken username
    password : Bytes) (role : UserRole) : Bool × AuthManager :=
  match a.validateToken env.now requesterToken with
  | (none, a) => (false, a)
  | (some requester, a) =>
    if requester.role ≠ .admin then (false, a)
    else if (a.users.lookup username).isSome then (false, a)
    else
      let user :=
        { name := username, passwordHash := env.hashPassword password env.salt, salt := env.salt,
          role := role, createdAt := env.now }
      (env.saves, { a with users := a.users.insert username user })

/-- The constructor: the default administrator. -/
def AuthManager.initial (env : AuthEnv) : AuthManager where
  users := (∅ : Users).insert (ascii "admin")
    { name := ascii "admin", passwordHash := env.hashPassword (ascii "admin123") env.salt,
      salt := env.salt, role := .admin, createdAt := env.now }

/-- `Login`; the empty token is a failure. -/
def AuthManager.login (a : AuthManager) (env : AuthEnv) (username password : Bytes) :
    Bytes × AuthManager :=
  match a.users.lookup username with
  | none => ([], a)
  | some user =>
    if !user.active then ([], a)
    else if user.passwordHash ≠ env.hashPassword password user.salt then ([], a)
    else
      let a := a.cleanupExpiredTokens env.now
      let session :=
        { token := env.token, username := username, role := user.role,
          expiresAt := env.now + a.tokenExpirySec }
      (env.token, { a with tokens := a.tokens.insert env.token session })

/-- The loop of `DropUser` over the users. -/
def AuthManager.adminCount (a : AuthManager) : Nat :=
  a.users.entries.countP fun entry => entry.2.role = .admin

/-- `DropUser`: it saves the users, and does not look whether they could be saved. -/
def AuthManager.dropUser (a : AuthManager) (env : AuthEnv) (requesterToken username : Bytes) :
    Bool × AuthManager :=
  match a.validateToken env.now requesterToken with
  | (none, a) => (false, a)
  | (some requester, a) =>
    if requester.role ≠ .admin then (false, a)
    else if requester.name = username then (false, a)
    else
      match a.users.lookup username with
      | none => (true, a)
      | some user =>
        if user.role = .admin ∧ a.adminCount ≤ 1 then (false, a)
        else (true, { a with users := a.users.erase username })

/-- The roles that `AlterUser` knows. -/
def roleOfText (value : Bytes) : Option UserRole :=
  if value = ascii "admin" then some .admin
  else if value = ascii "operator" then some .operator
  else if value = ascii "viewer" then some .viewer
  else none

/-- What `AlterUser` makes of the account. -/
def User.alter (user : User) (env : AuthEnv) (property value : Bytes) : Option User :=
  if property = ascii "password" then
    some { user with salt := env.salt, passwordHash := env.hashPassword value env.salt }
  else if property = ascii "role" then (roleOfText value).map fun role => { user with role := role }
  else none

/-- `AlterUser`: it saves the users as `DropUser` does. -/
def AuthManager.alterUser (a : AuthManager) (env : AuthEnv)
    (requesterToken username property value : Bytes) : Bool × AuthManager :=
  match a.validateToken env.now requesterToken with
  | (none, a) => (false, a)
  | (some requester, a) =>
    if requester.role ≠ .admin then (false, a)
    else
      match (a.users.lookup username).bind fun user => user.alter env property value with
      | none => (false, a)
      | some user => (true, { a with users := a.users.insert username user })

/-- `GetUsers`, in any order. -/
def AuthManager.getUsers (a : AuthManager) (now : Timestamp) (requesterToken : Bytes) :
    List User × AuthManager :=
  match a.validateToken now requesterToken with
  | (none, a) => ([], a)
  | (some requester, a) =>
    if requester.role ≠ .admin then ([], a) else (a.users.entries.map Sigma.snd, a)

/-- `SetTokenExpiry`. -/
def AuthManager.setTokenExpiry (a : AuthManager) (seconds : Int64) : AuthManager :=
  { a with tokenExpirySec := seconds }

/-- The operations an operator may not do: what starts with one of these. -/
def managementOps : List Bytes := [ascii "CREATE TAG", ascii "CREATE USER", ascii "ALTER SYSTEM"]

/-- `operation.find(op) == 0`. -/
def opStarts (operation op : Bytes) : Bool := find op operation = some 0

/-- What a role may do. -/
def UserRole.permits : UserRole → Bytes → Bool
  | .admin, _ => true
  | .operator, operation => !managementOps.any (opStarts operation)
  | _, operation => opStarts operation (ascii "SELECT")

def AuthManager.checkPermission (a : AuthManager) (now : Timestamp) (token operation : Bytes) :
    Bool × AuthManager :=
  match a.validateToken now token with
  | (none, a) => (false, a)
  | (some user, a) => (user.role.permits operation, a)

/-! ## Whose the token is -/

/-- The role of the user whose session the token is. -/
def AuthManager.roleOf (a : AuthManager) (now : Timestamp) (token : Bytes) : Option UserRole :=
  (a.validateToken now token).1.map User.role

theorem opStarts_iff {operation op : Bytes} : opStarts operation op = true ↔ op <+: operation := by
  rw [opStarts, decide_eq_true_iff]
  constructor
  · intro h
    have hat := (find_eq_some h).1
    rwa [List.drop_zero] at hat
  · exact find_at_front

theorem checkPermission_fst (a : AuthManager) (now : Timestamp) (token operation : Bytes) :
    (a.checkPermission now token operation).1
      = (a.roleOf now token).any fun role => role.permits operation := by
  unfold AuthManager.checkPermission AuthManager.roleOf
  cases h : a.validateToken now token with
  | mk user a' =>
    cases user with
    | none => rfl
    | some user => rfl

theorem checkPermission_snd (a : AuthManager) (now : Timestamp) (token operation : Bytes) :
    (a.checkPermission now token operation).2 = (a.validateToken now token).2 := by
  unfold AuthManager.checkPermission
  cases h : a.validateToken now token with
  | mk user a' =>
    cases user with
    | none => rfl
    | some user => rfl

/-- A session that is left is not expired, so the second look at the clock changes nothing. -/
theorem validateToken_eq (a : AuthManager) (now : Timestamp) (token : Bytes) :
    a.validateToken now token
      = (((a.cleanupExpiredTokens now).tokens.lookup token).bind fun session =>
          a.users.lookup session.username, a.cleanupExpiredTokens now) := by
  unfold AuthManager.validateToken
  dsimp only
  cases h : (a.cleanupExpiredTokens now).tokens.lookup token with
  | none => rfl
  | some session =>
    have hfresh : ¬ session.expiresAt < now := by
      unfold AuthManager.cleanupExpiredTokens at h
      rw [lookup_keep, Option.filter_eq_some_iff] at h
      simpa using h.2
    dsimp only
    rw [if_neg hfresh]
    rfl

/-- **Asking once does not change the answer**: what a call removes is expired already. -/
theorem roleOf_validateToken (a : AuthManager) (now : Timestamp) (token : Bytes) :
    (a.validateToken now token).2.roleOf now token = a.roleOf now token := by
  unfold AuthManager.roleOf
  rw [validateToken_eq, validateToken_eq]
  have hsame : ((a.cleanupExpiredTokens now).cleanupExpiredTokens now).tokens.lookup token
      = (a.cleanupExpiredTokens now).tokens.lookup token := lookup_keep_keep _ _ _
  dsimp only
  rw [hsame]
  rfl

/-! ## The administrator's own login -/

/-- **A user is created through the administrator's account, whoever asked for it**: it is enough
that the account is there and active, and that the name is free. -/
theorem createUser_adminLogin {a : AuthManager} {env : AuthEnv} {admin : User}
    {username password : Bytes} {role : UserRole}
    (hadmin : a.users.lookup (ascii "admin") = some admin) (hactive : admin.active = true)
    (hrole : admin.role = .admin) (hexpiry : ¬ env.now + a.tokenExpirySec < env.now)
    (hfree : a.users.lookup username = none) :
    ∃ user, user.role = role ∧
      ((a.adminLogin env).2.createUser env (a.adminLogin env).1 username password
        role).2.users.lookup username = some user := by
  unfold AuthManager.adminLogin
  simp only [hadmin, hactive, Bool.not_true, Bool.false_eq_true, if_false]
  unfold AuthManager.createUser
  rw [validateToken_eq]
  unfold AuthManager.cleanupExpiredTokens
  have hfresh : (!decide (env.now + a.tokenExpirySec < env.now)) = true := by
    simp only [hexpiry, decide_false, Bool.not_false]
  simp only [lookup_keep, AList.lookup_insert, Option.filter_some, hfresh, if_true,
    Option.bind_some, hadmin, hrole, ne_eq, not_true_eq_false, if_false, hfree, Option.isSome_none,
    Bool.false_eq_true]
  exact ⟨_, rfl, rfl⟩

end Auth
end MiniTSDB
