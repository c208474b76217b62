import MiniTSDB.Auth.AuthManager
import MiniTSDB.Sql.ParserTotal

/-!
# What a request may run (`MiniTSDBServiceImpl::Query`)

The permission is asked for the text of the request as it came, and the parser reads the text
trimmed and in any case. An administrator is let through with every text and a viewer with those
in front of which `SELECT` stands, but what an operator must not do is told by the text alone:
`permissionAgrees_iff` says which texts get past that.
-/

namespace MiniTSDB
namespace Server

open Lib Sql Auth

/-- What becomes of a request. -/
inductive Outcome
  | denied
  | failed (errorMsg : Bytes)
  | executed (stmt : SQLStmt)
  deriving DecidableEq, Repr

/-- `Executor::Execute` before it looks at the statement: the permission an executor with a token
of its own asks for. -/
def executorPermits (a : AuthManager) (now : Timestamp) (token : Bytes) (stmt : SQLStmt) :
    Bool × AuthManager :=
  let op := getOperationName stmt
  if token.isEmpty ∨ op.isEmpty then (true, a) else a.checkPermission now token op

/-- `Executor::ExecuteSQL`. The parser says that it went well just when it has a statement. -/
def executeSQL (conv : Conversions) (a : AuthManager) (now : Timestamp) (token sql : Bytes) :
    Parsing (Outcome × AuthManager) := do
  let parsed ← parseSql conv sql
  match parsed.stmt with
  | none => return (.failed parsed.errorMsg, a)
  | some stmt =>
    let (permitted, a) := executorPermits a now token stmt
    if permitted then return (.executed stmt, a)
    else return (.failed (ascii "Permission denied: " ++ getOperationName stmt), a)

/-- `Query`: its executor has no token. -/
def query (conv : Conversions) (a : AuthManager) (now : Timestamp) (token sql : Bytes) :
    Parsing (Outcome × AuthManager) :=
  let (permitted, a) := a.checkPermission now token sql
  if permitted then executeSQL conv a now [] sql else return (.denied, a)

/-- The role a new user gets. -/
def roleNamed (role : Bytes) : UserRole :=
  let roleLower := toLower role
  if roleLower = ascii "admin" then .admin
  else if roleLower = ascii "operator" then .operator
  else .viewer

/-- `Executor::ExecuteCreateUser`: the administrator logs in to create the user. -/
def executeCreateUser (a : AuthManager) (env : AuthEnv) (stmt : CreateUserStmt) :
    Bool × AuthManager :=
  let (adminToken, a) := a.adminLogin env
  a.createUser env adminToken stmt.username stmt.password (roleNamed stmt.role)

/-! ## What runs -/

/-- **What runs is what was let through and the parser took**: the executor asks nothing more. -/
theorem query_executed_iff {conv : Conversions} {a a' : AuthManager} {now : Timestamp}
    {token sql : Bytes} {stmt : SQLStmt} :
    query conv a now token sql = .ok (.executed stmt, a') ↔
      (a.checkPermission now token sql).1 = true ∧ Accepts conv sql stmt ∧
        a' = (a.validateToken now token).2 := by
  unfold query
  rw [← checkPermission_snd a now token sql]
  obtain ⟨permitted, checked⟩ := a.checkPermission now token sql
  cases permitted with
  | false =>
    constructor
    · intro h
      cases h
    · intro h
      cases h.1
  | true =>
    dsimp only
    rw [if_pos rfl, executeSQL]
    constructor
    · intro h
      obtain ⟨r, hr, h⟩ := bind_eq_ok h
      cases hstmt : r.stmt with
      | none =>
        rw [hstmt] at h
        cases h
      | some stmt' =>
        rw [hstmt] at h
        cases h
        exact ⟨rfl, ⟨r, hr, hstmt⟩, rfl⟩
    · intro ⟨_, ⟨r, hr, hstmt⟩, ha⟩
      rw [hr, ha]
      change (match r.stmt with | none => _ | some stmt => _) = _
      rw [hstmt]
      rfl

/-! ## What an operator may not do -/

theorem permits_operator_iff {operation : Bytes} :
    UserRole.operator.permits operation = true ↔ ∀ op ∈ managementOps, ¬ op <+: operation := by
  unfold UserRole.permits
  rw [Bool.not_eq_true', List.any_eq_false]
  constructor
  · intro h op hop hfront
    exact h op hop (opStarts_iff.mpr hfront)
  · intro h op hop hstarts
    exact h op hop (opStarts_iff.mp hstarts)

/-- The parser tells a `CREATE TAG`, with an `S` or without, a `CREATE USER` and an
`ALTER SYSTEM` by what the text starts with. -/
theorem accepts_managementOp_iff {conv : Conversions} {sql : Bytes} {stmt : SQLStmt}
    (h : Accepts conv sql stmt) :
    (∃ op ∈ managementOps, op <+: getOperationName stmt) ↔
      ∃ op ∈ managementOps, startsWith (trim sql) op = true := by
  constructor
  · intro ⟨op, hop, hfront⟩
    exact ⟨op, hop, startsWith_iff.mpr (hfront.trans h.head)⟩
  · intro ⟨op, hop, hstarts⟩
    refine ⟨op, hop, ?_⟩
    unfold managementOps at hop
    rw [List.mem_cons, List.mem_cons, List.mem_singleton] at hop
    have hfuel : (trim sql).length < sql.length + 1 := Nat.lt_succ_of_le (length_trim_le sql)
    rcases hop with rfl | rfl | rfl
    · cases htags : startsWith (trim sql) (ascii "CREATE TAGS") with
      | true =>
        rw [h.operation htags (by decide) (dispatch_createTags htags)
          (parseCreateTags_returns hfuel)]
        exact ⟨ascii "S", rfl⟩
      | false =>
        rw [h.operation hstarts (by decide) (dispatch_createTag hstarts htags)
          (parseCreateTag_returns hstarts hfuel)]
    · rw [h.operation hstarts (by decide) (dispatch_createUser hstarts)
        (parseCreateUser_returns hstarts)]
    · rw [h.operation hstarts (by decide) (dispatch_alterSystem hstarts)
        (parseAlterSystem_returns (trim sql))]

/-- A `SELECT` that is let through is one for the parser. -/
theorem accepts_select {conv : Conversions} {sql : Bytes} {stmt : SQLStmt}
    (h : Accepts conv sql stmt) (hfront : ascii "SELECT" <+: sql) :
    getOperationName stmt = ascii "SELECT" := by
  have htrim : ascii "SELECT" <+: trim sql :=
    trim_keeps_front ⟨by decide, by decide⟩ (by decide) hfront
  have hstarts : startsWith (trim sql) (ascii "SELECT") = true := by
    rw [startsWith_iff]
    exact htrim.map upperChar
  exact h.operation hstarts (by decide) (dispatch_select hstarts)
    (parseSelect_returns hstarts (Nat.lt_succ_of_le (length_trim_le sql)))

/-! ## The text and its statement -/

/-- What runs, its token has the permission for; and no operator or viewer creates a user. -/
def PermissionAgrees (conv : Conversions) (a : AuthManager) (now : Timestamp)
    (token sql : Bytes) : Prop :=
  ∀ stmt a', query conv a now token sql = .ok (.executed stmt, a') →
    (a'.checkPermission now token (getOperationName stmt)).1 = true ∧
      ∀ user, stmt = .createUser user →
        a.roleOf now token ≠ some .operator ∧ a.roleOf now token ≠ some .viewer

/-- A text that is a management operation for the parser and none for the permission: it starts
with one only when it is trimmed or in upper case. -/
def HidesOperation (sql : Bytes) : Prop :=
  (∃ op ∈ managementOps, startsWith (trim sql) op = true) ∧ ∀ op ∈ managementOps, ¬ op <+: sql

instance (sql : Bytes) : Decidable (HidesOperation sql) :=
  inferInstanceAs (Decidable ((∃ op ∈ managementOps, startsWith (trim sql) op = true) ∧
    ∀ op ∈ managementOps, ¬ op <+: sql))

/-- A token that has the permission to create a user is an administrator's. -/
theorem not_permits_createUser {role : UserRole} (h : role.permits (ascii "CREATE USER") = true) :
    role = .admin := by
  cases role with
  | admin => rfl
  | operator => exact absurd h (by decide)
  | viewer => exact absurd (opStarts_iff.mp h) (by decide)
  | other byte => exact absurd (opStarts_iff.mp h) (by decide)

/-- **The permission for the text is one for its statement, unless an operator hides a management
operation**, in another case or behind blanks. -/
theorem permissionAgrees_iff {conv : Conversions} {a : AuthManager} {now : Timestamp}
    {token sql : Bytes} {stmt : SQLStmt} (haccepts : Accepts conv sql stmt) :
    PermissionAgrees conv a now token sql ↔
      ¬ (a.roleOf now token = some .operator ∧ HidesOperation sql) := by
  constructor
  · intro hagrees ⟨hrole, hmanagement, hraw⟩
    have hthrough : (a.checkPermission now token sql).1 = true := by
      rw [checkPermission_fst, hrole]
      exact permits_operator_iff.mpr hraw
    have hallowed := (hagrees stmt _ (query_executed_iff.mpr ⟨hthrough, haccepts, rfl⟩)).1
    rw [checkPermission_fst, roleOf_validateToken, hrole] at hallowed
    obtain ⟨op, hop, hfront⟩ := (accepts_managementOp_iff haccepts).mpr hmanagement
    exact permits_operator_iff.mp hallowed op hop hfront
  · intro hnot stmt' a' hquery
    obtain ⟨hthrough, haccepts', rfl⟩ := query_executed_iff.mp hquery
    rw [checkPermission_fst, Option.any_eq_true] at hthrough
    obtain ⟨role, hrole, hpermits⟩ := hthrough
    have hallowed : role.permits (getOperationName stmt') = true := by
      cases role with
      | admin => rfl
      | operator =>
        rw [permits_operator_iff]
        intro op hop hfront
        exact hnot ⟨hrole, (accepts_managementOp_iff haccepts').mp ⟨op, hop, hfront⟩,
          permits_operator_iff.mp hpermits⟩
      | viewer =>
        rw [accepts_select haccepts' (opStarts_iff.mp hpermits)]
        rfl
      | other byte =>
        rw [accepts_select haccepts' (opStarts_iff.mp hpermits)]
        rfl
    constructor
    · rw [checkPermission_fst, roleOf_validateToken, hrole]
      exact hallowed
    · intro user huser
      rw [huser] at hallowed
      rw [hrole, not_permits_createUser hallowed]
      exact ⟨by decide, by decide⟩

/-- The administrator and an operator. -/
def adminUser : User :=
  { name := ascii "admin", passwordHash := [], salt := [], role := .admin }

def operatorUser : User :=
  { name := ascii "op", passwordHash := [], salt := [], role := .operator }

/-- The two users, and the operator's session. -/
def withOperator : AuthManager :=
  { users := ((∅ : AList fun _ : Bytes => User).insert (ascii "admin") adminUser).insert
      (ascii "op") operatorUser
    tokens := (∅ : AList fun _ : Bytes => SessionToken).insert (ascii "t")
      { token := ascii "t", username := ascii "op", role := .operator, expiresAt := 100 } }

def noConversions : Conversions := { stod := fun _ => none, parseTimeString := fun _ => 0 }

def createEve : CreateUserStmt :=
  { username := ascii "eve", password := ascii "default123", role := ascii "admin" }

theorem permissionAgrees_upper : PermissionAgrees noConversions withOperator 0 (ascii "t")
    (ascii "CREATE USER eve ROLE admin") :=
  have haccepts : Accepts noConversions (ascii "CREATE USER eve ROLE admin")
      (.createUser createEve) := ⟨.success (.createUser createEve), by decide, rfl⟩
  (permissionAgrees_iff haccepts).mpr (by decide)

/-- An operator who writes `create user` in lower case makes an administrator. -/
theorem operator_creates_admin :
    ¬ PermissionAgrees noConversions withOperator 0 (ascii "t")
        (ascii "create user eve ROLE admin") ∧
      ∀ env : AuthEnv, env.now = 0 → ∃ user, user.role = .admin ∧
        (executeCreateUser (withOperator.validateToken 0 (ascii "t")).2 env
          createEve).2.users.lookup (ascii "eve") = some user := by
  constructor
  · intro hagrees
    have haccepts : Accepts noConversions (ascii "create user eve ROLE admin")
        (.createUser createEve) := ⟨.success (.createUser createEve), by decide, rfl⟩
    have hthrough : (withOperator.checkPermission 0 (ascii "t")
        (ascii "create user eve ROLE admin")).1 = true := by decide
    have hquery := query_executed_iff.mpr ⟨hthrough, haccepts, rfl⟩
    exact absurd (hagrees _ _ hquery).1 (by decide)
  · intro env hnow
    have hadmin : (withOperator.validateToken 0 (ascii "t")).2.users.lookup (ascii "admin")
        = some adminUser := by decide
    have hfree : (withOperator.validateToken 0 (ascii "t")).2.users.lookup (ascii "eve")
        = none := by decide
    have hexpiry : ¬ env.now + (withOperator.validateToken 0 (ascii "t")).2.tokenExpirySec
        < env.now := by
      rw [hnow]
      decide
    exact createUser_adminLogin hadmin rfl rfl hexpiry hfree

end Server
end MiniTSDB
