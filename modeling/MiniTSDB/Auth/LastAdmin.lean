import MiniTSDB.Auth.Calls
import MiniTSDB.Lib.Runs

/-!
# The last administrator

`DropUser` never takes the last administrator away, since nobody may drop himself. `AlterUser` has
no such guard: an administrator can give up his own role. A run keeps an administrator exactly as
long as nobody who is the only one does (`alwaysAdmin_iff`).
-/

namespace MiniTSDB
namespace Auth

open Lib

/-- There is an account that is active and an administrator's. -/
def HasAdmin (a : AuthManager) : Prop :=
  ∃ name user, a.users.lookup name = some user ∧ user.active = true ∧ user.role = .admin

/-- An administrator makes another role his, and there is no other administrator. -/
def DemotesLastAdmin (a : AuthManager) (env : AuthEnv) : AuthCall → Prop
  | .change (.alter token username property value) =>
    a.roleOf env.now token = some .admin ∧ (a.users.lookup username).isSome = true ∧
      property = ascii "role" ∧ (value = ascii "operator" ∨ value = ascii "viewer") ∧
      ∀ name user, name ≠ username → a.users.lookup name = some user → user.role ≠ .admin
  | _ => False

/-- What holds of the accounts as long as no file is loaded. -/
structure Accounts (users : Users) : Prop where
  keyed : ∀ name user, users.lookup name = some user → user.name = name
  active : ∀ name user, users.lookup name = some user → user.active = true

theorem accounts_initial (env : AuthEnv) : Accounts (AuthManager.initial env).users := by
  have hlookup : ∀ name user, (AuthManager.initial env).users.lookup name = some user →
      name = ascii "admin" ∧ user.name = ascii "admin" ∧ user.active = true := by
    intro name user h
    unfold AuthManager.initial at h
    by_cases hname : name = ascii "admin"
    · rw [hname, AList.lookup_insert, Option.some.injEq] at h
      rw [← h]
      exact ⟨hname, rfl, rfl⟩
    · rw [AList.lookup_insert_ne hname, AList.lookup_empty] at h
      cases h
  constructor
  · intro name user h
    rw [(hlookup name user h).1, (hlookup name user h).2.1]
  · exact fun name user h => (hlookup name user h).2.2

theorem hasAdmin_initial (env : AuthEnv) : HasAdmin (.initial env) :=
  ⟨ascii "admin", _, AList.lookup_insert _, rfl, rfl⟩

/-- A change of an account keeps its name, and that it is active. -/
theorem alter_keeps {user user' : User} {env : AuthEnv} {property value : Bytes}
    (h : user.alter env property value = some user') :
    user'.name = user.name ∧ user'.active = user.active := by
  unfold User.alter at h
  split at h
  · cases h
    exact ⟨rfl, rfl⟩
  · split at h
    · obtain ⟨role, -, rfl⟩ := Option.map_eq_some_iff.mp h
      exact ⟨rfl, rfl⟩
    · cases h

theorem Accounts.applied {a : AuthManager} {env : AuthEnv} {c : UserChange}
    (h : Accounts a.users) (hgranted : Granted a env c) :
    Accounts (applied a.users env c) := by
  have hentry : ∀ name user, (Auth.applied a.users env c).lookup name = some user →
      user.name = name ∧ user.active = true := by
    intro name user hlookup
    refine forall_applied (P := fun name user => user.name = name ∧ user.active = true)
      (fun name user hlookup => ⟨h.keyed _ _ hlookup, h.active _ _ hlookup⟩) hgranted ?_ hlookup
    intro user houtcome
    cases c with
    | create token username password role =>
      cases houtcome
      exact ⟨rfl, rfl⟩
    | drop token username => cases houtcome
    | alter token username property value =>
      obtain ⟨before, hbefore, halter⟩ := Option.bind_eq_some_iff.mp houtcome
      rw [(alter_keeps halter).1, (alter_keeps halter).2]
      exact ⟨h.keyed _ _ hbefore, h.active _ _ hbefore⟩
  exact ⟨fun name user hlookup => (hentry name user hlookup).1,
    fun name user hlookup => (hentry name user hlookup).2⟩

theorem Accounts.call {a : AuthManager} (h : Accounts a.users) (env : AuthEnv) (call : AuthCall) :
    Accounts (a.call env call).users := by
  by_cases hgranted : ∃ c, call = .change c ∧ Granted a env c
  · obtain ⟨c, rfl, hgranted⟩ := hgranted
    rw [users_of_granted hgranted]
    exact h.applied hgranted
  · rw [users_of_not_granted fun c hcall hc => hgranted ⟨c, hcall, hc⟩]
    exact h

/-- The requester has an account of his name. -/
theorem Accounts.requester {a : AuthManager} (h : Accounts a.users) {now : Timestamp}
    {token : Bytes} {requester : User} (hvalid : (a.validateToken now token).1 = some requester) :
    a.users.lookup requester.name = some requester := by
  rw [validateToken_eq] at hvalid
  obtain ⟨session, -, hlookup⟩ := Option.bind_eq_some_iff.mp hvalid
  rw [h.keyed _ _ hlookup, hlookup]

/-- An account that is altered has its role, or another one that it is given. -/
theorem role_of_alter {user user' : User} {env : AuthEnv} {property value : Bytes}
    (h : user.alter env property value = some user') :
    user'.role = user.role ∨ (property = ascii "role" ∧ roleOfText value = some user'.role) := by
  unfold User.alter at h
  split at h
  · cases h
    exact .inl rfl
  · split at h
    case isTrue hproperty =>
      obtain ⟨role, hrole, rfl⟩ := Option.map_eq_some_iff.mp h
      exact .inr ⟨hproperty, hrole⟩
    case isFalse => cases h

theorem roleOfText_of_ne_admin {value : Bytes} {role : UserRole} (h : roleOfText value = some role)
    (hrole : role ≠ .admin) : value = ascii "operator" ∨ value = ascii "viewer" := by
  unfold roleOfText at h
  split at h
  · cases h
    exact absurd rfl hrole
  · split at h
    case isTrue hvalue => exact .inl hvalue
    case isFalse =>
      split at h
      case isTrue hvalue => exact .inr hvalue
      case isFalse => cases h

theorem roleOfText_demoted {value : Bytes} (h : value = ascii "operator" ∨ value = ascii "viewer") :
    ∃ role, roleOfText value = some role ∧ role ≠ .admin := by
  rcases h with rfl | rfl
  · exact ⟨.operator, by decide, by decide⟩
  · exact ⟨.viewer, by decide, by decide⟩

/-- **A granted call keeps an administrator**, unless it takes the role from the last one. -/
theorem HasAdmin.applied {a : AuthManager} {env : AuthEnv} {c : UserChange}
    (haccounts : Accounts a.users) (hadmin : HasAdmin a) (hgranted : Granted a env c)
    (hlast : ¬ DemotesLastAdmin a env (.change c)) : HasAdmin (a.call env (.change c)) := by
  obtain ⟨name, user, hlookup, hactive, hrole⟩ := hadmin
  have hothers := (reflects_applied hgranted).2
  unfold HasAdmin
  rw [users_of_granted hgranted]
  cases c with
  | create token username password role =>
    have hne : name ≠ username := by
      intro heq
      rw [heq, hgranted.2] at hlookup
      cases hlookup
    exact ⟨name, user, (hothers name hne).trans hlookup, hactive, hrole⟩
  | drop token username =>
    -- the one who asks for it stays
    obtain ⟨requester, -, hvalid, hrequester, hother, -⟩ := hgranted
    have hthere := haccounts.requester hvalid
    exact ⟨requester.name, requester, (hothers _ hother).trans hthere,
      haccounts.active _ _ hthere, hrequester⟩
  | alter token username property value =>
    obtain ⟨hrequester, before, hbefore, halter⟩ := hgranted
    obtain ⟨after, halter⟩ := Option.isSome_iff_exists.mp halter
    have hafter : (Auth.applied a.users env (.alter token username property value)).lookup username
        = some after := lookup_altered hbefore halter
    by_cases hstays : after.role = .admin
    · refine ⟨username, after, hafter, ?_, hstays⟩
      rw [(alter_keeps halter).2]
      exact haccounts.active _ _ hbefore
    · by_cases hname : name = username
      · -- it was this one's role, so there is another
        rw [hname, hbefore, Option.some.injEq] at hlookup
        rw [← hlookup] at hrole
        rcases role_of_alter halter with hsame | ⟨hproperty, hvalue⟩
        · exact absurd (hsame.trans hrole) hstays
        · by_contra hnone
          refine hlast ⟨hrequester, by rw [hbefore]; rfl, hproperty,
            roleOfText_of_ne_admin hvalue hstays, ?_⟩
          intro other user' hother huser' hrole'
          exact hnone ⟨other, user', (hothers other hother).trans huser',
            haccounts.active _ _ huser', hrole'⟩
      · exact ⟨name, user, (hothers name hname).trans hlookup, hactive, hrole⟩

/-- **What one call does**: it takes the last administrator away exactly where it says so. -/
theorem hasAdmin_call {a : AuthManager} (haccounts : Accounts a.users) (hadmin : HasAdmin a)
    (env : AuthEnv) (call : AuthCall) :
    HasAdmin (a.call env call) ↔ ¬ DemotesLastAdmin a env call := by
  constructor
  · intro hafter hlast
    cases call with
    | change c =>
      cases c with
      | alter token username property value =>
        obtain ⟨hrequester, hthere, hproperty, hvalue, honly⟩ := hlast
        obtain ⟨before, hbefore⟩ := Option.isSome_iff_exists.mp hthere
        obtain ⟨role, hrole, hne⟩ := roleOfText_demoted hvalue
        have hnot : ascii "role" ≠ ascii "password" := by decide
        have halter : before.alter env property value = some { before with role := role } := by
          rw [User.alter, hproperty, if_neg hnot, if_pos rfl, hrole]
          rfl
        have hgranted : Granted a env (.alter token username property value) :=
          ⟨hrequester, before, hbefore, by rw [halter]; rfl⟩
        have hothers := (reflects_applied hgranted).2
        obtain ⟨name, user, hlookup, -, huser⟩ := hafter
        rw [users_of_granted hgranted] at hlookup
        by_cases hname : name = username
        · rw [hname, lookup_altered hbefore halter, Option.some.injEq] at hlookup
          rw [← hlookup] at huser
          exact hne huser
        · rw [hothers name hname] at hlookup
          exact honly name user hname hlookup huser
      | create token username password role => exact hlast
      | drop token username => exact hlast
    | login username password => exact hlast
    | adminLogin => exact hlast
    | validateToken token => exact hlast
    | checkPermission token operation => exact hlast
    | getUsers token => exact hlast
    | setTokenExpiry seconds => exact hlast
  · intro hlast
    by_cases hgranted : ∃ c, call = .change c ∧ Granted a env c
    · obtain ⟨c, rfl, hgranted⟩ := hgranted
      exact hadmin.applied haccounts hgranted hlast
    · unfold HasAdmin
      rw [users_of_not_granted fun c hcall hc => hgranted ⟨c, hcall, hc⟩]
      exact hadmin

/-! ## Runs -/

theorem accounts_runCalls (env : AuthEnv) (calls : List (AuthEnv × AuthCall)) :
    Accounts ((AuthManager.initial env).runCalls calls).users := by
  induction calls using List.reverseRecOn with
  | nil => exact accounts_initial env
  | append_singleton calls c ih =>
    rw [AuthManager.runCalls, foldl_concat]
    exact ih.call c.1 c.2

/-- **A run has an administrator in every state exactly where none of its calls takes the role from
the last one.** -/
theorem alwaysAdmin_iff (env : AuthEnv) (calls : List (AuthEnv × AuthCall)) :
    (∀ front, front <+: calls → HasAdmin ((AuthManager.initial env).runCalls front)) ↔
      ∀ front c, front ++ [c] <+: calls →
        ¬ DemotesLastAdmin ((AuthManager.initial env).runCalls front) c.1 c.2 :=
  foldl_always_iff HasAdmin
    (fun (a : AuthManager) (c : AuthEnv × AuthCall) => DemotesLastAdmin a c.1 c.2)
    (hasAdmin_initial env)
    fun front c _ hadmin => hasAdmin_call (accounts_runCalls env front) hadmin c.1 c.2

/-- The default administrator makes himself a viewer: nobody is left who could undo it. -/
theorem admin_demotes_himself : ¬ HasAdmin ((AuthManager.initial envUnsaved).runCalls
    [(envUnsaved, .adminLogin),
      (envUnsaved, .change (.alter (ascii "a") (ascii "admin") (ascii "role") (ascii "viewer")))])
    := by
  rintro ⟨name, user, hlookup, -, hrole⟩
  have hviewer : ∀ entry ∈ ((AuthManager.initial envUnsaved).runCalls
      [(envUnsaved, .adminLogin), (envUnsaved, .change (.alter (ascii "a") (ascii "admin")
        (ascii "role") (ascii "viewer")))]).users.entries, entry.2.role = .viewer := by decide
  have hentry := hviewer _ (AList.mem_lookup_iff.mp hlookup)
  rw [hrole] at hentry
  cases hentry

end Auth
end MiniTSDB
