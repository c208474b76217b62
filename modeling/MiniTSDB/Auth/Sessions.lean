import MiniTSDB.Auth.Calls
import MiniTSDB.Auth.UserFile
import MiniTSDB.Lib.Runs

/-!
# Sessions of a user who has been dropped

A session names its user, and `DropUser` leaves the sessions. The token of one that was dropped is
worth nothing as long as there is no account of the name; when there is one again and the session
has not expired, the token is the new account's (`revoked_iff`).
-/

namespace MiniTSDB
namespace Auth

open Lib

/-- A call, or `Init` with what is there of the file of the users. -/
inductive SessionCall
  | call (c : AuthCall)
  | init (junk : LoadJunk) (file : Option Bytes)

def AuthManager.sessionStep (a : AuthManager) (c : AuthEnv × SessionCall) : AuthManager :=
  match c.2 with
  | .call call => a.call c.1 call
  | .init junk file => { a with users := (load junk a.users file).2 }

def AuthManager.runSessions (a : AuthManager) (calls : List (AuthEnv × SessionCall)) :
    AuthManager := calls.foldl AuthManager.sessionStep a

/-- The call returns the token, and it is one of the user's. -/
inductive Issues (a : AuthManager) (env : AuthEnv) (username token : Bytes) : AuthCall → Prop
  | login (password : Bytes) (htoken : (a.login env username password).1 = token)
      (hne : token ≠ []) : Issues a env username token (.login username password)
  | adminLogin (hname : username = ascii "admin") (htoken : (a.adminLogin env).1 = token)
      (hne : token ≠ []) : Issues a env username token .adminLogin

/-- The calls that take a new token from `GenerateToken`. -/
def SessionCall.generates : SessionCall → Bool
  | .call (.login _ _) => true
  | .call .adminLogin => true
  | _ => false

/-- What `GenerateToken` gave in these calls. -/
def generated (calls : List (AuthEnv × SessionCall)) : List Bytes :=
  (calls.filter fun c => c.2.generates).map fun c => c.1.token

/-- Nobody gets anything for the token, whenever it is shown. -/
def Refused (token : Bytes) (a : AuthManager) : Prop :=
  ∀ now, (a.validateToken now token).1 = none ∧
    ∀ operation, (a.checkPermission now token operation).1 = false

/-- The session is there, and has not expired. -/
def SessionAlive (a : AuthManager) (now : Timestamp) (token : Bytes) : Prop :=
  ((a.cleanupExpiredTokens now).tokens.lookup token).isSome = true

/-- There is an account of the name again, and the session of the token is still there. -/
def Revives (username token : Bytes) (a : AuthManager) (c : AuthEnv × SessionCall) : Prop :=
  match c.2 with
  | .call (.change (.create requesterToken name password role)) =>
    name = username ∧ Granted a c.1 (.create requesterToken name password role) ∧
      SessionAlive a c.1.now token
  | .init junk file =>
    ((load junk a.users file).2.lookup username).isSome = true ∧
      (a.tokens.lookup token).isSome = true
  | _ => False

/-! ## Sessions -/

/-- A session under the token is one of the user's. -/
def SessionOf (username token : Bytes) (a : AuthManager) : Prop :=
  ∀ session, a.tokens.lookup token = some session → session.username = username

theorem lookup_cleanup {a : AuthManager} {now : Timestamp} {token : Bytes} {session : SessionToken} :
    (a.cleanupExpiredTokens now).tokens.lookup token = some session ↔
      a.tokens.lookup token = some session ∧ ¬ session.expiresAt < now := by
  unfold AuthManager.cleanupExpiredTokens
  rw [lookup_keep, Option.filter_eq_some_iff]
  simp

/-- A call leaves the sessions, but for those that have expired and the one it makes. -/
theorem lookup_tokens_call {a : AuthManager} {env : AuthEnv} {call : AuthCall} {token : Bytes}
    (hnew : (SessionCall.call call).generates = true → env.token ≠ token) {session : SessionToken}
    (h : (a.call env call).tokens.lookup token = some session) :
    a.tokens.lookup token = some session := by
  have hclean : (a.cleanupExpiredTokens env.now).tokens.lookup token = some session →
      a.tokens.lookup token = some session := fun h => (lookup_cleanup.mp h).1
  have hother : ∀ made : SessionToken, env.token ≠ token →
      ((a.cleanupExpiredTokens env.now).tokens.insert env.token made).lookup token = some session →
        a.tokens.lookup token = some session := by
    intro made hne h
    rw [AList.lookup_insert_ne (Ne.symm hne)] at h
    exact hclean h
  cases call with
  | login username password =>
    simp only [AuthManager.call, AuthManager.login] at h
    split at h
    · exact h
    · split at h
      · exact h
      · split at h
        · exact h
        · -- the one way through that makes a session
          exact hother _ (hnew rfl) h
  | adminLogin =>
    simp only [AuthManager.call, AuthManager.adminLogin] at h
    split at h
    · exact h
    · split at h
      · exact h
      · exact hother _ (hnew rfl) h
  | validateToken shown =>
    rw [AuthManager.call, validateToken_snd] at h
    exact hclean h
  | checkPermission shown operation =>
    rw [AuthManager.call, checkPermission_snd, validateToken_snd] at h
    exact hclean h
  | change c =>
    rw [AuthManager.call] at h
    by_cases hgranted : Granted a env c
    · rw [change_granted hgranted] at h
      exact hclean h
    · rw [(change_refused hgranted).1] at h
      exact hclean h
  | getUsers shown =>
    rw [AuthManager.call, getUsers_snd] at h
    exact hclean h
  | setTokenExpiry seconds => exact h

theorem SessionOf.step {username token : Bytes} {a : AuthManager} {c : AuthEnv × SessionCall}
    (h : SessionOf username token a) (hnew : c.2.generates = true → c.1.token ≠ token) :
    SessionOf username token (a.sessionStep c) := by
  obtain ⟨env, step⟩ := c
  cases step with
  | call call => exact fun session hsession => h session (lookup_tokens_call hnew hsession)
  | init junk file => exact h

theorem SessionOf.run {username token : Bytes} {a : AuthManager}
    {calls : List (AuthEnv × SessionCall)} (h : SessionOf username token a)
    (hnew : token ∉ generated calls) : SessionOf username token (a.runSessions calls) := by
  induction calls generalizing a with
  | nil => exact h
  | cons c calls ih =>
    have hcons : (c.2.generates = true → c.1.token ≠ token) ∧ token ∉ generated calls := by
      unfold generated at hnew ⊢
      rw [List.filter_cons] at hnew
      split at hnew
      case isTrue =>
        rw [List.map_cons, List.mem_cons, not_or] at hnew
        exact ⟨fun _ => Ne.symm hnew.1, hnew.2⟩
      case isFalse hnot => exact ⟨fun hyes => absurd hyes hnot, hnew⟩
    exact ih (h.step hcons.1) hcons.2

/-- A login leaves the session that it returns the token of. -/
theorem Issues.sessionOf {a : AuthManager} {env : AuthEnv} {username token : Bytes} {call : AuthCall}
    (h : Issues a env username token call) : SessionOf username token (a.call env call) := by
  intro session hsession
  cases h with
  | login password htoken hne =>
    simp only [AuthManager.call, AuthManager.login] at hsession htoken
    split at hsession
    case h_1 hnone =>
      rw [hnone] at htoken
      exact absurd htoken.symm hne
    case h_2 user huser =>
      simp only [huser] at htoken
      split at hsession
      case isTrue hinactive =>
        rw [if_pos hinactive] at htoken
        exact absurd htoken.symm hne
      case isFalse hactive =>
        rw [if_neg hactive] at htoken
        split at hsession
        case isTrue hwrong =>
          rw [if_pos hwrong] at htoken
          exact absurd htoken.symm hne
        case isFalse hright =>
          rw [if_neg hright] at htoken
          have heq : env.token = token := htoken
          rw [heq, AList.lookup_insert, Option.some.injEq] at hsession
          rw [← hsession]
  | adminLogin hname htoken hne =>
    simp only [AuthManager.call, AuthManager.adminLogin] at hsession htoken
    split at hsession
    case h_1 hnone =>
      rw [hnone] at htoken
      exact absurd htoken.symm hne
    case h_2 user huser =>
      simp only [huser] at htoken
      split at hsession
      case isTrue hinactive =>
        rw [if_pos hinactive] at htoken
        exact absurd htoken.symm hne
      case isFalse hactive =>
        rw [if_neg hactive] at htoken
        have heq : env.token = token := htoken
        rw [heq, AList.lookup_insert, Option.some.injEq] at hsession
        rw [← hsession, hname]

/-! ## A token that is refused -/

/-- **A token is refused as long as its session or its account is missing.** -/
theorem refused_iff {username token : Bytes} {a : AuthManager} (h : SessionOf username token a) :
    Refused token a ↔ a.tokens.lookup token = none ∨ a.users.lookup username = none := by
  have hvalid : ∀ now, (a.validateToken now token).1
      = ((a.cleanupExpiredTokens now).tokens.lookup token).bind fun session =>
        a.users.lookup session.username := by
    intro now
    rw [validateToken_eq]
  constructor
  · intro hrefused
    rw [or_iff_not_imp_left]
    intro hsome
    obtain ⟨session, hsession⟩ := Option.ne_none_iff_exists'.mp hsome
    -- it is shown when the session ends
    have hnone := (hrefused session.expiresAt).1
    have hthere := lookup_cleanup.mpr ⟨hsession, Int64.lt_irrefl⟩
    rw [hvalid, hthere, Option.bind_some, h session hsession] at hnone
    exact hnone
  · intro hmissing now
    have hnone : (a.validateToken now token).1 = none := by
      rw [hvalid, Option.bind_eq_none_iff]
      intro session hsession
      have hthere := (lookup_cleanup.mp hsession).1
      rcases hmissing with hsession' | huser
      · rw [hsession'] at hthere
        cases hthere
      · rw [h session hthere, huser]
    refine ⟨hnone, fun operation => ?_⟩
    rw [checkPermission_fst, AuthManager.roleOf, hnone]
    rfl

/-- What keeps a token refused. -/
def Missing (username token : Bytes) (a : AuthManager) : Prop :=
  a.tokens.lookup token = none ∨ a.users.lookup username = none

theorem lookup_tokens_none {a : AuthManager} {env : AuthEnv} {call : AuthCall} {token : Bytes}
    (hnew : (SessionCall.call call).generates = true → env.token ≠ token)
    (h : a.tokens.lookup token = none) : (a.call env call).tokens.lookup token = none := by
  rw [Option.eq_none_iff_forall_ne_some] at h ⊢
  exact fun session hsession => h session (lookup_tokens_call hnew hsession)

/-- A change that is granted leaves the sessions that have not expired. -/
theorem lookup_tokens_granted {a : AuthManager} {env : AuthEnv} {c : UserChange}
    (h : Granted a env c) (token : Bytes) : (a.call env (.change c)).tokens.lookup token
      = (a.cleanupExpiredTokens env.now).tokens.lookup token := by
  rw [AuthManager.call, change_granted h]

/-- A change that is granted makes no account of the name, unless it creates one. -/
theorem lookup_users_granted {a : AuthManager} {env : AuthEnv} {c : UserChange} {username : Bytes}
    (hgranted : Granted a env c) (h : a.users.lookup username = none)
    (hcreate : ∀ token password role, c ≠ .create token username password role) :
    (a.call env (.change c)).users.lookup username = none := by
  obtain ⟨hnamed, hothers⟩ := reflects_applied hgranted
  rw [users_of_granted hgranted]
  by_cases hname : username = c.username
  · rw [hname, hnamed, ← hname, h]
    cases c with
    | create token name password role =>
      cases hname
      exact absurd rfl (hcreate token password role)
    | drop token name => rfl
    | alter token name property value => rfl
  · rw [hothers username hname, h]

/-- Only an account that is made revives. -/
theorem Revives.creates {username token : Bytes} {a : AuthManager} {env : AuthEnv} {call : AuthCall}
    (h : Revives username token a (env, .call call)) :
    ∃ shown password role, call = .change (.create shown username password role) ∧
      Granted a env (.create shown username password role) := by
  cases call with
  | change change =>
    cases change with
    | create shown name password role =>
      obtain ⟨rfl, hgranted, -⟩ := h
      exact ⟨shown, password, role, rfl, hgranted⟩
    | drop shown name => cases h
    | alter shown name property value => cases h
  | login name password => cases h
  | adminLogin => cases h
  | validateToken shown => cases h
  | checkPermission shown operation => cases h
  | getUsers shown => cases h
  | setTokenExpiry seconds => cases h

/-- **One call keeps the token refused**, unless it makes the account again while the session
lasts. -/
theorem missing_step {username token : Bytes} {a : AuthManager} {c : AuthEnv × SessionCall}
    (h : Missing username token a) (hnew : c.2.generates = true → c.1.token ≠ token) :
    Missing username token (a.sessionStep c) ↔ ¬ Revives username token a c := by
  obtain ⟨env, step⟩ := c
  cases step with
  | init junk file =>
    have hstep : Missing username token (a.sessionStep (env, .init junk file)) ↔
        a.tokens.lookup token = none ∨ (load junk a.users file).2.lookup username = none := Iff.rfl
    have hrevives : Revives username token a (env, .init junk file) ↔
        ((load junk a.users file).2.lookup username).isSome = true ∧
          (a.tokens.lookup token).isSome = true := Iff.rfl
    rw [hstep, hrevives, not_and_or, Option.not_isSome_iff_eq_none, Option.not_isSome_iff_eq_none,
      or_comm]
  | call call =>
    have hstep : a.sessionStep (env, .call call) = a.call env call := rfl
    rw [hstep]
    by_cases hgranted : ∃ change, call = .change change ∧ Granted a env change
    · obtain ⟨change, rfl, hgranted⟩ := hgranted
      by_cases hcreate : ∃ shown password role, change = .create shown username password role
      · -- the account is there again, and all depends on the session
        obtain ⟨shown, password, role, rfl⟩ := hcreate
        have huser : (a.call env (.change (.create shown username password role))).users.lookup
            username ≠ none := by
          rw [users_of_granted hgranted, applied, AList.lookup_insert]
          exact Option.some_ne_none _
        have hrevives : Revives username token a
            (env, .call (.change (.create shown username password role))) ↔
              SessionAlive a env.now token :=
          ⟨fun hrevives => hrevives.2.2, fun halive => ⟨rfl, hgranted, halive⟩⟩
        rw [hrevives, SessionAlive, Option.not_isSome_iff_eq_none,
          ← lookup_tokens_granted hgranted token]
        exact or_iff_left huser
      · have hnot : ¬ Revives username token a (env, .call (.change change)) := by
          intro hrevives
          obtain ⟨shown, password, role, hcall, -⟩ := hrevives.creates
          exact hcreate ⟨shown, password, role, AuthCall.change.inj hcall⟩
        refine iff_of_true ?_ hnot
        rcases h with htoken | huser
        · exact .inl (lookup_tokens_none hnew htoken)
        · exact .inr (lookup_users_granted hgranted huser
            fun shown password role heq => hcreate ⟨shown, password, role, heq⟩)
    · have hnot : ¬ Revives username token a (env, .call call) := by
        intro hrevives
        obtain ⟨shown, password, role, hcall, hmade⟩ := hrevives.creates
        exact hgranted ⟨_, hcall, hmade⟩
      refine iff_of_true ?_ hnot
      rcases h with htoken | huser
      · exact .inl (lookup_tokens_none hnew htoken)
      · right
        rw [users_of_not_granted fun change hcall hc => hgranted ⟨change, hcall, hc⟩, huser]

/-! ## Runs -/

theorem generated_append (calls calls' : List (AuthEnv × SessionCall)) :
    generated (calls ++ calls') = generated calls ++ generated calls' := by
  unfold generated
  rw [List.filter_append, List.map_append]

theorem token_ne_of_generated {calls : List (AuthEnv × SessionCall)} {token : Bytes}
    (h : token ∉ generated calls) {c : AuthEnv × SessionCall} (hc : c ∈ calls)
    (hnew : c.2.generates = true) : c.1.token ≠ token := by
  rintro rfl
  exact h (List.mem_map_of_mem (List.mem_filter.mpr ⟨hc, hnew⟩))

/-- **The token of a dropped user is refused for good exactly where no account of the name is made
while its session lasts.** -/
theorem revoked_iff {a : AuthManager} {env env' : AuthEnv} {call : AuthCall}
    {username token requesterToken : Bytes} {between after : List (AuthEnv × SessionCall)}
    (hissued : Issues a env username token call)
    (hfresh : token ∉ generated (between ++ after))
    (hdropped : Granted ((a.call env call).runSessions between) env'
      (.drop requesterToken username)) :
    (∀ front, front <+: after → Refused token ((((a.call env call).runSessions between).call env'
        (.change (.drop requesterToken username))).runSessions front)) ↔
      ∀ front c, front ++ [c] <+: after →
        ¬ Revives username token ((((a.call env call).runSessions between).call env'
          (.change (.drop requesterToken username))).runSessions front) c := by
  rw [generated_append, List.mem_append, not_or] at hfresh
  have hbefore := hissued.sessionOf.run hfresh.1
  have hnotNew : (SessionCall.call (.change (.drop requesterToken username))).generates = true →
      env'.token ≠ token := fun hnew => absurd hnew Bool.false_ne_true
  have hsession : SessionOf username token (((a.call env call).runSessions between).call env'
      (.change (.drop requesterToken username))) :=
    fun session h => hbefore session (lookup_tokens_call hnotNew h)
  have hmissing : Missing username token (((a.call env call).runSessions between).call env'
      (.change (.drop requesterToken username))) := by
    right
    rw [users_of_granted hdropped]
    exact AList.lookup_erase _ _
  -- from here on only the state behind the drop matters
  generalize ((a.call env call).runSessions between).call env'
    (.change (.drop requesterToken username)) = dropped at hsession hmissing ⊢
  have hfront : ∀ front, front <+: after →
      (Refused token (dropped.runSessions front) ↔
        Missing username token (dropped.runSessions front)) := by
    intro front hle
    refine refused_iff (hsession.run fun hmem => hfresh.2 ?_)
    obtain ⟨rest, rfl⟩ := hle
    rw [generated_append, List.mem_append]
    exact .inl hmem
  have hall : (∀ front, front <+: after → Refused token (dropped.runSessions front)) ↔
      ∀ front, front <+: after → Missing username token (dropped.runSessions front) :=
    forall_congr' fun front => forall_congr' fun hle => hfront front hle
  rw [hall]
  refine foldl_always_iff (Missing username token) (Revives username token) hmissing ?_
  intro front c hle hbefore
  refine missing_step hbefore fun hnew => token_ne_of_generated hfresh.2 ?_ hnew
  exact hle.subset (List.mem_append_right front (List.mem_singleton_self c))

/-- A call with the token that it may take. -/
def envOf (token : Bytes) : AuthEnv :=
  { envUnsaved with token := token, saves := true }

/-- The default administrator has made an account `b`. -/
def withB : AuthManager :=
  (((AuthManager.initial (envOf [])).adminLogin (envOf (ascii "a"))).2).call (envOf [])
    (.change (.create (ascii "a") (ascii "b") (ascii "p") 2))

theorem issues_withB : Issues withB (envOf (ascii "t")) (ascii "b") (ascii "t")
    (.login (ascii "b") (ascii "p")) := .login _ (by decide) (by decide)

theorem granted_dropB : Granted ((withB.call (envOf (ascii "t"))
    (.login (ascii "b") (ascii "p"))).runSessions []) (envOf []) (.drop (ascii "a") (ascii "b")) := by
  refine ⟨_, _, rfl, by decide, by decide, rfl, by decide⟩

/-- The account is dropped, and no other is made. -/
theorem revoked_shown :
    Refused (ascii "t") ((((withB.call (envOf (ascii "t"))
      (.login (ascii "b") (ascii "p"))).runSessions []).call (envOf [])
        (.change (.drop (ascii "a") (ascii "b")))).runSessions
          [(envOf [], SessionCall.call (.validateToken (ascii "t")))]) := by
  refine (revoked_iff issues_withB (by decide) granted_dropB).mpr ?_ _ List.prefix_rfl
  intro front c hle hrevives
  obtain ⟨rest, heq⟩ := hle
  cases front with
  | nil =>
    cases heq
    exact hrevives
  | cons first front =>
    have hlen := congrArg List.length heq
    simp at hlen

/-- The account is dropped, and made again: the old token is the new account's. -/
theorem revoked_token_revived :
    Issues withB (envOf (ascii "t")) (ascii "b") (ascii "t") (.login (ascii "b") (ascii "p")) ∧
    Granted (withB.call (envOf (ascii "t")) (.login (ascii "b") (ascii "p"))) (envOf [])
      (.drop (ascii "a") (ascii "b")) ∧
    ¬ Refused (ascii "t") (((withB.call (envOf (ascii "t")) (.login (ascii "b") (ascii "p"))).call
      (envOf []) (.change (.drop (ascii "a") (ascii "b")))).call
        (envOf []) (.change (.create (ascii "a") (ascii "b") (ascii "q") 0))) := by
  refine ⟨issues_withB, granted_dropB, ?_⟩
  intro h
  exact absurd (h 0).1 (by decide)

end Auth
end MiniTSDB
