import MiniTSDB.Auth.Calls
import MiniTSDB.Auth.Sha256
import MiniTSDB.Auth.UserFile
import MiniTSDB.Lib.Keep
import MiniTSDB.Lib.Runs

/-!
# The accounts from one process to the next (`Save`, then `Init`)

`Save` takes 32 bytes for a salt and any number of accounts; `Load` takes at most 1000. An account
of a file without salts has none until its password is altered. `saved_roundTrips_iff` says that
these are the only two ways in which the accounts do not come back.
-/

namespace MiniTSDB
namespace Auth

open Lib Os

/-- `Init`, and what is then there of the file: `Save` replaces it where nothing could be loaded.
`order` and `beyond` are what that `Save` comes upon. -/
def init (junk : LoadJunk) (users : Users) (file : Option Bytes) (saves : Bool)
    (order : List (Sigma fun _ : Bytes => User)) (beyond : Bytes → Nat → UInt8) :
    Users × Option Bytes :=
  match load junk users file with
  | (true, users) => (users, file)
  | (false, users) => (users, if saves then some (saveBytes order beyond) else file)

/-- The digest and the salt are the program's own. -/
structure AuthEnv.Real (env : AuthEnv) : Prop where
  hash : env.hashPassword = Auth.hashPassword
  salt : ∃ drawn, env.salt = generateSalt drawn

/-- The file has these accounts. -/
def FileHas (file : Option Bytes) (users : Users) : Prop :=
  ∃ data records, file = some data ∧ HoldsRecords data records ∧
    ∀ name, (usersOf records).lookup name = users.lookup name

/-- `Save` takes nothing from beyond a salt's end, and what it writes is what `Init` of another
`AuthManager` then has and leaves in the file. -/
structure RoundTrips (users : Users) : Prop where
  within : ∀ name user, users.lookup name = some user → 32 ≤ user.salt.length
  back : ∀ order beyond, order.Perm users.entries →
    ∀ (junk : LoadJunk) (env : AuthEnv) (saves : Bool)
      (order' : List (Sigma fun _ : Bytes => User)) (beyond' : Bytes → Nat → UInt8),
      env.Real → order'.Perm (AuthManager.initial env).users.entries →
        (∀ name, (init junk (AuthManager.initial env).users (some (saveBytes order beyond)) saves
          order' beyond').1.lookup name = users.lookup name) ∧
        FileHas (init junk (AuthManager.initial env).users (some (saveBytes order beyond)) saves
          order' beyond').2 users

/-! ## Accounts that fit into the file -/

/-- Every field has the width it has in the file, but for a salt that is missing. -/
structure Fits (name : Bytes) (user : User) : Prop where
  name_eq : user.name = name
  name_lt : name.length < 2 ^ 16
  hash_lt : user.passwordHash.length < 2 ^ 16
  salt : user.salt = [] ∨ user.salt.length = 32
  role : UserRole.ofByte user.role.toByte = user.role

theorem toByte_ofByte (byte : UInt8) : (UserRole.ofByte byte).toByte = byte := by
  unfold UserRole.ofByte
  split
  case isTrue h => exact h.symm
  case isFalse =>
    split
    case isTrue h => exact h.symm
    case isFalse =>
      split
      case isTrue h => exact h.symm
      case isFalse => rfl

theorem Spells.fits {hasSalt : Bool} {bytes : Bytes} {user : User} {active : UInt8}
    (h : Spells hasSalt bytes user active) : Fits user.name user where
  name_eq := rfl
  name_lt := h.name_lt
  hash_lt := h.hash_lt
  salt := by
    have hlen := h.length_salt
    cases hasSalt with
    | true => exact .inr hlen
    | false => exact .inl (List.length_eq_zero_iff.mp hlen)
  role := h.role_eq

/-- A map that is filled from records has nothing but these, each under its name. -/
theorem lookup_usersOf {records : List User} {name : Bytes} {user : User}
    (h : (usersOf records).lookup name = some user) : user ∈ records ∧ user.name = name := by
  induction records using List.reverseRecOn with
  | nil =>
    rw [usersOf, List.foldl_nil, AList.lookup_empty] at h
    cases h
  | append_singleton records last ih =>
    rw [usersOf, foldl_concat] at h
    by_cases hname : name = last.name
    · rw [hname, AList.lookup_insert, Option.some.injEq] at h
      rw [hname, ← h]
      exact ⟨List.mem_append_right _ (List.mem_singleton.mpr rfl), rfl⟩
    · rw [AList.lookup_insert_ne hname] at h
      exact ⟨List.mem_append_left _ (ih h).1, (ih h).2⟩

theorem fits_of_spells {hasSalt : Bool} {pieces : List Bytes} {records : List User}
    (h : List.Forall₂ (fun piece user => ∃ active, Spells hasSalt piece user active) pieces
      records) : ∀ user ∈ records, Fits user.name user := by
  induction h with
  | nil => exact fun user hmem => absurd hmem List.not_mem_nil
  | cons hpiece _ ih =>
    intro user hmem
    rcases List.mem_cons.mp hmem with rfl | hmem
    · obtain ⟨active, hpiece⟩ := hpiece
      exact hpiece.fits
    · exact ih user hmem

theorem HoldsRecords.fits {data : Bytes} {records : List User} (h : HoldsRecords data records)
    {name : Bytes} {user : User} (hlookup : (usersOf records).lookup name = some user) :
    Fits name user := by
  obtain ⟨hasSalt, body, pieces, rest, -, -, hspells⟩ := h
  obtain ⟨hmem, rfl⟩ := lookup_usersOf hlookup
  exact fits_of_spells hspells user hmem

/-- An account that is made or altered fits, if its name does. -/
theorem Fits.outcome {env : AuthEnv} (hreal : env.Real) {c : UserChange} {before : Option User}
    (hbefore : ∀ user, before = some user → Fits c.username user)
    (hname : ∀ token username password role, c = .create token username password role →
      username.length < 2 ^ 16) {user : User} (houtcome : c.outcome env before = some user) :
    Fits c.username user := by
  obtain ⟨drawn, hsalt⟩ := hreal.salt
  have hnewSalt : env.salt.length = 32 := by rw [hsalt, length_generateSalt]
  have hnewHash : ∀ password, (env.hashPassword password env.salt).length < 2 ^ 16 := by
    intro password
    rw [hreal.hash, length_hashPassword]
    decide
  cases c with
  | create token username password role =>
    cases houtcome
    exact
      { name_eq := rfl
        name_lt := hname token username password role rfl
        hash_lt := hnewHash password
        salt := .inr hnewSalt
        role := congrArg UserRole.ofByte (toByte_ofByte role) }
  | drop token username => cases houtcome
  | alter token username property value =>
    obtain ⟨user₀, hthere, halter⟩ := Option.bind_eq_some_iff.mp houtcome
    have hfits := hbefore user₀ hthere
    unfold User.alter at halter
    split at halter
    · -- a new password brings a new salt
      cases halter
      exact { hfits with hash_lt := hnewHash value, salt := .inr hnewSalt }
    · split at halter
      · obtain ⟨role, hrole, rfl⟩ := Option.map_eq_some_iff.mp halter
        refine { hfits with role := ?_ }
        unfold roleOfText at hrole
        split at hrole
        · cases hrole
          rfl
        · split at hrole
          · cases hrole
            rfl
          · split at hrole
            · cases hrole
              rfl
            · cases hrole
      · cases halter

/-! ## Runs -/

/-- A name of an account that a call creates fits into its field. -/
def NamesFit (calls : List (AuthEnv × AuthCall)) : Prop :=
  ∀ env token username password role,
    (env, .change (.create token username password role)) ∈ calls → username.length ≤ 65535

theorem fits_runCalls {a : AuthManager}
    (hfits : ∀ name user, a.users.lookup name = some user → Fits name user)
    {calls : List (AuthEnv × AuthCall)} (hreal : ∀ c ∈ calls, c.1.Real) (hnames : NamesFit calls) :
    ∀ name user, (a.runCalls calls).users.lookup name = some user → Fits name user := by
  induction calls using List.reverseRecOn with
  | nil => exact hfits
  | append_singleton calls c ih =>
    have hbefore := ih (fun c hc => hreal c (List.mem_append_left _ hc))
      fun env token username password role hc =>
        hnames env token username password role (List.mem_append_left _ hc)
    have hlast : c ∈ calls ++ [c] := List.mem_append_right _ (List.mem_singleton.mpr rfl)
    obtain ⟨env, call⟩ := c
    rw [AuthManager.runCalls, foldl_concat]
    show ∀ name user, ((a.runCalls calls).call env call).users.lookup name = some user → _
    by_cases hgranted : ∃ c, call = .change c ∧ Granted (a.runCalls calls) env c
    · obtain ⟨c, rfl, hgranted⟩ := hgranted
      rw [users_of_granted hgranted]
      refine fun name user => forall_applied hbefore hgranted fun user houtcome =>
        Fits.outcome (hreal _ hlast) (hbefore _) ?_ houtcome
      rintro token username password role rfl
      exact Nat.lt_succ_of_le (hnames env token username password role hlast)
    · rw [users_of_not_granted fun c hcall hc => hgranted ⟨c, hcall, hc⟩]
      exact hbefore

/-! ## The file that is saved -/

theorem length_saltField (salt : Bytes) (beyond : Nat → UInt8) :
    (saltField salt beyond).length = 32 := by
  rw [saltField, List.length_map, List.length_range]

theorem saltField_eq {salt : Bytes} (h : salt.length = 32) (beyond : Nat → UInt8) :
    saltField salt beyond = salt := by
  refine List.ext_getElem (by rw [length_saltField, h]) fun i hi hi' => ?_
  have hpoint : (saltField salt beyond)[i] = salt[i]?.getD (beyond i) := by simp [saltField]
  rw [hpoint, List.getElem?_eq_getElem hi']
  rfl

theorem Fits.spells {name : Bytes} {user : User} (h : Fits name user) (hsalt : user.salt ≠ [])
    (beyond : Nat → UInt8) :
    Spells true (saveRecord name user beyond) user (if user.active then 1 else 0) := by
  have hlen : user.salt.length = 32 := h.salt.resolve_left hsalt
  obtain ⟨rfl, hname, hhash, -, hrole⟩ := h
  refine ⟨hname, hhash, hlen, hrole, ?_, ?_⟩
  · cases user.active <;> rfl
  · unfold saveRecord
    rw [Nat.mod_eq_of_lt hname, Nat.mod_eq_of_lt hhash, List.take_length, List.take_length,
      saltField_eq hlen]
    simp only [List.append_assoc]

/-- **What is saved has the accounts**, if each of them fits and they are not too many to count. -/
theorem saveBytes_holds {order : List (Sigma fun _ : Bytes => User)}
    (hfits : ∀ entry ∈ order, Fits entry.1 entry.2 ∧ entry.2.salt ≠ [])
    (hcount : order.length < 2 ^ 32) (beyond : Bytes → Nat → UInt8) :
    HoldsRecords (saveBytes order beyond) (order.map Sigma.snd) := by
  refine ⟨true, order.flatMap fun entry => saveRecord entry.1 entry.2 (beyond entry.1),
    order.map fun entry => saveRecord entry.1 entry.2 (beyond entry.1), [], ?_, ?_, ?_⟩
  · rw [List.length_map]
    refine .versioned 2 order.length _ hcount ?_
    unfold saveBytes
    simp only [List.append_assoc, List.cons_append]
  · rw [List.append_nil, List.flatMap_def]
  · rw [List.forall₂_map_left_iff, List.forall₂_map_right_iff, List.forall₂_same]
    exact fun entry hmem => ⟨_, (hfits entry hmem).1.spells (hfits entry hmem).2 _⟩

theorem lookup_usersOf_entries {users : Users} {order : List (Sigma fun _ : Bytes => User)}
    (horder : order.Perm users.entries) (hkeyed : ∀ entry ∈ order, entry.2.name = entry.1)
    (name : Bytes) : (usersOf (order.map Sigma.snd)).lookup name = users.lookup name := by
  have hnodup : order.NodupKeys := (List.perm_nodupKeys horder).mpr users.nodupKeys
  have hfill : usersOf (order.map Sigma.snd)
      = order.foldl (fun users entry => users.insert entry.1 entry.2) ∅ := by
    rw [usersOf, List.foldl_map]
    refine List.foldl_ext _ _ _ fun users entry hmem => ?_
    rw [hkeyed entry hmem]
  rw [hfill, lookup_foldl_insert hnodup, AList.lookup_empty, Option.or_none]
  exact List.perm_dlookup name hnodup horder

/-! ## The limit -/

theorem length_loadRecords_le (hasSalt : Bool) (junk : Nat → RecordJunk) (n i : Nat) (f : File)
    (users : Users) :
    (loadRecords hasSalt junk n i f users).entries.length ≤ users.entries.length + n := by
  induction n generalizing i f users with
  | zero => exact Nat.le_refl _
  | succ n ih =>
    cases hrecord : loadRecord hasSalt (junk i) f with
    | mk user f' =>
      have hrest := ih (i + 1) f' (users.insert user.name user)
      have hinsert := length_insert_le users user.name user
      rw [loadRecords, hrecord]
      dsimp only
      omega

/-- **More than 1000 accounts never come back.** -/
theorem length_load_le (junk : LoadJunk) (users : Users) (file : Option Bytes) :
    (load junk users file).2.entries.length ≤ max users.entries.length 1000 := by
  cases file with
  | none => exact Nat.le_max_left _ _
  | some data =>
    obtain ⟨hasSalt, count, f, hload, -⟩ := load_header junk users data
    rw [hload, loadUsers]
    split
    · exact Nat.le_max_left _ _
    case isFalse hcount =>
      have hlen := length_loadRecords_le hasSalt junk.record count 0 f ∅
      have hempty : (∅ : Users).entries.length = 0 := rfl
      dsimp only
      omega

theorem init_fst (junk : LoadJunk) (users : Users) (file : Option Bytes) (saves : Bool)
    (order : List (Sigma fun _ : Bytes => User)) (beyond : Bytes → Nat → UInt8) :
    (init junk users file saves order beyond).1 = (load junk users file).2 := by
  unfold init
  cases h : load junk users file with
  | mk res users' =>
    cases res with
    | true => rfl
    | false => rfl

/-- An outside that is real. -/
def envReal : AuthEnv where
  now := 0
  token := ascii "a"
  salt := generateSalt fun _ => 0
  hashPassword := hashPassword
  saves := true

theorem envReal_real : envReal.Real := ⟨rfl, fun _ => 0, rfl⟩

/-- **Accounts come back exactly where there are at most 1000 of them, each with a salt.** -/
theorem roundTrips_iff {users : Users}
    (hfits : ∀ name user, users.lookup name = some user → Fits name user) :
    RoundTrips users ↔ users.entries.length ≤ 1000 ∧
      ∀ name user, users.lookup name = some user → user.salt ≠ [] := by
  constructor
  · intro h
    constructor
    · -- the loader takes no more than 1000 records
      have hback := (h.back users.entries (fun _ _ => 0) (List.Perm.refl _) .zeros envReal true
        (AuthManager.initial envReal).users.entries (fun _ _ => 0) envReal_real
        (List.Perm.refl _)).1
      have hlen := length_load_le .zeros (AuthManager.initial envReal).users
        (some (saveBytes users.entries fun _ _ => 0))
      rw [← init_fst, length_entries_of_lookup hback] at hlen
      exact hlen
    · intro name user hlookup hnil
      have hlen := h.within name user hlookup
      rw [hnil] at hlen
      exact absurd hlen (by decide)
  · rintro ⟨hcount, hsalt⟩
    constructor
    · intro name user hlookup
      exact ((hfits name user hlookup).salt.resolve_left (hsalt name user hlookup)).ge
    · intro order beyond horder junk env saves order' beyond' _ _
      have hentry : ∀ entry ∈ order, users.lookup entry.1 = some entry.2 :=
        fun entry hmem => AList.mem_lookup_iff.mpr (horder.mem_iff.mp hmem)
      have hcount' : order.length ≤ 1000 := by rw [horder.length_eq]; exact hcount
      have hholds : HoldsRecords (saveBytes order beyond) (order.map Sigma.snd) :=
        saveBytes_holds (fun entry hmem => ⟨hfits _ _ (hentry entry hmem),
          hsalt _ _ (hentry entry hmem)⟩) (Nat.lt_of_le_of_lt hcount' (by decide)) beyond
      have hload := load_of_holdsRecords junk (AuthManager.initial env).users hholds
      rw [List.length_map, if_neg (Nat.not_lt.mpr hcount')] at hload
      have hsame := lookup_usersOf_entries horder
        fun entry hmem => (hfits _ _ (hentry entry hmem)).name_eq
      unfold init
      rw [hload]
      exact ⟨hsame, _, _, rfl, hholds, hsame⟩

/-- **The round trip, after any calls on a file that was loaded.** -/
theorem saved_roundTrips_iff {data : Bytes} {records : List User} {a : AuthManager}
    (hholds : HoldsRecords data records) {junk : LoadJunk} {users : Users}
    (hload : load junk users (some data) = (true, a.users))
    {calls : List (AuthEnv × AuthCall)} (hreal : ∀ c ∈ calls, c.1.Real) (hnames : NamesFit calls) :
    RoundTrips (a.runCalls calls).users ↔ (a.runCalls calls).users.entries.length ≤ 1000 ∧
      ∀ name user, (a.runCalls calls).users.lookup name = some user → user.salt ≠ [] := by
  have hloaded : a.users = usersOf records := by
    have hrecords := load_of_holdsRecords junk users hholds
    rw [hload] at hrecords
    split at hrecords
    · cases hrecords
    · exact congrArg Prod.snd hrecords
  refine roundTrips_iff (fits_runCalls (fun name user hlookup => ?_) hreal hnames)
  rw [hloaded] at hlookup
  exact hholds.fits hlookup

/-- A file without salts, of one account. -/
def oldFile : Bytes :=
  leBytes 4 1 ++ (leBytes 2 1 ++ (ascii "b" ++ (leBytes 2 1 ++ (ascii "h" ++ ([]
    ++ ([(0 : UInt8)] ++ (timestampBytes 0 ++ [1])))))))

def oldUser : User where
  name := ascii "b"
  passwordHash := ascii "h"
  salt := []
  role := .admin

theorem oldFile_holds : HoldsRecords oldFile [oldUser] := by
  have hspells : Spells false (oldFile.drop 4) oldUser 1 := ⟨by decide, by decide, rfl, rfl, rfl, rfl⟩
  exact ⟨false, oldFile.drop 4, [oldFile.drop 4], [], .old 1 _ (by decide) (by decide) rfl, rfl,
    .cons ⟨1, hspells⟩ .nil⟩

theorem oldFile_loaded : load .zeros ∅ (some oldFile) = (true, usersOf [oldUser]) := rfl

/-- An account is created beside the one of the old file. -/
def oneCreated : List (AuthEnv × AuthCall) :=
  [(envReal, .adminLogin), (envReal, .change (.create (ascii "a") (ascii "c") (ascii "p") 2))]

theorem oneCreated_real : ∀ c ∈ oneCreated, c.1.Real := by
  have henv : ∀ c ∈ oneCreated, c.1 = envReal := by simp [oneCreated]
  intro c hc
  rw [henv c hc]
  exact envReal_real

theorem oneCreated_names : NamesFit oneCreated := by
  intro env token username password role hc
  simp only [oneCreated, List.mem_cons, Prod.mk.injEq, reduceCtorEq, and_false, AuthCall.change.injEq,
    UserChange.create.injEq, List.not_mem_nil, or_false, false_or] at hc
  rw [hc.2.2.1]
  decide

theorem saved_roundTrips_one :
    RoundTrips (AuthManager.runCalls { users := usersOf [oldUser] } oneCreated).users ↔
      (AuthManager.runCalls { users := usersOf [oldUser] } oneCreated).users.entries.length ≤ 1000 ∧
        ∀ name user, (AuthManager.runCalls { users := usersOf [oldUser] }
          oneCreated).users.lookup name = some user → user.salt ≠ [] :=
  saved_roundTrips_iff oldFile_holds oldFile_loaded oneCreated_real oneCreated_names

/-- The account of an old file, saved as it was loaded: its salt is read where there is none. -/
theorem oldUser_saved : HoldsRecords oldFile [oldUser] ∧
    load .zeros ∅ (some oldFile) = (true, usersOf [oldUser]) ∧
    ¬ RoundTrips (AuthManager.runCalls { users := usersOf [oldUser] } []).users := by
  refine ⟨oldFile_holds, oldFile_loaded, fun h => ?_⟩
  exact absurd (h.within (ascii "b") oldUser (by decide)) (by decide)

end Auth
end MiniTSDB
