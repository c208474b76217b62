import MiniTSDB.Auth.AuthManager
import MiniTSDB.Os.File

/-!
# The file of the users (`AuthManager::Save`, `Load` and `Init`)

`Load` does not look at how much it could read. A variable that nothing was read into keeps what it
held, so a file that ends early gives accounts all the same, from whatever the memory had: only a
file that has all the records it announces, or announces too many, is loaded as a whole or not at
all (`load_allOrNothing_iff`).
-/

namespace MiniTSDB
namespace Auth

open Lib Os

/-- `meta/users.db` begins with this. -/
def magic : Bytes := ascii "USRDB"

/-! ## Saving -/

/-- The 32 bytes that are written for a salt. What is behind its end is what the memory holds. -/
def saltField (salt : Bytes) (beyond : Nat → UInt8) : Bytes :=
  (List.range 32).map fun i => salt[i]?.getD (beyond i)

/-- One turn of the loop of `Save`. A length is cut down to 16 bits, and the text with it. -/
def saveRecord (name : Bytes) (user : User) (beyond : Nat → UInt8) : Bytes :=
  leBytes 2 name.length ++ name.take (name.length % 2 ^ 16)
    ++ (leBytes 2 user.passwordHash.length
      ++ user.passwordHash.take (user.passwordHash.length % 2 ^ 16))
    ++ saltField user.salt beyond ++ [user.role.toByte] ++ timestampBytes user.createdAt
    ++ [if user.active then 1 else 0]

/-- The bytes `Save` writes, the accounts in the order in which they come. -/
def saveBytes (order : List (Sigma fun _ : Bytes => User)) (beyond : Bytes → Nat → UInt8) : Bytes :=
  magic ++ 2 :: leBytes 4 order.length
    ++ order.flatMap fun entry => saveRecord entry.1 entry.2 (beyond entry.1)

/-! ## Loading -/

/-- What the variables of one turn of `Load` hold before anything is read into them. -/
structure RecordJunk where
  nameLen : UInt16
  hashLen : UInt16
  role : UInt8
  active : UInt8

structure LoadJunk where
  version : UInt8
  count : UInt32
  record : Nat → RecordJunk

/-- A memory of zeros. -/
def LoadJunk.zeros : LoadJunk where
  version := 0
  count := 0
  record := fun _ => { nameLen := 0, hashLen := 0, role := 0, active := 0 }

/-- `Read` into a number of `n` bytes. -/
def readNumber (f : File) (n old : Nat) : Nat × File :=
  let (bytes, f) := f.readOver (leBytes n old)
  (ofLeBytes bytes, f)

/-- One turn of the loop of `Load`. The buffers of the texts are zeroed, and so is `created_at`. -/
def loadRecord (hasSalt : Bool) (junk : RecordJunk) (f : File) : User × File :=
  let (nameLen, f) := readNumber f 2 junk.nameLen.toNat
  let (name, f) := f.readInto nameLen
  let (hashLen, f) := readNumber f 2 junk.hashLen.toNat
  let (passwordHash, f) := f.readInto hashLen
  let (salt, f) := if hasSalt then f.readInto 32 else ([], f)
  let (role, f) := readNumber f 1 junk.role.toNat
  let (createdAt, f) := f.readInto 8
  let (active, f) := readNumber f 1 junk.active.toNat
  ({ name := name, passwordHash := passwordHash, salt := salt,
     role := .ofByte (UInt8.ofNat role), createdAt := timestampOfBytes createdAt,
     active := active ≠ 0 }, f)

/-- The loop of `Load`, from its `i`-th turn on. -/
def loadRecords (hasSalt : Bool) (junk : Nat → RecordJunk) : Nat → Nat → File → Users → Users
  | 0, _, _, users => users
  | n + 1, i, f, users =>
    let (user, f) := loadRecord hasSalt (junk i) f
    loadRecords hasSalt junk n (i + 1) f (users.insert user.name user)

/-- `Load` from behind the header: too many accounts are refused. -/
def loadUsers (hasSalt : Bool) (junk : LoadJunk) (users : Users) (count : Nat) (f : File) :
    Bool × Users :=
  if count > 1000 then (false, users) else (true, loadRecords hasSalt junk.record count 0 f ∅)

/-- `Load`: what it returns, and `users_`. -/
def load (junk : LoadJunk) (users : Users) : Option Bytes → Bool × Users
  | none => (false, users)
  | some data =>
    let (tag, f) := File.read { data := data } 5
    if tag = magic then
      let (version, f) := readNumber f 1 junk.version.toNat
      let (count, f) := readNumber f 4 junk.count.toNat
      loadUsers (2 ≤ version) junk users count f
    else
      let (count, f) := readNumber (f.seek 0 .set) 4 junk.count.toNat
      loadUsers false junk users count f

/-! ## What the file is to hold -/

/-- The bytes of an account in the file. -/
structure Spells (hasSalt : Bool) (bytes : Bytes) (user : User) (active : UInt8) : Prop where
  name_lt : user.name.length < 2 ^ 16
  hash_lt : user.passwordHash.length < 2 ^ 16
  length_salt : user.salt.length = if hasSalt then 32 else 0
  role_eq : UserRole.ofByte user.role.toByte = user.role
  active_eq : user.active = decide (active.toNat ≠ 0)
  bytes_eq : bytes = leBytes 2 user.name.length ++ (user.name
    ++ (leBytes 2 user.passwordHash.length ++ (user.passwordHash
      ++ (user.salt ++ ([user.role.toByte] ++ (timestampBytes user.createdAt ++ [active]))))))

/-- The header of the file, and what is behind it. -/
inductive Announces (data : Bytes) : Bool → Nat → Bytes → Prop
  | versioned (version : UInt8) (count : Nat) (body : Bytes) (hcount : count < 2 ^ 32)
      (hdata : data = magic ++ version :: (leBytes 4 count ++ body)) :
      Announces data (2 ≤ version.toNat) count body
  | old (count : Nat) (body : Bytes) (hcount : count < 2 ^ 32) (hmagic : ¬ magic <+: data)
      (hdata : data = leBytes 4 count ++ body) : Announces data false count body

/-- All the accounts that the header announces are in the file. -/
def HoldsRecords (data : Bytes) (records : List User) : Prop :=
  ∃ hasSalt body pieces rest, Announces data hasSalt records.length body ∧
    body = pieces.flatten ++ rest ∧
    List.Forall₂ (fun piece user => ∃ active, Spells hasSalt piece user active) pieces records

/-- The accounts by name; a later one replaces an earlier one. -/
def usersOf (records : List User) : Users :=
  records.foldl (fun users user => users.insert user.name user) ∅

/-! ## What is read -/

theorem readNumber_fst (f : File) (n old : Nat) : (readNumber f n old).1
    = ofLeBytes ((f.data.drop f.pos).take n
      ++ (leBytes n old).drop ((f.data.drop f.pos).take n).length) := by
  unfold readNumber File.readOver File.read
  simp only [length_leBytes]

/-- The bytes that are there count, whatever the others are. -/
theorem le_readNumber (f : File) (n old : Nat) :
    ofLeBytes ((f.data.drop f.pos).take n) ≤ (readNumber f n old).1 := by
  rw [readNumber_fst, ofLeBytes_append]
  exact Nat.le_add_right _ _

theorem readNumber_zero (f : File) (n : Nat) :
    (readNumber f n 0).1 = ofLeBytes ((f.data.drop f.pos).take n) := by
  rw [readNumber_fst, ofLeBytes_append, leBytes_zero, List.drop_replicate,
    ofLeBytes_replicate_zero, Nat.mul_zero, Nat.add_zero]

theorem drop_readNumber (f : File) (n old : Nat) :
    (readNumber f n old).2.data.drop (readNumber f n old).2.pos = (f.data.drop f.pos).drop n := by
  have hread := f.drop_read n
  unfold readNumber File.readOver
  simp only [length_leBytes]
  exact hread

section At

variable {f : File} {before piece rest : Bytes} {n : Nat}

theorem readNumber_at (h : f.At before (piece ++ rest)) (hlen : piece.length = n) (old : Nat) :
    ∃ f', readNumber f n old = (ofLeBytes piece, f') ∧ f'.At (before ++ piece) rest := by
  obtain ⟨f', hread, hat⟩ := h.readOver (leBytes n old) (by rw [length_leBytes, hlen])
  refine ⟨f', ?_, hat⟩
  rw [readNumber, hread]

/-- **A record that is in the file is read**, whatever the memory had. -/
theorem loadRecord_spells {hasSalt : Bool} {user : User} {active : UInt8} (junk : RecordJunk)
    (h : f.At before (piece ++ rest)) (hspells : Spells hasSalt piece user active) :
    ∃ f', loadRecord hasSalt junk f = (user, f') ∧ f'.At (before ++ piece) rest := by
  have hname : ofLeBytes (leBytes 2 user.name.length) = user.name.length :=
    ofLeBytes_leBytes_of_lt hspells.name_lt
  have hhash : ofLeBytes (leBytes 2 user.passwordHash.length) = user.passwordHash.length :=
    ofLeBytes_leBytes_of_lt hspells.hash_lt
  rw [hspells.bytes_eq] at h
  simp only [List.append_assoc] at h
  obtain ⟨f₁, hread₁, hat₁⟩ := readNumber_at h (length_leBytes 2 _) junk.nameLen.toNat
  obtain ⟨f₂, hread₂, hat₂⟩ := hat₁.readInto (n := user.name.length) rfl
  obtain ⟨f₃, hread₃, hat₃⟩ := readNumber_at hat₂ (length_leBytes 2 _) junk.hashLen.toNat
  obtain ⟨f₄, hread₄, hat₄⟩ := hat₃.readInto (n := user.passwordHash.length) rfl
  have hsalt : ∃ f₅, (if hasSalt then f₄.readInto 32 else ([], f₄)) = (user.salt, f₅) ∧
      f₅.At (before ++ leBytes 2 user.name.length ++ user.name
        ++ leBytes 2 user.passwordHash.length ++ user.passwordHash ++ user.salt)
        ([user.role.toByte] ++ (timestampBytes user.createdAt ++ ([active] ++ rest))) := by
    have hlen := hspells.length_salt
    cases hasSalt with
    | true => exact hat₄.readInto hlen
    | false =>
      rw [List.length_eq_zero_iff.mp hlen] at hat₄ ⊢
      exact ⟨f₄, rfl, by rwa [List.append_nil]⟩
  obtain ⟨f₅, hread₅, hat₅⟩ := hsalt
  obtain ⟨f₆, hread₆, hat₆⟩ := readNumber_at hat₅ (n := 1) rfl junk.role.toNat
  obtain ⟨f₇, hread₇, hat₇⟩ := hat₆.readInto (length_timestampBytes user.createdAt)
  obtain ⟨f₈, hread₈, hat₈⟩ := readNumber_at hat₇ (n := 1) rfl junk.active.toNat
  refine ⟨f₈, ?_, ?_⟩
  · have hactive := hspells.active_eq
    have hrole := hspells.role_eq
    unfold loadRecord
    simp only [hread₁, hname, hread₂, hread₃, hhash, hread₄, hread₅, hread₆, hread₇, hread₈,
      ofLeBytes, Nat.mul_zero, Nat.add_zero, UInt8.ofNat_toNat, hrole,
      timestampOfBytes_timestampBytes, ← hactive]
  · rw [hspells.bytes_eq]
    simpa only [List.append_assoc] using hat₈

theorem loadRecords_spells {hasSalt : Bool} (junk : Nat → RecordJunk) {pieces : List Bytes}
    {records : List User} (users : Users) (i : Nat)
    (hspells : List.Forall₂ (fun piece user => ∃ active, Spells hasSalt piece user active)
      pieces records) (h : f.At before (pieces.flatten ++ rest)) :
    loadRecords hasSalt junk records.length i f users
      = records.foldl (fun users user => users.insert user.name user) users := by
  induction hspells generalizing f before i users with
  | nil => rfl
  | cons hpiece _ ih =>
    obtain ⟨active, hpiece⟩ := hpiece
    rw [List.flatten_cons, List.append_assoc] at h
    obtain ⟨f', hread, hat⟩ := loadRecord_spells (junk i) h hpiece
    rw [List.length_cons, loadRecords, hread, List.foldl_cons]
    exact ih _ _ hat

end At

/-! ## What is loaded -/

/-- What there is in the file of the number of accounts. -/
def countBytes (data : Bytes) : Bytes :=
  if magic <+: data then (data.drop 6).take 4 else data.take 4

/-- The number is over the limit, even if the bytes of it that are not there are zeros. -/
def TooMany (data : Bytes) : Prop := 1000 < ofLeBytes (countBytes data)

theorem take_eq_magic_iff (data : Bytes) : data.take 5 = magic ↔ magic <+: data :=
  eq_comm.trans List.prefix_iff_eq_take.symm

/-- The header says how many accounts there are, and is all there is in front of them. -/
theorem Announces.spec {data : Bytes} {hasSalt : Bool} {count : Nat} {body : Bytes}
    (h : Announces data hasSalt count body) :
    count = ofLeBytes (countBytes data) ∧
      body = data.drop (if magic <+: data then 10 else 4) := by
  unfold countBytes
  have htake : ∀ body : Bytes, (leBytes 4 count ++ body).take 4 = leBytes 4 count :=
    fun body => List.take_left' (length_leBytes 4 count)
  cases h with
  | versioned version count body hlt hdata =>
    have hmagic : magic <+: data := by
      rw [hdata]
      exact List.prefix_append _ _
    have hdrop : data.drop 6 = leBytes 4 count ++ body := by
      rw [hdata]
      rfl
    rw [if_pos hmagic, if_pos hmagic, hdrop, htake, ofLeBytes_leBytes_of_lt hlt]
    refine ⟨rfl, ?_⟩
    rw [show 10 = 6 + 4 from rfl, ← List.drop_drop, hdrop, List.drop_left' (length_leBytes 4 count)]
  | old count body hlt hmagic hdata =>
    rw [if_neg hmagic, if_neg hmagic, hdata, htake, ofLeBytes_leBytes_of_lt hlt,
      List.drop_left' (length_leBytes 4 count)]
    exact ⟨rfl, rfl⟩

theorem Spells.length_pos {hasSalt : Bool} {piece : Bytes} {user : User} {active : UInt8}
    (h : Spells hasSalt piece user active) : 0 < piece.length := by
  rw [h.bytes_eq, List.length_append, length_leBytes]
  exact Nat.lt_of_lt_of_le (by decide) (Nat.le_add_right 2 _)

/-- What `Load` makes of the header. -/
theorem load_header (junk : LoadJunk) (users : Users) (data : Bytes) :
    ∃ hasSalt count f, load junk users (some data) = loadUsers hasSalt junk users count f ∧
      ofLeBytes (countBytes data) ≤ count ∧
      (junk.count = 0 → count = ofLeBytes (countBytes data)) := by
  have htag : (File.read { data := data } 5).1 = data.take 5 := rfl
  unfold load countBytes
  dsimp only
  by_cases hmagic : magic <+: data
  · rw [htag, if_pos ((take_eq_magic_iff data).mpr hmagic), if_pos hmagic]
    have hahead : ∀ old, (readNumber (File.read { data := data } 5).2 1 old).2.data.drop
        (readNumber (File.read { data := data } 5).2 1 old).2.pos = data.drop 6 := by
      intro old
      rw [drop_readNumber, File.drop_read, List.drop_drop, List.drop_drop]
    refine ⟨_, _, _, rfl, ?_, ?_⟩
    · rw [← hahead junk.version.toNat]
      exact le_readNumber _ 4 _
    · intro hzero
      rw [hzero, ← hahead junk.version.toNat]
      exact readNumber_zero _ 4
  · rw [htag, if_neg fun h => hmagic ((take_eq_magic_iff data).mp h), if_neg hmagic]
    refine ⟨_, _, _, rfl, ?_, ?_⟩
    · exact le_readNumber (File.seek (File.read { data := data } 5).2 0 .set) 4 _
    · intro hzero
      rw [hzero]
      exact readNumber_zero (File.seek (File.read { data := data } 5).2 0 .set) 4

/-- **A file that has the accounts it announces is loaded**, unless they are too many. -/
theorem load_of_holdsRecords {data : Bytes} {records : List User} (junk : LoadJunk) (users : Users)
    (h : HoldsRecords data records) : load junk users (some data)
      = if records.length > 1000 then (false, users) else (true, usersOf records) := by
  obtain ⟨hasSalt, body, pieces, rest, hannounces, rfl, hspells⟩ := h
  have hload : ∃ f before, load junk users (some data)
      = loadUsers hasSalt junk users records.length f ∧
        f.At before (pieces.flatten ++ rest) := by
    have hcount : ∀ {count : Nat}, count < 2 ^ 32 → ofLeBytes (leBytes 4 count) = count :=
      fun hlt => ofLeBytes_leBytes_of_lt hlt
    cases hannounces with
    | versioned version count body hlt hdata =>
      have hat : File.At { data := data } [] (magic ++ ([version]
          ++ (leBytes 4 records.length ++ (pieces.flatten ++ rest)))) := ⟨hdata, rfl⟩
      obtain ⟨htag, hat₁⟩ := hat.read (n := 5) rfl
      obtain ⟨f₂, hread₂, hat₂⟩ := readNumber_at hat₁ (n := 1) rfl junk.version.toNat
      obtain ⟨f₃, hread₃, hat₃⟩ := readNumber_at hat₂ (length_leBytes 4 _) junk.count.toNat
      refine ⟨f₃, _, ?_, hat₃⟩
      rw [hcount hlt] at hread₃
      unfold load
      dsimp only
      rw [if_pos htag, hread₂]
      dsimp only
      rw [hread₃]
      rfl
    | old count body hlt hmagic hdata =>
      have hat : File.At (File.seek (File.read { data := data } 5).2 0 .set) []
          (leBytes 4 records.length ++ (pieces.flatten ++ rest)) := ⟨hdata, rfl⟩
      obtain ⟨f₃, hread₃, hat₃⟩ := readNumber_at hat (length_leBytes 4 _) junk.count.toNat
      refine ⟨f₃, _, ?_, hat₃⟩
      rw [hcount hlt] at hread₃
      have htag : (File.read { data := data } 5).1 ≠ magic :=
        fun htag => hmagic ((take_eq_magic_iff data).mp htag)
      unfold load
      dsimp only
      rw [if_neg htag, hread₃]
  obtain ⟨f, before, hload, hat⟩ := hload
  rw [hload, loadUsers]
  split
  · rfl
  · rw [loadRecords_spells junk.record ∅ 0 hspells hat, usersOf]

/-- `Load` gives all the accounts that the file announces, or leaves everything as it is. -/
def AllOrNothing (file : Option Bytes) : Prop :=
  ∀ junk users,
    ((load junk users file).1 = true → ∃ data records, file = some data ∧
      HoldsRecords data records ∧ (load junk users file).2 = usersOf records) ∧
    ((load junk users file).1 = false → (load junk users file).2 = users)

/-- What `Load` returns decides nothing else: it is false only where nothing has been changed. -/
theorem load_false {junk : LoadJunk} {users : Users} {file : Option Bytes}
    (h : (load junk users file).1 = false) : (load junk users file).2 = users := by
  cases file with
  | none => rfl
  | some data =>
    obtain ⟨hasSalt, count, f, hload, -⟩ := load_header junk users data
    rw [hload] at h ⊢
    unfold loadUsers at h ⊢
    split
    · rfl
    case isFalse hcount =>
      rw [if_neg hcount] at h
      cases h

/-- **Loading is all or nothing exactly where the file has all its accounts, or announces too
many.** -/
theorem load_allOrNothing_iff (file : Option Bytes) :
    AllOrNothing file ↔
      ∀ data, file = some data → TooMany data ∨ ∃ records, HoldsRecords data records := by
  constructor
  · intro h data hdata
    rw [or_iff_not_imp_left]
    intro hfew
    -- with a memory of zeros the number is the one that is there
    have hload : (load .zeros ∅ file).1 = true := by
      obtain ⟨hasSalt, count, f, hload, -, hzero⟩ := load_header .zeros ∅ data
      have hcount : ¬ ofLeBytes (countBytes data) > 1000 := hfew
      rw [hdata, hload, loadUsers, hzero rfl, if_neg hcount]
    obtain ⟨data', records, hdata', hrecords, -⟩ := (h _ _).1 hload
    rw [hdata, Option.some.injEq] at hdata'
    rw [hdata']
    exact ⟨records, hrecords⟩
  · intro h junk users
    refine ⟨?_, load_false⟩
    intro hload
    cases file with
    | none => cases hload
    | some data =>
      rcases h data rfl with hmany | ⟨records, hrecords⟩
      · obtain ⟨hasSalt, count, f, hheader, hcount, -⟩ := load_header junk users data
        rw [hheader, loadUsers, if_pos (Nat.lt_of_lt_of_le hmany hcount)] at hload
        cases hload
      · have heq := load_of_holdsRecords junk users hrecords
        split at heq
        · rw [heq] at hload
          cases hload
        · rw [heq]
          exact ⟨data, records, rfl, hrecords, rfl⟩

/-- A file that was cut behind its header is loaded: it announces an account that it has not. -/
theorem load_cut_short : ¬ AllOrNothing (some (magic ++ [2, 1, 0, 0, 0])) := by
  intro h
  obtain ⟨data, records, hdata, hrecords, -⟩ := (h .zeros ∅).1 (by decide)
  cases hdata
  obtain ⟨hasSalt, body, pieces, rest, hannounces, hbody, hspells⟩ := hrecords
  obtain ⟨hcount, hbehind⟩ := hannounces.spec
  have hone : records.length = 1 := hcount
  obtain ⟨user, rfl⟩ := List.length_eq_one_iff.mp hone
  cases hspells with
  | cons hpiece _ =>
    obtain ⟨active, hpiece⟩ := hpiece
    have hempty : body = [] := hbehind
    rw [hempty, List.flatten_cons, List.append_assoc] at hbody
    have hnil := (List.append_eq_nil_iff.mp hbody.symm).1
    exact absurd hpiece.length_pos (by rw [hnil]; exact Nat.lt_irrefl 0)

end Auth
end MiniTSDB
