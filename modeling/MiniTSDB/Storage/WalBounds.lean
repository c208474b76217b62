import MiniTSDB.Lib.CheckedLoop
import MiniTSDB.Storage.Wal

/-!
# What `WalReader::ReadEntry` reads of a payload (`wal.cpp`)

The reader of `Wal` parses a payload as it stands. Here each `memcpy` and `assign` is checked
against the payload it reads from. Before them there is the checksum and nothing else: no length
is looked at, and a checksum is no guard against the bytes of a file that nobody wrote. Twelve zero
bytes are an entry with an empty payload, for the checksum of nothing is zero.

`openChecked_iff` says on which files `Open` stays inside: every payload it comes to has room for
the tag it announces, and for the timestamp and the double behind it. On those the reader of `Wal`
is the reader here (`openChecked_eq`).
-/

namespace MiniTSDB
namespace Storage

open Lib Os

/-- What a checked access may find. -/
inductive Fault
  | outOfBounds
  deriving DecidableEq, Repr

/-- `memcpy` or `assign` of `len` bytes at `data.data() + offset`. -/
def copyOut (data : Bytes) (offset len : Nat) : Except Fault Bytes :=
  if offset + len ≤ data.length then .ok ((data.drop offset).take len) else .error .outOfBounds

theorem copyOut_ok {data : Bytes} {offset len : Nat} (h : offset + len ≤ data.length) :
    copyOut data offset len = .ok ((data.drop offset).take len) := if_pos h

theorem copyOut_error {data : Bytes} {offset len : Nat} (h : ¬ offset + len ≤ data.length) :
    copyOut data offset len = .error .outOfBounds := if_neg h

/-- `WalReader::ReadEntry` with every access to the payload checked. -/
def readEntryChecked (file : File) : Except Fault (Option (WalEntry × File)) :=
  match file.readExact 12 with
  | none => .ok none
  | some (header, file) =>
    let crc := ofLeBytes (header.take 4)
    let type := (header.drop 4).take 1
    let dataLen := ofLeBytes (header.drop 8)
    if type = [WalEntryType.checkpoint.toByte] then .ok (some ({ type := .checkpoint }, file))
    else if type ≠ [WalEntryType.dataPoint.toByte] then .ok none
    else
      match file.readExact dataLen with
      | none => .ok none
      | some (data, file) =>
        if (calculateCrc32 data).toNat ≠ crc then .ok none
        else do
          let tagLen := ofLeBytes (← copyOut data 0 2)
          let tagName ← copyOut data 2 tagLen
          let ts ← copyOut data (2 + tagLen) 8
          let val ← copyOut data (2 + tagLen + 8) 8
          let point : DataPoint :=
            { ts := timestampOfBytes ts, value := .double (UInt64.ofNat (ofLeBytes val)) }
          .ok (some ({ type := .dataPoint, tagName := tagName, points := [point] }, file))

/-- `WalReader::Open`, in at most `fuel` turns of its loop. -/
def openChecked : Nat → File → Option (Except Fault (List WalEntry))
  | 0, _ => none
  | fuel + 1, file =>
    if file.pos < file.size then
      match readEntryChecked file with
      | .error fault => some (.error fault)
      | .ok none => some (.ok [])
      | .ok (some (entry, file')) =>
        (openChecked fuel file').map fun entries => entries.map fun rest => entry :: rest
    else some (.ok [])

/-! ## What a file has to be like -/

/-- The payload at this place in the file, if the reader goes on to parse it: a data point, whole,
with the checksum of its header. -/
def payload? (file : File) : Option Bytes := do
  let (header, file) ← file.readExact 12
  guard ((header.drop 4).take 1 = [WalEntryType.dataPoint.toByte])
  let (data, _) ← file.readExact (ofLeBytes (header.drop 8))
  guard ((calculateCrc32 data).toNat = ofLeBytes (header.take 4))
  pure data

/-- There is room for the length of the tag, the tag, the timestamp and the double. -/
def PayloadFits (data : Bytes) : Prop := 2 + ofLeBytes (data.take 2) + 16 ≤ data.length

/-- From one entry to the next. -/
def NextEntry (file file' : File) : Prop :=
  file.pos < file.size ∧ ∃ entry, readEntry file = some (entry, file')

/-- Every payload that is come to from here fits. -/
def PayloadsFit (file : File) : Prop :=
  ∀ file', Relation.ReflTransGen NextEntry file file' → ∀ data ∈ payload? file', PayloadFits data

theorem payloadsFit_iff {file : File} :
    PayloadsFit file ↔ (∀ data ∈ payload? file, PayloadFits data) ∧
      ∀ file', NextEntry file file' → PayloadsFit file' := allReached_iff

/-- **One entry**: the checked reader does what the reader of `Wal` does if the payload fits, and
leaves the payload if it does not. -/
theorem readEntryChecked_spec (file : File) :
    ((∀ data ∈ payload? file, PayloadFits data) → readEntryChecked file = .ok (readEntry file)) ∧
      (∀ data ∈ payload? file, ¬ PayloadFits data →
        readEntryChecked file = .error .outOfBounds) := by
  have hne : [WalEntryType.dataPoint.toByte] ≠ [WalEntryType.checkpoint.toByte] := by decide
  rw [readEntryChecked, readEntry, payload?]
  cases file.readExact 12 with
  | none => simp
  | some e =>
    obtain ⟨header, f₁⟩ := e
    simp only [Option.bind_eq_bind, Option.bind_some]
    by_cases hcheckpoint : (header.drop 4).take 1 = [WalEntryType.checkpoint.toByte]
    · simp [hcheckpoint, hne.symm, guard]
    · by_cases hpoint : (header.drop 4).take 1 = [WalEntryType.dataPoint.toByte]
      · cases f₁.readExact (ofLeBytes (header.drop 8)) with
        | none => simp [hpoint, hne, guard]
        | some e =>
          obtain ⟨data, f₂⟩ := e
          by_cases hcrc : (calculateCrc32 data).toNat = ofLeBytes (header.take 4)
          · -- the payload is parsed
            simp only [hpoint, if_neg hne, ne_eq, not_true_eq_false, if_false, hcrc, guard, if_true,
              Option.pure_def, Option.bind_some, Option.mem_some, forall_eq', PayloadFits]
            constructor
            · intro hfits
              have h₀ : copyOut data 0 2 = .ok ((data.drop 0).take 2) := copyOut_ok (by omega)
              rw [h₀, List.drop_zero]
              simp only [bind, Except.bind]
              rw [copyOut_ok (by omega), copyOut_ok (by omega), copyOut_ok (by omega)]
            · intro hfits
              by_cases h₀ : 0 + 2 ≤ data.length
              · rw [copyOut_ok h₀, List.drop_zero]
                simp only [bind, Except.bind]
                by_cases htag : 2 + ofLeBytes (data.take 2) ≤ data.length
                · rw [copyOut_ok htag]
                  dsimp only
                  by_cases hts : 2 + ofLeBytes (data.take 2) + 8 ≤ data.length
                  · rw [copyOut_ok hts, copyOut_error (by omega)]
                  · rw [copyOut_error hts]
                · rw [copyOut_error htag]
              · rw [copyOut_error h₀]
                rfl
          · simp [hpoint, hne, hcrc, guard]
      · simp [hcheckpoint, hpoint, guard]

/-! ## The whole file -/

theorem readEntries_of_none {file : File} (h : readEntry file = none) : readEntries file = [] :=
  walFrames.loop_none file h

theorem readEntries_of_some {file file' : File} {entry : WalEntry} (hlt : file.pos < file.size)
    (h : readEntry file = some (entry, file')) :
    readEntries file = entry :: readEntries file' := by
  refine walFrames.loop_some file entry file' ?_ h
  rw [ne_eq, show walFrames.rest file = file.data.drop file.pos from rfl, List.drop_eq_nil_iff]
  exact Nat.not_le.mpr hlt

theorem NextEntry.lt {file file' : File} (h : NextEntry file file') :
    file'.size - file'.pos < file.size - file.pos := by
  obtain ⟨hlt, entry, hread⟩ := h
  obtain ⟨hdata, hpos⟩ := readEntry_pos hread
  rw [File.size] at *
  rw [File.size, hdata]
  omega

/-- An entry that is not there ends the walk over the payloads. -/
theorem payloadsFit_of_unread {file : File} (hread : readEntry file = none)
    (hhere : ∀ data ∈ payload? file, PayloadFits data) : PayloadsFit file := by
  refine payloadsFit_iff.mpr ⟨hhere, ?_⟩
  intro file' hfile
  obtain ⟨-, entry, hnext⟩ := hfile
  rw [hread] at hnext
  cases hnext

/-- Behind the last byte there is neither an entry nor a payload. -/
theorem unread_of_end {file : File} (hlt : ¬ file.pos < file.size) :
    readEntry file = none ∧ payload? file = none := by
  have hshort : file.readExact 12 = none := by
    refine File.readExact_eq_none ?_
    rw [List.length_drop]
    rw [File.size] at hlt
    omega
  constructor
  · rw [readEntry, hshort]
    rfl
  · rw [payload?, hshort]
    rfl

/-- **The loop ends, and it stays inside exactly if every payload fits**: then it has read what
the reader of `Wal` reads. -/
theorem openChecked_eq (fuel : Nat) : ∀ file : File, file.size - file.pos < fuel →
    (PayloadsFit file → openChecked fuel file = some (.ok (readEntries file))) ∧
      (¬ PayloadsFit file → openChecked fuel file = some (.error .outOfBounds)) := by
  induction fuel with
  | zero =>
    intro file h
    omega
  | succ fuel ih =>
    intro file hfuel
    obtain ⟨hok, herror⟩ := readEntryChecked_spec file
    by_cases hlt : file.pos < file.size
    · rw [openChecked, if_pos hlt]
      by_cases hhere : ∀ data ∈ payload? file, PayloadFits data
      · rw [hok hhere]
        cases hread : readEntry file with
        | none =>
          have hlast : PayloadsFit file := payloadsFit_of_unread hread hhere
          rw [readEntries_of_none hread]
          exact ⟨fun _ => rfl, fun hnot => absurd hlast hnot⟩
        | some e =>
          obtain ⟨entry, file'⟩ := e
          have hnext : NextEntry file file' := ⟨hlt, entry, hread⟩
          have hsmaller := hnext.lt
          obtain ⟨ihok, iherror⟩ := ih file' (by omega)
          have hone : ∀ other, NextEntry file other → other = file' := by
            intro other hother
            obtain ⟨-, entry', hother⟩ := hother
            rw [hread] at hother
            cases hother
            rfl
          -- with the payload here in bounds, all depends on what is behind it
          have hiff : PayloadsFit file ↔ PayloadsFit file' := allReached_next hhere hnext hone
          rw [hiff, readEntries_of_some hlt hread]
          dsimp only
          constructor
          · intro h
            rw [ihok h]
            rfl
          · intro h
            rw [iherror h]
            rfl
      · -- the payload here does not fit
        push Not at hhere
        obtain ⟨data, hdata, hbad⟩ := hhere
        rw [herror data hdata hbad]
        have hnot : ¬ PayloadsFit file := by
          intro h
          exact hbad ((payloadsFit_iff.mp h).1 data hdata)
        exact ⟨fun h => absurd h hnot, fun _ => rfl⟩
    · -- nothing is ahead
      obtain ⟨hnone, hpayload⟩ := unread_of_end hlt
      have hlast : PayloadsFit file := payloadsFit_of_unread hnone (by simp [hpayload])
      rw [openChecked, if_neg hlt, readEntries_of_none hnone]
      exact ⟨fun _ => rfl, fun hnot => absurd hlast hnot⟩

/-- One turn of the loop. -/
def entryTurn (file : File) : Option (Except Fault (WalEntry × File)) :=
  if file.pos < file.size then
    match readEntryChecked file with
    | .error fault => some (.error fault)
    | .ok entry => entry.map .ok
  else none

theorem openChecked_eq_checkedLoop (fuel : Nat) :
    ∀ file, openChecked fuel file = checkedLoop entryTurn fuel file := by
  induction fuel with
  | zero => exact fun _ => rfl
  | succ fuel ih =>
    intro file
    rw [openChecked, checkedLoop, entryTurn]
    split
    · cases readEntryChecked file with
      | error fault => rfl
      | ok read =>
        cases read with
        | none => rfl
        | some e =>
          simp only [ih]
          rfl
    · rfl

theorem openChecked_mono {fuel fuel' : Nat} (hle : fuel ≤ fuel') {file : File}
    {result : Except Fault (List WalEntry)} (h : openChecked fuel file = some result) :
    openChecked fuel' file = some result := by
  rw [openChecked_eq_checkedLoop] at h ⊢
  exact checkedLoop_mono hle h

/-- **`Open` ends on every file, and stays inside every payload exactly if each payload it comes
to has room for what it announces.** -/
theorem openChecked_iff (log : Bytes) :
    (∀ fuel > log.length, ∃ result, openChecked fuel { data := log } = some result) ∧
      ((∃ fuel entries, openChecked fuel { data := log } = some (.ok entries)) ↔
        PayloadsFit { data := log }) := by
  have hsize : ∀ fuel > log.length,
      ({ data := log } : File).size - ({ data := log } : File).pos < fuel := by
    intro fuel hfuel
    simpa [File.size] using hfuel
  refine ⟨?_, ?_, ?_⟩
  · intro fuel hfuel
    obtain ⟨hok, herror⟩ := openChecked_eq fuel _ (hsize fuel hfuel)
    by_cases h : PayloadsFit { data := log }
    · exact ⟨_, hok h⟩
    · exact ⟨_, herror h⟩
  · intro ⟨fuel, entries, hopen⟩
    by_contra h
    have herror := (openChecked_eq (max fuel (log.length + 1)) _ (hsize _ (by omega))).2 h
    rw [openChecked_mono (Nat.le_max_left _ _) hopen] at herror
    cases herror
  · intro h
    exact ⟨log.length + 1, _, (openChecked_eq _ _ (hsize _ (by omega))).1 h⟩

/-- **Twelve zero bytes are an entry with an empty payload**, out of which the length of a tag is
copied. -/
theorem openChecked_zeros :
    openChecked 13 { data := List.replicate 12 0 } = some (.error .outOfBounds) ∧
      ¬ ∃ fuel entries, openChecked fuel { data := List.replicate 12 0 } = some (.ok entries) := by
  have hpayload : payload? { data := List.replicate 12 0 } = some [] := by decide
  have hnot : ¬ PayloadsFit { data := List.replicate 12 0 } := by
    intro h
    have hfits : PayloadFits [] := (payloadsFit_iff.mp h).1 [] hpayload
    simp [PayloadFits] at hfits
  refine ⟨(openChecked_eq 13 _ (by decide)).2 hnot, ?_⟩
  intro hopen
  exact hnot ((openChecked_iff _).2.mp hopen)

/-- The log of one point is inside. -/
theorem openChecked_whole :
    (∃ result, openChecked 33 { data := (WalRecord.write (.replicate 3 0) (ascii "a") 1 0).bytes }
      = some result) := by
  have hlen : (WalRecord.write (.replicate 3 0) (ascii "a") 1 0).bytes.length = 31 := by decide
  exact (openChecked_iff _).1 33 (by rw [hlen]; decide)

end Storage
end MiniTSDB
