import MiniTSDB.Common.Types

/-!
# `common/os/file.h`: an open file

A handle is the bytes of the file it is open on and the offset the next call starts from. `Read`
may come back short, at the end of the file only; `Write` replaces the bytes under it and extends
the file; `Seek` may go past the end. Offsets never come out negative here, so they are naturals.

Reading is stated as it is used: at the offset where a known piece of the file begins
(`File.At`), the piece is what a read of its length gives, and the offset moves to its end.
-/

namespace MiniTSDB
namespace Os

inductive Origin
  | set
  | cur
  | fromEnd
  deriving DecidableEq, Repr

structure File where
  data : Bytes
  pos : Nat := 0
  deriving DecidableEq, Repr

/-- `Write`. The gap a seek past the end leaves is filled with zeros. -/
def File.write (f : File) (bytes : Bytes) : File :=
  if bytes.isEmpty then f
  else
    { data := (f.data ++ List.replicate (f.pos - f.data.length) 0).take f.pos ++ bytes
        ++ f.data.drop (f.pos + bytes.length)
      pos := f.pos + bytes.length }

/-- `Write` when the file system takes `room` bytes and no more: what it returns, and the file. -/
def File.writeUpTo (f : File) (room : Nat) (bytes : Bytes) : Bool × File :=
  (bytes.length ≤ room, f.write (bytes.take room))

/-- `Read`: at most `len` bytes. -/
def File.read (f : File) (len : Nat) : Bytes × File :=
  ((f.data.drop f.pos).take len, { f with pos := f.pos + ((f.data.drop f.pos).take len).length })

def File.seek (f : File) (offset : Nat) : Origin → File
  | .set => { f with pos := offset }
  | .cur => { f with pos := f.pos + offset }
  | .fromEnd => { f with pos := f.data.length + offset }

def File.size (f : File) : Nat := f.data.length

/-- `if (!Read(&x, len, &br) || br != len) return false;` -/
def File.readExact (f : File) (len : Nat) : Option (Bytes × File) :=
  let (bytes, f') := f.read len
  if bytes.length = len then some (bytes, f') else none

/-- `Read` into a zeroed buffer of `len` bytes, the count ignored. -/
def File.readInto (f : File) (len : Nat) : Bytes × File :=
  let (bytes, f') := f.read len
  (bytes ++ List.replicate (len - bytes.length) 0, f')

/-- `Read` over what a buffer holds, the count ignored. -/
def File.readOver (f : File) (old : Bytes) : Bytes × File :=
  let (bytes, f') := f.read old.length
  (bytes ++ old.drop bytes.length, f')

@[simp] theorem File.data_read (f : File) (len : Nat) : (f.read len).2.data = f.data := rfl

theorem File.pos_read (f : File) (len : Nat) :
    (f.read len).2.pos = f.pos + (f.read len).1.length := rfl

/-- What is ahead of the offset after a read. -/
theorem File.drop_read (f : File) (len : Nat) :
    (f.read len).2.data.drop (f.read len).2.pos = (f.data.drop f.pos).drop len := by
  rw [data_read, pos_read, File.read, List.drop_drop, List.length_take]
  by_cases hlen : len ≤ (f.data.drop f.pos).length
  · rw [Nat.min_eq_left hlen]
  · rw [Nat.min_eq_right (Nat.le_of_not_le hlen), ← List.drop_drop, List.drop_length,
      ← List.drop_drop, List.drop_of_length_le (Nat.le_of_not_le hlen)]

@[simp] theorem File.readExact_zero (f : File) : f.readExact 0 = some ([], f) := by
  simp [File.readExact, File.read]

theorem File.readExact_eq_some {f f' : File} {len : Nat} {bytes : Bytes}
    (h : f.readExact len = some (bytes, f')) :
    f'.data = f.data ∧ f'.pos = f.pos + len ∧ bytes = (f.data.drop f.pos).take len := by
  rw [File.readExact] at h
  dsimp only at h
  split at h
  case isTrue hlen =>
    simp only [Option.some.injEq, Prod.mk.injEq] at h
    obtain ⟨rfl, rfl⟩ := h
    exact ⟨rfl, by rw [File.pos_read, hlen], rfl⟩
  case isFalse => cases h

theorem File.readExact_eq_none {f : File} {len : Nat} (h : (f.data.drop f.pos).length < len) :
    f.readExact len = none := by
  have hshort : (f.read len).1.length ≠ len := by
    rw [File.read, List.length_take]
    omega
  rw [File.readExact]
  exact if_neg hshort

/-- Bytes that are there are read. -/
theorem File.readExact_of_le (f : File) (len : Nat) (h : f.pos + len ≤ f.data.length) :
    ∃ f', f.readExact len = some ((f.data.drop f.pos).take len, f') ∧ f'.data = f.data ∧
      f'.pos = f.pos + len := by
  have hlen : (f.read len).1.length = len := by
    rw [File.read, List.length_take, List.length_drop]
    omega
  refine ⟨(f.read len).2, ?_, rfl, by rw [pos_read, hlen]⟩
  rw [File.readExact]
  exact if_pos hlen

theorem File.le_of_readExact {f f' : File} {len : Nat} {bytes : Bytes} (hpos : 0 < len)
    (h : f.readExact len = some (bytes, f')) : f.pos + len ≤ f.data.length := by
  by_contra hlt
  rw [readExact_eq_none (by rw [List.length_drop]; omega)] at h
  cases h

@[simp] theorem File.data_seek (f : File) (offset : Nat) (origin : Origin) :
    (f.seek offset origin).data = f.data := by
  cases origin <;> rfl

/-! ## Reading a piece the file is known to hold -/

/-- The file is `before ++ rest` and the offset is at the start of `rest`. -/
structure File.At (f : File) (before rest : Bytes) : Prop where
  data_eq : f.data = before ++ rest
  pos_eq : f.pos = before.length

namespace File.At

variable {f : File} {before piece rest : Bytes} {n : Nat}

theorem drop_pos (h : f.At before rest) : f.data.drop f.pos = rest := by
  rw [h.data_eq, h.pos_eq, List.drop_left]

/-- What is ahead of the offset says where the offset is, unless it is past the end. -/
theorem of_drop (h : f.data.drop f.pos = rest) (hne : rest ≠ []) :
    f.At (f.data.take f.pos) rest := by
  have hpos : f.pos < f.data.length := by
    by_contra hge
    rw [List.drop_of_length_le (Nat.not_lt.mp hge)] at h
    exact hne h.symm
  refine ⟨by rw [← h, List.take_append_drop], ?_⟩
  rw [List.length_take]
  omega

theorem eq (h : f.At before rest) : f = { data := before ++ rest, pos := before.length } := by
  rw [← h.data_eq, ← h.pos_eq]

theorem of_seek_set (h : f.data = before ++ rest) (hlen : before.length = n) :
    (f.seek n .set).At before rest :=
  ⟨h, hlen.symm⟩

theorem read (h : f.At before (piece ++ rest)) (hlen : piece.length = n) :
    (f.read n).1 = piece ∧ (f.read n).2.At (before ++ piece) rest := by
  have hpiece : (f.data.drop f.pos).take n = piece := by
    rw [h.drop_pos, ← hlen, List.take_left]
  refine ⟨hpiece, ?_, ?_⟩
  · rw [data_read, h.data_eq, List.append_assoc]
  · rw [pos_read, h.pos_eq, List.length_append, show (f.read n).1 = piece from hpiece]

theorem readExact (h : f.At before (piece ++ rest)) (hlen : piece.length = n) :
    ∃ f', f.readExact n = some (piece, f') ∧ f'.At (before ++ piece) rest := by
  obtain ⟨hpiece, hat⟩ := h.read hlen
  refine ⟨(f.read n).2, ?_, hat⟩
  rw [File.readExact]
  simp only [hpiece, hlen, if_true]

theorem readInto (h : f.At before (piece ++ rest)) (hlen : piece.length = n) :
    ∃ f', f.readInto n = (piece, f') ∧ f'.At (before ++ piece) rest := by
  obtain ⟨hpiece, hat⟩ := h.read hlen
  refine ⟨(f.read n).2, ?_, hat⟩
  rw [File.readInto]
  simp only [hpiece, hlen, Nat.sub_self, List.replicate_zero, List.append_nil]

theorem readOver (h : f.At before (piece ++ rest)) (old : Bytes)
    (hlen : piece.length = old.length) :
    ∃ f', f.readOver old = (piece, f') ∧ f'.At (before ++ piece) rest := by
  obtain ⟨hpiece, hat⟩ := h.read hlen
  refine ⟨(f.read old.length).2, ?_, hat⟩
  rw [File.readOver]
  simp only [hpiece, hlen, List.drop_length, List.append_nil]

/-- `Seek(n, SEEK_CUR)` over a piece. -/
theorem skip (h : f.At before (piece ++ rest)) (hlen : piece.length = n) :
    (f.seek n .cur).At (before ++ piece) rest := by
  refine ⟨?_, ?_⟩
  · rw [data_seek, h.data_eq, List.append_assoc]
  · rw [List.length_append, hlen, ← h.pos_eq]
    rfl

theorem write (h : f.At before []) (bytes : Bytes) : (f.write bytes).At (before ++ bytes) [] := by
  rw [h.eq, File.write]
  split
  next hemp => constructor <;> simp [List.isEmpty_iff.mp hemp]
  next => constructor <;> simp

theorem overwrite (h : f.At before (piece ++ rest)) (bytes : Bytes)
    (hlen : piece.length = bytes.length) :
    (f.write bytes).At (before ++ bytes) rest := by
  rw [h.eq, File.write]
  split
  next hemp =>
    obtain rfl : bytes = [] := List.isEmpty_iff.mp hemp
    obtain rfl : piece = [] := by simpa using hlen
    constructor <;> simp
  next =>
    constructor
    · simp [List.drop_append, ← hlen]
    · simp

end File.At

end Os
end MiniTSDB
