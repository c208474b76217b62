import MiniTSDB.Common.Types

/-!
# `fs::Copy` (`common/os/fs.cpp`)

A file is read block by block, and each block is written out piece by piece. A `read` and a `write`
may do less than they are asked for, or fail, and which they do is given from outside. Whatever they
do, the copy ends, with a beginning of the file under the new name, and with all of it where `Copy`
returns `true` (`copyLoop_spec`).
-/

namespace MiniTSDB
namespace Os

/-- `sizeof(buf)`. -/
def blockSize : Nat := 65536

/-- What the system calls of one `Copy` return. The n-th `read` is told what is left of the file,
the n-th `write` what it is to write. -/
structure CopyCalls where
  opensSource : Bool
  opensTarget : Bool
  read : Nat → Nat → Int
  write : Nat → Nat → Int
  read_le_block : ∀ n left, read n left ≤ blockSize
  read_le : ∀ n left, read n left ≤ left
  /-- nothing is read at the end of the file only -/
  read_ne_zero : ∀ n left, 0 < left → read n left ≠ 0
  write_le : ∀ n len, write n len ≤ len

/-- The loop that writes out a block: whether it succeeds, what is in the new file then, and how
many calls of `write` there have been. -/
def writeBlock (calls : CopyCalls) (block target : Bytes) (writes : Nat) : Bool × Bytes × Nat :=
  if block.length = 0 then (true, target, writes)
  else
    let r := calls.write writes block.length
    if r ≤ 0 then (false, target, writes + 1)
    else writeBlock calls (block.drop r.toNat) (target ++ block.take r.toNat) (writes + 1)
termination_by block.length
decreasing_by
  rw [List.length_drop]
  omega

/-- The loop over the blocks. -/
def copyLoop (calls : CopyCalls) (left target : Bytes) (reads writes : Nat) : Bool × Bytes :=
  let n := calls.read reads left.length
  if n < 0 then (false, target)
  else if n = 0 then (true, target)
  else
    match writeBlock calls (left.take n.toNat) target writes with
    | (false, target, _) => (false, target)
    | (true, target, writes) => copyLoop calls (left.drop n.toNat) target (reads + 1) writes
termination_by left.length
decreasing_by
  have hle := calls.read_le reads left.length
  rw [List.length_drop]
  omega

/-- `fs::Copy`: what it returns, and what is in the new file, if it was opened. -/
def copy (calls : CopyCalls) (source : Bytes) : Bool × Option Bytes :=
  if calls.opensSource ∧ calls.opensTarget then
    let (ok, target) := copyLoop calls source [] 0 0
    (ok, some target)
  else (false, none)

/-! ## What the loops leave -/

theorem writeBlock_spec (calls : CopyCalls) (block target : Bytes) (writes : Nat) :
    ∃ k ≤ block.length, (writeBlock calls block target writes).2.1 = target ++ block.take k ∧
      ((writeBlock calls block target writes).1 = true → k = block.length) := by
  fun_induction writeBlock calls block target writes with
  | case1 block target writes hempty =>
    refine ⟨0, Nat.zero_le _, ?_, fun _ => hempty.symm⟩
    rw [List.take_zero, List.append_nil]
  | case2 block target writes hblock r hfails =>
    refine ⟨0, Nat.zero_le _, ?_, fun h => nomatch h⟩
    rw [List.take_zero, List.append_nil]
  | case3 block target writes hblock r hwrites ih =>
    obtain ⟨k, hk, htarget, hall⟩ := ih
    have hle : r.toNat ≤ block.length := by
      have hr : r ≤ block.length := calls.write_le writes block.length
      omega
    rw [List.length_drop] at hk hall
    refine ⟨r.toNat + k, by omega, ?_, fun hok => ?_⟩
    · rw [htarget, List.append_assoc, List.take_add]
    · have hrest := hall hok
      omega

/-- **The new file has a beginning of what is left**, and all of it if the loop succeeds. -/
theorem copyLoop_spec (calls : CopyCalls) (left target : Bytes) (reads writes : Nat) :
    ∃ k ≤ left.length, (copyLoop calls left target reads writes).2 = target ++ left.take k ∧
      ((copyLoop calls left target reads writes).1 = true → k = left.length) := by
  fun_induction copyLoop calls left target reads writes with
  | case1 left target reads writes n hfails =>
    refine ⟨0, Nat.zero_le _, ?_, fun h => nomatch h⟩
    rw [List.take_zero, List.append_nil]
  | case2 left target reads writes n hreads hend =>
    have hempty : left.length = 0 := by
      by_contra hmore
      exact calls.read_ne_zero reads left.length (Nat.pos_of_ne_zero hmore) hend
    refine ⟨0, Nat.zero_le _, ?_, fun _ => hempty.symm⟩
    rw [List.take_zero, List.append_nil]
  | case3 left target reads writes n hreads hmore target' writes' hblock =>
    obtain ⟨k, hk, htarget, -⟩ := writeBlock_spec calls (left.take n.toNat) target writes
    rw [hblock] at htarget
    rw [List.length_take] at hk
    refine ⟨k, by omega, ?_, fun h => nomatch h⟩
    rw [show target' = _ from htarget, List.take_take, Nat.min_eq_left (by omega)]
  | case4 left target reads writes n hreads hmore target' writes' hblock ih =>
    obtain ⟨k, hk, htarget, hall⟩ := writeBlock_spec calls (left.take n.toNat) target writes
    rw [hblock] at htarget hall
    rw [hall rfl, List.take_length] at htarget
    obtain ⟨k', hk', hrest, hall'⟩ := ih
    have hle : n.toNat ≤ left.length := by
      have hn : n ≤ left.length := calls.read_le reads left.length
      omega
    rw [List.length_drop] at hk' hall'
    refine ⟨n.toNat + k', by omega, ?_, fun hok => ?_⟩
    · rw [hrest, show target' = _ from htarget, List.append_assoc, List.take_add]
    · have hrest' := hall' hok
      omega

/-! ## Copies that stop anywhere -/

/-- What `read` returns where it reads on until so many bytes are left. -/
def readDownTo (rest : Nat) (fails : Bool) (left : Nat) : Int :=
  if left ≤ rest then if fails then -1 else 0
  else if left - rest ≤ blockSize then (left - rest : Nat)
  else blockSize

section
variable {rest : Nat} {fails : Bool}

/-- Where something is to be read, some of it is. -/
theorem readDownTo_of_lt {left : Nat} (h : rest < left) :
    ∃ n, 0 < n ∧ n ≤ left - rest ∧ n ≤ blockSize ∧ readDownTo rest fails left = (n : Nat) := by
  rw [readDownTo, if_neg (Nat.not_le.mpr h)]
  split
  case isTrue hle => exact ⟨left - rest, Nat.sub_pos_of_lt h, Nat.le_refl _, hle, rfl⟩
  case isFalse hmore =>
    exact ⟨blockSize, by decide, Nat.le_of_not_le hmore, Nat.le_refl _, rfl⟩

theorem readDownTo_of_le {left : Nat} (h : left ≤ rest) :
    readDownTo rest fails left = if fails then -1 else 0 := if_pos h

theorem readDownTo_nonpos {left : Nat} (h : left ≤ rest) : readDownTo rest fails left ≤ 0 := by
  rw [readDownTo_of_le h]
  cases fails with
  | true => decide
  | false => decide

theorem readDownTo_le_block (left : Nat) : readDownTo rest fails left ≤ blockSize := by
  by_cases h : left ≤ rest
  · exact (readDownTo_nonpos h).trans (Int.natCast_nonneg _)
  · obtain ⟨n, -, -, hn, heq⟩ := readDownTo_of_lt (Nat.lt_of_not_le h)
    rw [heq]
    exact Int.ofNat_le.mpr hn

theorem readDownTo_le (left : Nat) : readDownTo rest fails left ≤ left := by
  by_cases h : left ≤ rest
  · exact (readDownTo_nonpos h).trans (Int.natCast_nonneg _)
  · obtain ⟨n, -, hn, -, heq⟩ := readDownTo_of_lt (Nat.lt_of_not_le h)
    rw [heq]
    exact Int.ofNat_le.mpr (hn.trans (Nat.sub_le _ _))

theorem readDownTo_ne_zero (h : fails = false → rest = 0) (left : Nat) (hleft : 0 < left) :
    readDownTo rest fails left ≠ 0 := by
  by_cases hend : left ≤ rest
  · rw [readDownTo_of_le hend]
    cases fails with
    | true => decide
    | false => exact absurd (h rfl) (Nat.ne_of_gt (hleft.trans_le hend))
  · obtain ⟨n, hn, -, -, heq⟩ := readDownTo_of_lt (Nat.lt_of_not_le hend)
    rw [heq]
    exact Int.natCast_ne_zero.mpr hn.ne'

/-- The calls that read until so many bytes are left, and write all there is. -/
def readsDownTo (rest : Nat) (fails : Bool) (h : fails = false → rest = 0) : CopyCalls where
  opensSource := true
  opensTarget := true
  read _ := readDownTo rest fails
  write _ len := len
  read_le_block _ := readDownTo_le_block
  read_le _ := readDownTo_le
  read_ne_zero _ := readDownTo_ne_zero h
  write_le _ len := Int.le_refl len

/-- A block that is written out at once. -/
theorem writeBlock_readsDownTo (h : fails = false → rest = 0) (block target : Bytes)
    (writes : Nat) : ∃ writes', writeBlock (readsDownTo rest fails h) block target writes
      = (true, target ++ block, writes') := by
  rw [writeBlock]
  split
  case isTrue hempty =>
    rw [List.eq_nil_of_length_eq_zero hempty, List.append_nil]
    exact ⟨_, rfl⟩
  case isFalse hmore =>
    have hr : (readsDownTo rest fails h).write writes block.length = block.length := rfl
    rw [hr]
    dsimp only
    rw [if_neg (by omega), Int.toNat_natCast, List.drop_length, List.take_length, writeBlock,
      if_pos List.length_nil]
    exact ⟨_, rfl⟩

theorem copyLoop_readsDownTo (h : fails = false → rest = 0) {left target : Bytes}
    {reads writes : Nat} (hrest : rest ≤ left.length) :
    copyLoop (readsDownTo rest fails h) left target reads writes
      = (!fails, target ++ left.take (left.length - rest)) := by
  induction hlen : left.length using Nat.strongRecOn generalizing left target reads writes with
  | ind len ih =>
    subst hlen
    have hread : (readsDownTo rest fails h).read reads left.length
        = readDownTo rest fails left.length := rfl
    rw [copyLoop, hread]
    by_cases hend : left.length ≤ rest
    · rw [readDownTo_of_le hend, Nat.sub_eq_zero_of_le hend, List.take_zero, List.append_nil]
      cases fails with
      | true => rfl
      | false => rfl
    · obtain ⟨n, hpos, hle, -, heq⟩ := readDownTo_of_lt (Nat.lt_of_not_le hend)
      rw [heq, if_neg (by omega), if_neg (by omega), Int.toNat_natCast]
      obtain ⟨writes', hblock⟩ := writeBlock_readsDownTo h (left.take n) target writes
      have hshorter : (left.drop n).length < left.length := by
        rw [List.length_drop]
        omega
      have henough : rest ≤ (left.drop n).length := by
        rw [List.length_drop]
        omega
      rw [hblock]
      show copyLoop (readsDownTo rest fails h) (left.drop n) (target ++ left.take n) (reads + 1)
        writes' = _
      rw [ih _ hshorter henough rfl, List.append_assoc, List.length_drop, ← List.take_add]
      congr 4
      omega

theorem copy_readsDownTo {h : fails = false → rest = 0} {source : Bytes}
    (hrest : rest ≤ source.length) : copy (readsDownTo rest fails h) source
      = (!fails, some (source.take (source.length - rest))) := by
  rw [copy, if_pos ⟨rfl, rfl⟩, copyLoop_readsDownTo h hrest]
  rfl

end

end Os
end MiniTSDB
