import MiniTSDB.Lib.Fields
import Mathlib.Algebra.Group.Defs

/-!
# `common/types.h`

The value types of the storage engine. `std::string` and every other buffer is a byte string. A
`double` is its 64-bit pattern: the storage layer only ever copies it (`DoubleToBits`,
`memcpy`), so a NaN payload or the sign of a zero is data here, not arithmetic.
-/

namespace MiniTSDB

open Lib

/-- Byte strings: file contents, encoded blocks, and `std::string`. -/
abbrev Bytes := List UInt8

/-- The bytes of an ASCII literal of the source. -/
def ascii (s : String) : Bytes := s.toList.map fun c => UInt8.ofNat c.toNat

/-- Microseconds since the Unix epoch. -/
abbrev Timestamp := Int64

/-- Arithmetic on timestamps wraps, so it is that of a group. -/
instance instAddCommGroupTimestamp : AddCommGroup Timestamp where
  add_assoc := Int64.add_assoc
  zero_add := Int64.zero_add
  add_zero := Int64.add_zero
  nsmul := nsmulRec
  neg_add_cancel := Int64.add_left_neg
  sub_eq_add_neg := Int64.sub_eq_add_neg
  zsmul := zsmulRec
  add_comm := Int64.add_comm

/-- `std::variant<double, int64_t, std::string>`. -/
inductive Value
  | double (bits : UInt64)
  | int64 (i : Int64)
  | string (s : Bytes)
  deriving DecidableEq, Repr

def Value.isDouble : Value → Bool
  | .double _ => true
  | _ => false

/-- A number without its last bits, to the nearest; of two as near, to the even one. -/
def roundEven (m bits : Nat) : Nat :=
  let quotient := m >>> bits
  let rest := m % 2 ^ bits
  if 2 * rest > 2 ^ bits ∨ (2 * rest = 2 ^ bits ∧ quotient % 2 = 1) then quotient + 1 else quotient

/-- `static_cast<double>` of an `int64_t`. The significand has its first bit, which is not stored;
one that is rounded up to the next power of two carries into the exponent. -/
def doubleOfInt (i : Int64) : UInt64 :=
  let m := i.toInt.natAbs
  if m = 0 then 0
  else
    let e := m.log2
    let significand := if e ≤ 52 then m <<< (52 - e) else roundEven m (e - 52)
    UInt64.ofNat ((if i < 0 then 2 ^ 63 else 0) + (e + 1022) * 2 ^ 52 + significand)

structure DataPoint where
  ts : Timestamp
  value : Value
  deriving DecidableEq, Repr

/-- The points of one tag in a batch write. -/
structure DataBatch where
  tagName : Bytes
  points : List DataPoint
  deriving DecidableEq, Repr

structure TimeRange where
  start : Timestamp
  stop : Timestamp
  deriving DecidableEq, Repr

def TimeRange.contains (r : TimeRange) (ts : Timestamp) : Bool :=
  ts ≥ r.start && ts ≤ r.stop

def TimeRange.overlaps (r other : TimeRange) : Bool :=
  r.start ≤ other.stop && r.stop ≥ other.start

@[simp] theorem TimeRange.contains_iff {r : TimeRange} {ts : Timestamp} :
    r.contains ts = true ↔ r.start ≤ ts ∧ ts ≤ r.stop := by
  simp [TimeRange.contains]

@[simp] theorem TimeRange.overlaps_iff {r other : TimeRange} :
    r.overlaps other = true ↔ r.start ≤ other.stop ∧ other.start ≤ r.stop := by
  simp [TimeRange.overlaps]

/-! ## A timestamp in memory -/

def timestampBytes (t : Timestamp) : Bytes := leBytes 8 t.toUInt64.toNat

def timestampOfBytes (bs : Bytes) : Timestamp := (UInt64.ofNat (ofLeBytes bs)).toInt64

@[simp] theorem length_timestampBytes (t : Timestamp) : (timestampBytes t).length = 8 :=
  length_leBytes _ _

@[simp] theorem timestampOfBytes_timestampBytes (t : Timestamp) :
    timestampOfBytes (timestampBytes t) = t := by
  rw [timestampOfBytes, timestampBytes, ofLeBytes_leBytes_of_lt (UInt64.toNat_lt _),
    UInt64.ofNat_toNat, Int64.toInt64_toUInt64]

end MiniTSDB
