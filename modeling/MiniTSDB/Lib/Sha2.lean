import Mathlib.Analysis.SpecialFunctions.Pow.Real
import Mathlib.Data.Nat.Nth
import Mathlib.Data.Nat.Prime.Defs
import MiniTSDB.Lib.BlockStream

/-!
# SHA-256

The hash function as its standard defines it, on messages of whole bytes. The constants are not a
table here: they are what the table stands for, the first bits behind the point of the roots of
the first prime numbers, and `rootBits_eq` is how an entry of a table is checked.
-/

namespace MiniTSDB
namespace Lib
namespace Sha2

abbrev Word := BitVec 32

/-! ## The six functions -/

def ch (x y z : Word) : Word := (x &&& y) ^^^ (~~~x &&& z)

def maj (x y z : Word) : Word := (x &&& y) ^^^ (x &&& z) ^^^ (y &&& z)

def bigSigma0 (x : Word) : Word := x.rotateRight 2 ^^^ x.rotateRight 13 ^^^ x.rotateRight 22

def bigSigma1 (x : Word) : Word := x.rotateRight 6 ^^^ x.rotateRight 11 ^^^ x.rotateRight 25

def smallSigma0 (x : Word) : Word := x.rotateRight 7 ^^^ x.rotateRight 18 ^^^ x >>> 3

def smallSigma1 (x : Word) : Word := x.rotateRight 17 ^^^ x.rotateRight 19 ^^^ x >>> 10

/-! ## The constants -/

/-- The first 32 bits of the fractional part of a `k`-th root, that of the `t`-th prime. -/
noncomputable def rootBits (k t : Nat) : Word :=
  BitVec.ofNat 32 ⌊Int.fract ((Nat.nth Nat.Prime t : ℝ) ^ ((k : ℝ)⁻¹)) * ((2 ^ 32 : Nat) : ℝ)⌋₊

/-- The words `K_t`: cube roots. -/
noncomputable def constant (t : Nat) : Word := rootBits 3 t

/-! ## The computation -/

/-- The working variables, and the hash value. -/
@[ext] structure Vars where
  a : Word
  b : Word
  c : Word
  d : Word
  e : Word
  f : Word
  g : Word
  h : Word

/-- The initial hash value: square roots. -/
noncomputable def initial : Vars where
  a := rootBits 2 0
  b := rootBits 2 1
  c := rootBits 2 2
  d := rootBits 2 3
  e := rootBits 2 4
  f := rootBits 2 5
  g := rootBits 2 6
  h := rootBits 2 7

def Vars.add (v v' : Vars) : Vars where
  a := v.a + v'.a
  b := v.b + v'.b
  c := v.c + v'.c
  d := v.d + v'.d
  e := v.e + v'.e
  f := v.f + v'.f
  g := v.g + v'.g
  h := v.h + v'.h

def round (v : Vars) (k w : Word) : Vars :=
  let t₁ := v.h + bigSigma1 v.e + ch v.e v.f v.g + k + w
  let t₂ := bigSigma0 v.a + maj v.a v.b v.c
  { a := t₁ + t₂, b := v.a, c := v.b, d := v.c, e := v.d + t₁, f := v.e, g := v.f, h := v.g }

/-- The `i`-th word of a block, its bytes in order from the most significant one. -/
def blockWord (block : List UInt8) (i : Nat) : Word :=
  (block.getD (4 * i) 0).toBitVec ++ (block.getD (4 * i + 1) 0).toBitVec
    ++ (block.getD (4 * i + 2) 0).toBitVec ++ (block.getD (4 * i + 3) 0).toBitVec

/-- The message schedule. -/
def schedule (block : List UInt8) (t : Nat) : Word :=
  if t < 16 then blockWord block t
  else
    smallSigma1 (schedule block (t - 2)) + schedule block (t - 7)
      + smallSigma0 (schedule block (t - 15)) + schedule block (t - 16)

noncomputable def compress (v : Vars) (block : List UInt8) : Vars :=
  v.add ((List.range 64).foldl (fun v t => round v (constant t) (schedule block t)) v)

theorem exists_zeros (len : Nat) : ∃ k, (len + 1 + k) % 64 = 56 :=
  ⟨(119 - len % 64) % 64, by omega⟩

/-- The least number of zero bytes that leaves 8 bytes of a block free. -/
def zeros (len : Nat) : Nat := Nat.find (exists_zeros len)

/-- A number of bits, in 8 bytes. -/
def lengthBytes (bits : Nat) : List UInt8 :=
  (List.range 8).map fun i => UInt8.ofNat (bits / 256 ^ (7 - i))

def pad (m : List UInt8) : List UInt8 :=
  m ++ 0x80 :: (List.replicate (zeros m.length) 0 ++ lengthBytes (8 * m.length))

/-- The eight words one behind the other. -/
def Vars.digest (v : Vars) : BitVec 256 :=
  v.a ++ v.b ++ v.c ++ v.d ++ v.e ++ v.f ++ v.g ++ v.h

/-- The message digest. -/
noncomputable def sha256 (m : List UInt8) : BitVec 256 :=
  ((blocks 64 (pad m)).foldl compress initial).digest

/-! ## Reading the definitions -/

theorem schedule_of_lt (block : List UInt8) {t : Nat} (h : t < 16) :
    schedule block t = blockWord block t := by
  rw [schedule, if_pos h]

theorem schedule_of_le (block : List UInt8) {t : Nat} (h : 16 ≤ t) :
    schedule block t
      = smallSigma1 (schedule block (t - 2)) + schedule block (t - 7)
        + smallSigma0 (schedule block (t - 15)) + schedule block (t - 16) := by
  conv => lhs; rw [schedule]
  rw [if_neg (by omega)]

theorem zeros_eq (len : Nat) : zeros len = (119 - len % 64) % 64 := by
  refine (Nat.find_eq_iff _).mpr ⟨by omega, fun k hk => ?_⟩
  omega

@[simp] theorem length_lengthBytes (bits : Nat) : (lengthBytes bits).length = 8 := by
  simp [lengthBytes]

theorem dvd_length_pad (m : List UInt8) : 64 ∣ (pad m).length := by
  have hlen : (pad m).length = m.length + 1 + (119 - m.length % 64) % 64 + 8 := by
    rw [pad, List.length_append, List.length_cons, List.length_append, List.length_replicate,
      length_lengthBytes, zeros_eq]
    omega
  omega

/-- The bits of a root, from what surrounds it: `x` lies between two neighbours `q` and `q + 1`
once it is scaled. -/
theorem floor_fract_mul {x : ℝ} (hx : 0 ≤ x) {q : Nat} (hle : (q : ℝ) ≤ x * 2 ^ 32)
    (hlt : x * 2 ^ 32 < (q : ℝ) + 1) : ⌊Int.fract x * 2 ^ 32⌋₊ = q % 2 ^ 32 := by
  obtain ⟨r, hr⟩ := Nat.exists_eq_add_of_le (Nat.zero_le ⌊x⌋₊)
  rw [Nat.zero_add] at hr
  have hfloor : (⌊x⌋ : ℝ) = (r : ℝ) := by
    rw [← hr, natCast_floor_eq_intCast_floor hx]
  have hrle : (r : ℝ) ≤ x := hr ▸ Nat.floor_le hx
  have hrlt : x < (r : ℝ) + 1 := hr ▸ Nat.lt_floor_add_one x
  -- The whole part of the root is the upper part of `q`.
  have hlow : r * 2 ^ 32 ≤ q := by
    by_contra hcon
    have hcast : (q : ℝ) + 1 ≤ (r : ℝ) * 2 ^ 32 := by exact_mod_cast not_le.mp hcon
    linarith
  have hhigh : q < (r + 1) * 2 ^ 32 := by
    have hcast : (q : ℝ) < ((r : ℝ) + 1) * 2 ^ 32 := by linarith
    exact_mod_cast hcast
  have hmod : q % 2 ^ 32 = q - r * 2 ^ 32 := by omega
  rw [hmod, Int.fract, hfloor, Nat.floor_eq_iff (by nlinarith)]
  have hsub : ((q - r * 2 ^ 32 : Nat) : ℝ) = (q : ℝ) - (r : ℝ) * 2 ^ 32 := by
    rw [Nat.cast_sub hlow]
    push_cast
    ring
  rw [hsub]
  constructor
  · linarith
  · linarith

/-- **How an entry of a table of the constants is checked.** -/
theorem rootBits_eq {k t p q : Nat} (hk : k ≠ 0) (hp : p.Prime) (ht : Nat.count Nat.Prime p = t)
    (hle : q ^ k ≤ p * (2 ^ 32) ^ k) (hlt : p * (2 ^ 32) ^ k < (q + 1) ^ k) :
    rootBits k t = BitVec.ofNat 32 q := by
  have hnth : Nat.nth Nat.Prime t = p := ht ▸ Nat.nth_count hp
  have hcast : ((2 ^ 32 : Nat) : ℝ) = 2 ^ 32 := Nat.cast_pow 2 32
  rw [rootBits, hnth, hcast]
  obtain ⟨x, hx⟩ : ∃ x : ℝ, x = (p : ℝ) ^ ((k : ℝ)⁻¹) := ⟨_, rfl⟩
  have hnonneg : 0 ≤ x := hx ▸ Real.rpow_nonneg (Nat.cast_nonneg p) _
  have hpow : (x * 2 ^ 32) ^ k = (p : ℝ) * (2 ^ 32) ^ k := by
    rw [mul_pow, hx, Real.rpow_inv_natCast_pow (Nat.cast_nonneg p) hk]
  have hscaled : 0 ≤ x * 2 ^ 32 := by positivity
  have hleR : (q : ℝ) ≤ x * 2 ^ 32 := by
    refine (pow_le_pow_iff_left₀ (Nat.cast_nonneg q) hscaled hk).mp ?_
    rw [hpow]
    exact_mod_cast hle
  have hltR : x * 2 ^ 32 < (q : ℝ) + 1 := by
    refine (pow_lt_pow_iff_left₀ hscaled (by positivity) hk).mp ?_
    rw [hpow]
    exact_mod_cast hlt
  rw [← hx, floor_fract_mul hnonneg hleR hltR]
  apply BitVec.eq_of_toNat_eq
  simp

end Sha2
end Lib
end MiniTSDB
