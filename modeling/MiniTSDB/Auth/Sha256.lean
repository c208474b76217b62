import MiniTSDB.Common.Types

/-!
# Digests and salts (`SHA256`, `HashPassword`, `GenerateSalt`)

The digest of a password is 64 characters long and a salt 32, whatever goes into them: this is what
the file of the users relies on.
-/

namespace MiniTSDB
namespace Auth

open Lib

/-! ## Hexadecimal numerals -/

def hexDigit (d : Nat) : UInt8 := UInt8.ofNat (if d < 10 then 48 + d else 87 + d)

/-- The low `width` digits of a number, the most significant first. -/
def hexDigits : Nat → Nat → Bytes
  | 0, _ => []
  | width + 1, n => hexDigits width (n / 16) ++ [hexDigit (n % 16)]

@[simp] theorem length_hexDigits (width n : Nat) : (hexDigits width n).length = width := by
  induction width generalizing n with
  | zero => rfl
  | succ width ih => rw [hexDigits, List.length_append, ih, List.length_singleton]

/-! ## `SHA256` -/

def sha256K : List UInt32 :=
  [0x428a2f98, 0x71374491, 0xb5c0fbcf, 0xe9b5dba5,
    0x3956c25b, 0x59f111f1, 0x923f82a4, 0xab1c5ed5,
    0xd807aa98, 0x12835b01, 0x243185be, 0x550c7dc3,
    0x72be5d74, 0x80deb1fe, 0x9bdc06a7, 0xc19bf174,
    0xe49b69c1, 0xefbe4786, 0x0fc19dc6, 0x240ca1cc,
    0x2de92c6f, 0x4a7484aa, 0x5cb0a9dc, 0x76f988da,
    0x983e5152, 0xa831c66d, 0xb00327c8, 0xbf597fc7,
    0xc6e00bf3, 0xd5a79147, 0x06ca6351, 0x14292967,
    0x27b70a85, 0x2e1b2138, 0x4d2c6dfc, 0x53380d13,
    0x650a7354, 0x766a0abb, 0x81c2c92e, 0x92722c85,
    0xa2bfe8a1, 0xa81a664b, 0xc24b8b70, 0xc76c51a3,
    0xd192e819, 0xd6990624, 0xf40e3585, 0x106aa070,
    0x19a4c116, 0x1e376c08, 0x2748774c, 0x34b0bcb5,
    0x391c0cb3, 0x4ed8aa4a, 0x5b9cca4f, 0x682e6ff3,
    0x748f82ee, 0x78a5636f, 0x84c87814, 0x8cc70208,
    0x90befffa, 0xa4506ceb, 0xbef9a3f7, 0xc67178f2]

/-- The words `h_`, and the variables `a` to `h` of a block. -/
structure Words where
  a : UInt32
  b : UInt32
  c : UInt32
  d : UInt32
  e : UInt32
  f : UInt32
  g : UInt32
  h : UInt32
  deriving DecidableEq, Repr

/-- What `Init` puts there. -/
def Words.start : Words where
  a := 0x6a09e667
  b := 0xbb67ae85
  c := 0x3c6ef372
  d := 0xa54ff53a
  e := 0x510e527f
  f := 0x9b05688c
  g := 0x1f83d9ab
  h := 0x5be0cd19

def Words.toList (w : Words) : List UInt32 := [w.a, w.b, w.c, w.d, w.e, w.f, w.g, w.h]

def Words.add (w w' : Words) : Words where
  a := w.a + w'.a
  b := w.b + w'.b
  c := w.c + w'.c
  d := w.d + w'.d
  e := w.e + w'.e
  f := w.f + w'.f
  g := w.g + w'.g
  h := w.h + w'.h

def rotR (x n : UInt32) : UInt32 := (x >>> n) ||| (x <<< (32 - n))

/-- The first 16 words of `w`: the block, big-endian. -/
def blockWords : Bytes → List UInt32
  | b₀ :: b₁ :: b₂ :: b₃ :: rest =>
    (b₀.toUInt32 <<< 24 ||| b₁.toUInt32 <<< 16 ||| b₂.toUInt32 <<< 8 ||| b₃.toUInt32)
      :: blockWords rest
  | _ => []

/-- The next word of `w`, from the ones before it, the last of them first. -/
def nextWord (ws : List UInt32) : UInt32 :=
  let w₂ := ws.getD 1 0
  let w₇ := ws.getD 6 0
  let w₁₅ := ws.getD 14 0
  let w₁₆ := ws.getD 15 0
  let s0 := rotR w₁₅ 7 ^^^ rotR w₁₅ 18 ^^^ (w₁₅ >>> 3)
  let s1 := rotR w₂ 17 ^^^ rotR w₂ 19 ^^^ (w₂ >>> 10)
  w₁₆ + s0 + w₇ + s1

/-- The words from the 17th on, each put in front of the ones before it. -/
def moreWords : Nat → List UInt32 → List UInt32
  | 0, ws => ws
  | n + 1, ws => moreWords n (nextWord ws :: ws)

/-- One turn of the loop over the 64 words. -/
def shaRound (v : Words) (kw : UInt32 × UInt32) : Words :=
  let s1 := rotR v.e 6 ^^^ rotR v.e 11 ^^^ rotR v.e 25
  let ch := (v.e &&& v.f) ^^^ (~~~v.e &&& v.g)
  let temp1 := v.h + s1 + ch + kw.1 + kw.2
  let s0 := rotR v.a 2 ^^^ rotR v.a 13 ^^^ rotR v.a 22
  let maj := (v.a &&& v.b) ^^^ (v.a &&& v.c) ^^^ (v.b &&& v.c)
  let temp2 := s0 + maj
  { a := temp1 + temp2, b := v.a, c := v.b, d := v.c, e := v.d + temp1, f := v.e, g := v.f,
    h := v.g }

/-- `ProcessBlock`. -/
def processBlock (h : Words) (block : Bytes) : Words :=
  let w := (moreWords 48 (blockWords block).reverse).reverse
  h.add ((sha256K.zip w).foldl shaRound h)

/-- `SHA256`; `data` is the part of `data_` that is filled. -/
structure SHA256 where
  h : Words := .start
  data : Bytes := []
  messageBytes : UInt64 := 0
  deriving Repr

/-- A byte, and the block that it fills. -/
def SHA256.put (s : SHA256) (b : UInt8) : SHA256 :=
  if s.data.length = 63 then { s with h := processBlock s.h (s.data ++ [b]), data := [] }
  else { s with data := s.data ++ [b] }

/-- `Update`. -/
def SHA256.update (s : SHA256) (data : Bytes) : SHA256 :=
  { data.foldl SHA256.put s with
    messageBytes := s.messageBytes + UInt64.ofNat data.length }

/-- `Digest`: a bit, zeros up to the last 8 bytes of a block, and the length in bits. -/
def SHA256.digest (s : SHA256) : Bytes :=
  let bits := s.messageBytes * 8
  let padding := 0x80 :: List.replicate ((119 - s.data.length) % 64) 0
  let last := (padding ++ (leBytes 8 bits.toNat).reverse).foldl SHA256.put s
  last.h.toList.flatMap fun word => hexDigits 8 word.toNat

/-- `HashPassword`. -/
def hashPassword (password salt : Bytes) : Bytes :=
  ((SHA256.update {} salt).update password).digest

/-- `Sha256Hex`. -/
def sha256Hex (input : Bytes) : Bytes := (SHA256.update {} input).digest

/-- `GenerateSalt`, from what is drawn. -/
def generateSalt (drawn : Fin 4 → UInt64) : Bytes :=
  ((List.ofFn drawn).flatMap fun word => hexDigits 16 word.toNat).take 32

theorem length_digest (s : SHA256) : s.digest.length = 64 := by
  unfold SHA256.digest Words.toList
  simp only [List.flatMap_cons, List.flatMap_nil, List.length_append, length_hexDigits,
    List.length_nil]

@[simp] theorem length_hashPassword (password salt : Bytes) :
    (hashPassword password salt).length = 64 := length_digest _

@[simp] theorem length_generateSalt (drawn : Fin 4 → UInt64) : (generateSalt drawn).length = 32 := by
  have hlen : ((List.ofFn drawn).flatMap fun word => hexDigits 16 word.toNat).length = 64 := by
    rw [List.length_flatMap]
    simp only [length_hexDigits, List.map_const', List.length_ofFn]
    rfl
  rw [generateSalt, List.length_take, hlen]
  rfl

example : sha256Hex (ascii "abc")
    = ascii "ba7816bf8f01cfea414140de5dae2223b00361a396177a9cb410ff61f20015ad" := by
  decide +kernel

end Auth
end MiniTSDB
