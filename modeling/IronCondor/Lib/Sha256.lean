import Mathlib

/-! # SHA-256

The hash of FIPS 180-4 on lists of bytes, with its words as numbers below `2 ^ 32`. -/
namespace Fips180

/-- The round constants. -/
def roundConstants : List Nat :=
  [0x428a2f98, 0x71374491, 0xb5c0fbcf, 0xe9b5dba5, 0x3956c25b, 0x59f111f1, 0x923f82a4, 0xab1c5ed5,
    0xd807aa98, 0x12835b01, 0x243185be, 0x550c7dc3, 0x72be5d74, 0x80deb1fe, 0x9bdc06a7, 0xc19bf174,
    0xe49b69c1, 0xefbe4786, 0x0fc19dc6, 0x240ca1cc, 0x2de92c6f, 0x4a7484aa, 0x5cb0a9dc, 0x76f988da,
    0x983e5152, 0xa831c66d, 0xb00327c8, 0xbf597fc7, 0xc6e00bf3, 0xd5a79147, 0x06ca6351, 0x14292967,
    0x27b70a85, 0x2e1b2138, 0x4d2c6dfc, 0x53380d13, 0x650a7354, 0x766a0abb, 0x81c2c92e, 0x92722c85,
    0xa2bfe8a1, 0xa81a664b, 0xc24b8b70, 0xc76c51a3, 0xd192e819, 0xd6990624, 0xf40e3585, 0x106aa070,
    0x19a4c116, 0x1e376c08, 0x2748774c, 0x34b0bcb5, 0x391c0cb3, 0x4ed8aa4a, 0x5b9cca4f, 0x682e6ff3,
    0x748f82ee, 0x78a5636f, 0x84c87814, 0x8cc70208, 0x90befffa, 0xa4506ceb, 0xbef9a3f7, 0xc67178f2]

/-- The chaining state. -/
structure Words where
  a : Nat
  b : Nat
  c : Nat
  d : Nat
  e : Nat
  f : Nat
  g : Nat
  h : Nat

def initial : Words :=
  ⟨0x6a09e667, 0xbb67ae85, 0x3c6ef372, 0xa54ff53a, 0x510e527f, 0x9b05688c, 0x1f83d9ab, 0x5be0cd19⟩

def add32 (x y : Nat) : Nat := (x + y) % 2 ^ 32

/-- Rotation to the right. -/
def rotr (n x : Nat) : Nat := (x >>> n) ||| ((x <<< (32 - n)) % 2 ^ 32)

def bigSigma0 (x : Nat) : Nat := rotr 2 x ^^^ rotr 13 x ^^^ rotr 22 x

def bigSigma1 (x : Nat) : Nat := rotr 6 x ^^^ rotr 11 x ^^^ rotr 25 x

def smallSigma0 (x : Nat) : Nat := rotr 7 x ^^^ rotr 18 x ^^^ (x >>> 3)

def smallSigma1 (x : Nat) : Nat := rotr 17 x ^^^ rotr 19 x ^^^ (x >>> 10)

def choose (x y z : Nat) : Nat := (x &&& y) ^^^ ((2 ^ 32 - 1 - x) &&& z)

def majority (x y z : Nat) : Nat := (x &&& y) ^^^ (x &&& z) ^^^ (y &&& z)

/-- One round. -/
def round (s : Words) (k w : Nat) : Words :=
  let t := (s.h + bigSigma1 s.e + choose s.e s.f s.g + k + w) % 2 ^ 32
  ⟨add32 t (bigSigma0 s.a + majority s.a s.b s.c), s.a, s.b, s.c, add32 s.d t, s.e, s.f, s.g⟩

/-- The rounds of a block; `window` is the next sixteen words of its schedule. -/
def rounds (s : Words) : List Nat → List Nat → Words
  | k :: ks, w :: window =>
    let next := (smallSigma1 (window.getD 13 0) + window.getD 8 0 +
      smallSigma0 (window.getD 0 0) + w) % 2 ^ 32
    rounds (round s k w) ks (window ++ [next])
  | _, _ => s

def compress (s : Words) (block : List Nat) : Words :=
  let t := rounds s roundConstants block
  ⟨add32 s.a t.a, add32 s.b t.b, add32 s.c t.c, add32 s.d t.d, add32 s.e t.e, add32 s.f t.f,
    add32 s.g t.g, add32 s.h t.h⟩

/-- The big-endian bytes of a number. -/
def beBytes (count x : Nat) : List UInt8 :=
  (List.range count).map fun i => UInt8.ofNat (x / 256 ^ (count - 1 - i))

/-- A one bit, zeros up to eight bytes short of a block, and the length in bits. -/
def pad (message : List UInt8) : List UInt8 :=
  message ++ [0x80] ++ List.replicate ((119 - message.length % 64) % 64) 0 ++
    beBytes 8 (8 * message.length)

/-- The big-endian words some bytes spell. -/
def toWords : List UInt8 → List Nat
  | b :: b' :: b'' :: b''' :: bytes =>
    (((b.toNat * 256 + b'.toNat) * 256 + b''.toNat) * 256 + b'''.toNat) :: toWords bytes
  | _ => []

/-- Compress block after block; the fuel bounds their number. -/
def compressAll : Nat → Words → List Nat → Words
  | 0, s, _ => s
  | fuel + 1, s, words =>
    if words.isEmpty then s else compressAll fuel (compress s (words.take 16)) (words.drop 16)

/-- SHA-256. -/
def sha256 (message : List UInt8) : List UInt8 :=
  let words := toWords (pad message)
  let s := compressAll words.length initial words
  [s.a, s.b, s.c, s.d, s.e, s.f, s.g, s.h].flatMap (beBytes 4)

theorem length_beBytes (count x : Nat) : (beBytes count x).length = count := by
  rw [beBytes, List.length_map, List.length_range]

/-- A digest takes thirty-two bytes. -/
theorem length_sha256 (message : List UInt8) : (sha256 message).length = 32 := by
  simp [sha256, length_beBytes]

end Fips180
