import Mathlib.Data.List.Basic
import Mathlib.Algebra.Group.Nat.Defs

/-!
# Sha256 — the SHA-256 function

The compression function over a message schedule, on words kept as natural numbers below
`2^32`, and the padding of a message of whole bytes.  It is written for evaluation: a block is
64 structural steps.
-/

namespace Sha256

/-! ## Words -/

/-- A 32-bit word. -/
abbrev Word := Nat

/-- The size of a word's range. -/
def modulus : Nat := 2 ^ 32

def rotr (x : Word) (n : Nat) : Word := (x >>> n ||| x <<< (32 - n)) % modulus

def ch (x y z : Word) : Word := (x &&& y) ^^^ ((modulus - 1 - x) &&& z)

def maj (x y z : Word) : Word := (x &&& y) ^^^ (x &&& z) ^^^ (y &&& z)

def bigSigma0 (x : Word) : Word := rotr x 2 ^^^ rotr x 13 ^^^ rotr x 22

def bigSigma1 (x : Word) : Word := rotr x 6 ^^^ rotr x 11 ^^^ rotr x 25

def smallSigma0 (x : Word) : Word := rotr x 7 ^^^ rotr x 18 ^^^ x >>> 3

def smallSigma1 (x : Word) : Word := rotr x 17 ^^^ rotr x 19 ^^^ x >>> 10

/-! ## Compression -/

/-- The eight working variables. -/
structure State where
  a : Word
  b : Word
  c : Word
  d : Word
  e : Word
  f : Word
  g : Word
  h : Word

def initial : State :=
  ⟨0x6a09e667, 0xbb67ae85, 0x3c6ef372, 0xa54ff53a, 0x510e527f, 0x9b05688c, 0x1f83d9ab, 0x5be0cd19⟩

def constants : List Word :=
  [0x428a2f98, 0x71374491, 0xb5c0fbcf, 0xe9b5dba5, 0x3956c25b, 0x59f111f1, 0x923f82a4, 0xab1c5ed5,
    0xd807aa98, 0x12835b01, 0x243185be, 0x550c7dc3, 0x72be5d74, 0x80deb1fe, 0x9bdc06a7, 0xc19bf174,
    0xe49b69c1, 0xefbe4786, 0x0fc19dc6, 0x240ca1cc, 0x2de92c6f, 0x4a7484aa, 0x5cb0a9dc, 0x76f988da,
    0x983e5152, 0xa831c66d, 0xb00327c8, 0xbf597fc7, 0xc6e00bf3, 0xd5a79147, 0x06ca6351, 0x14292967,
    0x27b70a85, 0x2e1b2138, 0x4d2c6dfc, 0x53380d13, 0x650a7354, 0x766a0abb, 0x81c2c92e, 0x92722c85,
    0xa2bfe8a1, 0xa81a664b, 0xc24b8b70, 0xc76c51a3, 0xd192e819, 0xd6990624, 0xf40e3585, 0x106aa070,
    0x19a4c116, 0x1e376c08, 0x2748774c, 0x34b0bcb5, 0x391c0cb3, 0x4ed8aa4a, 0x5b9cca4f, 0x682e6ff3,
    0x748f82ee, 0x78a5636f, 0x84c87814, 0x8cc70208, 0x90befffa, 0xa4506ceb, 0xbef9a3f7, 0xc67178f2]

/-- `n` more words of the message schedule; the latest word comes first. -/
def schedule : Nat → List Word → List Word
  | 0, w => w
  | n + 1, w =>
      let next := w.getD 15 0 + smallSigma0 (w.getD 14 0) + w.getD 6 0 + smallSigma1 (w.getD 1 0)
      schedule n (next % modulus :: w)

/-- One round. -/
def round (s : State) (k w : Word) : State :=
  let t1 := s.h + bigSigma1 s.e + ch s.e s.f s.g + k + w
  let t2 := bigSigma0 s.a + maj s.a s.b s.c
  ⟨(t1 + t2) % modulus, s.a, s.b, s.c, (s.d + t1) % modulus, s.e, s.f, s.g⟩

def rounds : List Word → List Word → State → State
  | k :: ks, w :: ws, s => rounds ks ws (round s k w)
  | _, _, s => s

/-- The hash values after one block of 16 words. -/
def compress (s : State) (block : List Word) : State :=
  let t := rounds constants (schedule 48 block.reverse).reverse s
  ⟨(s.a + t.a) % modulus, (s.b + t.b) % modulus, (s.c + t.c) % modulus, (s.d + t.d) % modulus,
    (s.e + t.e) % modulus, (s.f + t.f) % modulus, (s.g + t.g) % modulus, (s.h + t.h) % modulus⟩

def compressAll : Nat → List Word → State → State
  | 0, _, s => s
  | n + 1, ws, s => compressAll n (ws.drop 16) (compress s (ws.take 16))

/-! ## Messages and digests -/

/-- The last `k` bytes of `n`, most significant first. -/
def bigEndian (n : Nat) : Nat → List UInt8
  | 0 => []
  | k + 1 => UInt8.ofNat (n / 256 ^ k % 256) :: bigEndian n k

def words : List UInt8 → List Word
  | a :: b :: c :: d :: rest =>
      (a.toNat * 2 ^ 24 + b.toNat * 2 ^ 16 + c.toNat * 2 ^ 8 + d.toNat) :: words rest
  | _ => []

/-- A one bit, zeros up to 8 bytes before a block's end, and the length in bits. -/
def pad (m : List UInt8) : List UInt8 :=
  m ++ 0x80 :: List.replicate ((119 - m.length % 64) % 64) 0 ++ bigEndian (8 * m.length) 8

def digest (m : List UInt8) : List UInt8 :=
  let ws := words (pad m)
  let s := compressAll (ws.length / 16) ws initial
  [s.a, s.b, s.c, s.d, s.e, s.f, s.g, s.h].flatMap fun w => bigEndian w 4

theorem length_bigEndian (n k : Nat) : (bigEndian n k).length = k := by
  induction k with
  | zero => rfl
  | succ k ih => simp [bigEndian, ih]

theorem length_digest (m : List UInt8) : (digest m).length = 32 := by
  simp [digest, length_bigEndian]

/-- The published digest of `abc`. -/
example : (digest [97, 98, 99]).take 4 = [0xba, 0x78, 0x16, 0xbf] := by decide +kernel

end Sha256
