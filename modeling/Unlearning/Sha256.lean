import Mathlib.Data.List.Basic

/-!
# SHA-256 and HMAC on byte strings

The digest function of `hashlib.sha256` and the keyed digest of
`hmac.new(key, message, hashlib.sha256)`, on lists of bytes. Everything is
structurally recursive, so that digests evaluate.
-/

namespace Unlearning

namespace Sha2

/-- The eight working variables of the compression function. -/
structure Words where
  a : UInt32
  b : UInt32
  c : UInt32
  d : UInt32
  e : UInt32
  f : UInt32
  g : UInt32
  h : UInt32

/-- The initial hash value: fractional parts of the square roots of the first eight primes. -/
def initial : Words :=
  ⟨0x6a09e667, 0xbb67ae85, 0x3c6ef372, 0xa54ff53a, 0x510e527f, 0x9b05688c, 0x1f83d9ab, 0x5be0cd19⟩

/-- The round constants: fractional parts of the cube roots of the first 64 primes. -/
def roundConstants : List UInt32 :=
  [0x428a2f98, 0x71374491, 0xb5c0fbcf, 0xe9b5dba5, 0x3956c25b, 0x59f111f1, 0x923f82a4, 0xab1c5ed5,
    0xd807aa98, 0x12835b01, 0x243185be, 0x550c7dc3, 0x72be5d74, 0x80deb1fe, 0x9bdc06a7, 0xc19bf174,
    0xe49b69c1, 0xefbe4786, 0x0fc19dc6, 0x240ca1cc, 0x2de92c6f, 0x4a7484aa, 0x5cb0a9dc, 0x76f988da,
    0x983e5152, 0xa831c66d, 0xb00327c8, 0xbf597fc7, 0xc6e00bf3, 0xd5a79147, 0x06ca6351, 0x14292967,
    0x27b70a85, 0x2e1b2138, 0x4d2c6dfc, 0x53380d13, 0x650a7354, 0x766a0abb, 0x81c2c92e, 0x92722c85,
    0xa2bfe8a1, 0xa81a664b, 0xc24b8b70, 0xc76c51a3, 0xd192e819, 0xd6990624, 0xf40e3585, 0x106aa070,
    0x19a4c116, 0x1e376c08, 0x2748774c, 0x34b0bcb5, 0x391c0cb3, 0x4ed8aa4a, 0x5b9cca4f, 0x682e6ff3,
    0x748f82ee, 0x78a5636f, 0x84c87814, 0x8cc70208, 0x90befffa, 0xa4506ceb, 0xbef9a3f7, 0xc67178f2]

/-- Rotation to the right, for `0 < n < 32`. -/
def rotr (x n : UInt32) : UInt32 := (x >>> n) ||| (x <<< (32 - n))

/-- One round. -/
def round (s : Words) (k w : UInt32) : Words :=
  let t₁ := s.h + (rotr s.e 6 ^^^ rotr s.e 11 ^^^ rotr s.e 25) +
    ((s.e &&& s.f) ^^^ (~~~s.e &&& s.g)) + k + w
  let t₂ := (rotr s.a 2 ^^^ rotr s.a 13 ^^^ rotr s.a 22) +
    ((s.a &&& s.b) ^^^ (s.a &&& s.c) ^^^ (s.b &&& s.c))
  ⟨t₁ + t₂, s.a, s.b, s.c, s.d + t₁, s.e, s.f, s.g⟩

/-- The word of the message schedule sixteen places after the first of the window. -/
def nextWord (window : List UInt32) : UInt32 :=
  let w (i : ℕ) : UInt32 := window.getD i 0
  (rotr (w 14) 17 ^^^ rotr (w 14) 19 ^^^ (w 14 >>> 10)) + w 9 +
    (rotr (w 1) 7 ^^^ rotr (w 1) 18 ^^^ (w 1 >>> 3)) + w 0

/-- The rounds, over a sliding window of sixteen words of the schedule. -/
def rounds : List UInt32 → List UInt32 → Words → Words
  | [], _, s => s
  | k :: ks, window, s =>
    rounds ks (window.drop 1 ++ [nextWord window]) (round s k (window.getD 0 0))

/-- The state after a block. -/
def compress (s : Words) (block : List UInt32) : Words :=
  let t := rounds roundConstants block s
  ⟨s.a + t.a, s.b + t.b, s.c + t.c, s.d + t.d, s.e + t.e, s.f + t.f, s.g + t.g, s.h + t.h⟩

/-- Compression of the first `n` blocks of sixteen words. -/
def compressAll : ℕ → List UInt32 → Words → Words
  | 0, _, s => s
  | n + 1, words, s => compressAll n (words.drop 16) (compress s (words.take 16))

/-- Big-endian words of four bytes. -/
def beWords : List UInt8 → List UInt32
  | a :: b :: c :: d :: rest =>
    ((a.toUInt32 <<< 24) ||| (b.toUInt32 <<< 16) ||| (c.toUInt32 <<< 8) ||| d.toUInt32) ::
      beWords rest
  | _ => []

/-- The `w` big-endian bytes of `n`. -/
def beBytes : ℕ → ℕ → List UInt8
  | 0, _ => []
  | w + 1, n => UInt8.ofNat (n / 256 ^ w) :: beBytes w n

/-- A one bit, zeros to a multiple of 64 bytes, and the length in bits. -/
def pad (message : List UInt8) : List UInt8 :=
  message ++ 0x80 :: (List.replicate ((119 - message.length % 64) % 64) 0 ++
    beBytes 8 (8 * message.length))

/-- `hashlib.sha256(message).digest()` -/
def sha256 (message : List UInt8) : List UInt8 :=
  let padded := pad message
  let s := compressAll (padded.length / 64) (beWords padded) initial
  [s.a, s.b, s.c, s.d, s.e, s.f, s.g, s.h].flatMap fun w => beBytes 4 w.toNat

theorem length_sha256 (message : List UInt8) : (sha256 message).length = 32 := rfl

/-- A key of one block: a longer key is replaced by its digest. -/
def blockKey (key : List UInt8) : List UInt8 :=
  let short := if 64 < key.length then sha256 key else key
  short ++ List.replicate (64 - short.length) 0

/-- `hmac.new(key, message, hashlib.sha256).digest()` -/
def hmacSha256 (key message : List UInt8) : List UInt8 :=
  sha256 ((blockKey key).map (· ^^^ 0x5c) ++ sha256 ((blockKey key).map (· ^^^ 0x36) ++ message))

/-- A digit of `hex`. -/
def hexDigit (n : ℕ) : Char := Char.ofNat (if n < 10 then 48 + n else 87 + n)

/-- `bytes.hex()` -/
def hex (bytes : List UInt8) : String :=
  String.ofList (bytes.flatMap fun b => [hexDigit (b.toNat / 16), hexDigit (b.toNat % 16)])

example : hex (sha256 [0x61, 0x62, 0x63]) =
    "ba7816bf8f01cfea414140de5dae2223b00361a396177a9cb410ff61f20015ad" := by decide +kernel

end Sha2

end Unlearning
