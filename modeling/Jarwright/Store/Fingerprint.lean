import Jarwright.Bytes

/-!
# Fingerprints

The fingerprint of a content is its SHA-256 digest: the content is padded to whole blocks of 64
bytes, and each block is mixed into eight words in 64 rounds.

* `digest` gives the 32 bytes, `Fingerprint.ofBytes` wraps them;
* `Fingerprint.hex` is the form in which a fingerprint is written down.
-/

namespace Jarwright.Store

namespace Sha256

/-- The first 32 bits of the fractional parts of the cube roots of the first 64 primes. -/
def roundConstants : Array UInt32 := #[
  0x428a2f98, 0x71374491, 0xb5c0fbcf, 0xe9b5dba5, 0x3956c25b, 0x59f111f1, 0x923f82a4, 0xab1c5ed5,
  0xd807aa98, 0x12835b01, 0x243185be, 0x550c7dc3, 0x72be5d74, 0x80deb1fe, 0x9bdc06a7, 0xc19bf174,
  0xe49b69c1, 0xefbe4786, 0x0fc19dc6, 0x240ca1cc, 0x2de92c6f, 0x4a7484aa, 0x5cb0a9dc, 0x76f988da,
  0x983e5152, 0xa831c66d, 0xb00327c8, 0xbf597fc7, 0xc6e00bf3, 0xd5a79147, 0x06ca6351, 0x14292967,
  0x27b70a85, 0x2e1b2138, 0x4d2c6dfc, 0x53380d13, 0x650a7354, 0x766a0abb, 0x81c2c92e, 0x92722c85,
  0xa2bfe8a1, 0xa81a664b, 0xc24b8b70, 0xc76c51a3, 0xd192e819, 0xd6990624, 0xf40e3585, 0x106aa070,
  0x19a4c116, 0x1e376c08, 0x2748774c, 0x34b0bcb5, 0x391c0cb3, 0x4ed8aa4a, 0x5b9cca4f, 0x682e6ff3,
  0x748f82ee, 0x78a5636f, 0x84c87814, 0x8cc70208, 0x90befffa, 0xa4506ceb, 0xbef9a3f7, 0xc67178f2]

/-- The eight words that blocks are mixed into. -/
structure State where
  a : UInt32
  b : UInt32
  c : UInt32
  d : UInt32
  e : UInt32
  f : UInt32
  g : UInt32
  h : UInt32

/-- The first 32 bits of the fractional parts of the square roots of the first eight primes. -/
def State.start : State :=
  ⟨0x6a09e667, 0xbb67ae85, 0x3c6ef372, 0xa54ff53a, 0x510e527f, 0x9b05688c, 0x1f83d9ab, 0x5be0cd19⟩

/-- Rotation to the right. -/
def rotate (x : UInt32) (n : UInt32) : UInt32 := (x >>> n) ||| (x <<< (32 - n))

/-- Adds the words of two states. -/
def State.add (s t : State) : State :=
  ⟨s.a + t.a, s.b + t.b, s.c + t.c, s.d + t.d, s.e + t.e, s.f + t.f, s.g + t.g, s.h + t.h⟩

/-- One round with the sum of its constant and its word. -/
def State.round (s : State) (k : UInt32) : State :=
  let s₁ := rotate s.e 6 ^^^ rotate s.e 11 ^^^ rotate s.e 25
  let choice := (s.e &&& s.f) ^^^ (~~~s.e &&& s.g)
  let t₁ := s.h + s₁ + choice + k
  let s₀ := rotate s.a 2 ^^^ rotate s.a 13 ^^^ rotate s.a 22
  let majority := (s.a &&& s.b) ^^^ (s.a &&& s.c) ^^^ (s.b &&& s.c)
  ⟨t₁ + (s₀ + majority), s.a, s.b, s.c, s.d + t₁, s.e, s.f, s.g⟩

/-- Extends the words of a block by `n` more, each a sum of four earlier ones. -/
def extend (words : Array UInt32) : Nat → Array UInt32
  | 0 => words
  | n + 1 =>
    let earlier (back : Nat) : UInt32 := words.getD (words.size - back) 0
    let x := earlier 15
    let y := earlier 2
    let s₀ := rotate x 7 ^^^ rotate x 18 ^^^ (x >>> 3)
    let s₁ := rotate y 17 ^^^ rotate y 19 ^^^ (y >>> 10)
    extend (words.push (earlier 16 + s₀ + earlier 7 + s₁)) n

/-- The words that a block spells. -/
def words : Bytes → List UInt32
  | a :: b :: c :: d :: rest => UInt32.ofNat (Bytes.ofBigEndian [a, b, c, d]) :: words rest
  | _ => []

/-- Mixes a block into the state. -/
def compress (s : State) (block : Bytes) : State :=
  let schedule := extend (words block).toArray 48
  s.add ((roundConstants.zip schedule).foldl (fun t kw => t.round (kw.1 + kw.2)) s)

/-- Mixes `n` blocks into the state. -/
def compressAll (s : State) (bs : Bytes) : Nat → State
  | 0 => s
  | n + 1 => compressAll (compress s (bs.take 64)) (bs.drop 64) n

/-- The content with a one bit, zeros up to the last eight bytes of a block, and its length in
bits. -/
def pad (bs : Bytes) : Bytes :=
  bs ++ 0x80 :: List.replicate ((119 - bs.length % 64) % 64) 0 ++ Bytes.bigEndian 8 (bs.length * 8)

/-- The words of a state as bytes. -/
def State.toBytes (s : State) : Bytes :=
  [s.a, s.b, s.c, s.d, s.e, s.f, s.g, s.h].flatMap fun w => Bytes.bigEndian 4 w.toNat

end Sha256

/-- The SHA-256 digest of a content. -/
def digest (bs : Bytes) : Bytes :=
  let padded := Sha256.pad bs
  (Sha256.compressAll Sha256.State.start padded (padded.length / 64)).toBytes

/-- The digest of a content. -/
structure Fingerprint where
  bytes : Bytes
  deriving DecidableEq, Repr, Inhabited

namespace Fingerprint

/-- The fingerprint of a content. -/
def ofBytes (content : Bytes) : Fingerprint := ⟨digest content⟩

/-- Two lower-case digits per byte. -/
def hex (f : Fingerprint) : String := Bytes.toHex f.bytes

end Fingerprint

end Jarwright.Store
