/-!
# SHA-256

The digest of a byte string: padding to blocks of 64 bytes, a schedule of 64 words for each block,
and 64 rounds on a state of eight words.
-/

namespace AssetBake.Digest

structure State where
  a : UInt32
  b : UInt32
  c : UInt32
  d : UInt32
  e : UInt32
  f : UInt32
  g : UInt32
  h : UInt32

/-- The first 32 bits of the fractional parts of the square roots of the first eight primes. -/
def State.start : State :=
  ⟨0x6a09e667, 0xbb67ae85, 0x3c6ef372, 0xa54ff53a, 0x510e527f, 0x9b05688c, 0x1f83d9ab, 0x5be0cd19⟩

/-- The first 32 bits of the fractional parts of the cube roots of the first 64 primes. -/
def roundConstants : List UInt32 := [
  0x428a2f98, 0x71374491, 0xb5c0fbcf, 0xe9b5dba5, 0x3956c25b, 0x59f111f1, 0x923f82a4, 0xab1c5ed5,
  0xd807aa98, 0x12835b01, 0x243185be, 0x550c7dc3, 0x72be5d74, 0x80deb1fe, 0x9bdc06a7, 0xc19bf174,
  0xe49b69c1, 0xefbe4786, 0x0fc19dc6, 0x240ca1cc, 0x2de92c6f, 0x4a7484aa, 0x5cb0a9dc, 0x76f988da,
  0x983e5152, 0xa831c66d, 0xb00327c8, 0xbf597fc7, 0xc6e00bf3, 0xd5a79147, 0x06ca6351, 0x14292967,
  0x27b70a85, 0x2e1b2138, 0x4d2c6dfc, 0x53380d13, 0x650a7354, 0x766a0abb, 0x81c2c92e, 0x92722c85,
  0xa2bfe8a1, 0xa81a664b, 0xc24b8b70, 0xc76c51a3, 0xd192e819, 0xd6990624, 0xf40e3585, 0x106aa070,
  0x19a4c116, 0x1e376c08, 0x2748774c, 0x34b0bcb5, 0x391c0cb3, 0x4ed8aa4a, 0x5b9cca4f, 0x682e6ff3,
  0x748f82ee, 0x78a5636f, 0x84c87814, 0x8cc70208, 0x90befffa, 0xa4506ceb, 0xbef9a3f7, 0xc67178f2]

def rotateRight (x : UInt32) (n : UInt32) : UInt32 :=
  (x >>> n) ||| (x <<< (32 - n))

/-- The words of a block, from its bytes in big-endian order. -/
def blockWords : List UInt8 → List UInt32
  | b0 :: b1 :: b2 :: b3 :: rest =>
    (b0.toUInt32 <<< 24 ||| b1.toUInt32 <<< 16 ||| b2.toUInt32 <<< 8 ||| b3.toUInt32) ::
      blockWords rest
  | _ => []

/-- The next `count` words of a schedule after its last sixteen, nearest first. -/
def extend : Nat → List UInt32 → List UInt32
  | 0, _ => []
  | count + 1, window =>
    let w2 := window.getD 1 0
    let w7 := window.getD 6 0
    let w15 := window.getD 14 0
    let w16 := window.getD 15 0
    let s0 := rotateRight w15 7 ^^^ rotateRight w15 18 ^^^ (w15 >>> 3)
    let s1 := rotateRight w2 17 ^^^ rotateRight w2 19 ^^^ (w2 >>> 10)
    let word := w16 + s0 + w7 + s1
    word :: extend count (word :: window.take 15)

/-- The 64 words that the rounds of one block use. -/
def schedule (block : List UInt8) : List UInt32 :=
  let words := blockWords block
  words ++ extend 48 words.reverse

/-- One round, with the sum of its constant and its word. -/
def State.round (s : State) (input : UInt32) : State :=
  let s1 := rotateRight s.e 6 ^^^ rotateRight s.e 11 ^^^ rotateRight s.e 25
  let choice := (s.e &&& s.f) ^^^ (s.e.complement &&& s.g)
  let t1 := s.h + s1 + choice + input
  let s0 := rotateRight s.a 2 ^^^ rotateRight s.a 13 ^^^ rotateRight s.a 22
  let majority := (s.a &&& s.b) ^^^ (s.a &&& s.c) ^^^ (s.b &&& s.c)
  ⟨t1 + (s0 + majority), s.a, s.b, s.c, s.d + t1, s.e, s.f, s.g⟩

/-- The state after one block of 64 bytes. -/
def State.absorb (s : State) (block : List UInt8) : State :=
  let t := (List.zipWith (· + ·) roundConstants (schedule block)).foldl State.round s
  ⟨s.a + t.a, s.b + t.b, s.c + t.c, s.d + t.d, s.e + t.e, s.f + t.f, s.g + t.g, s.h + t.h⟩

/-- The message, a one bit, zeros, and the length in bits as eight bytes. -/
def pad (message : List UInt8) : List UInt8 :=
  let size := message.length
  let zeros := (119 - size % 64) % 64
  let bits := size * 8
  message ++ 0x80 :: List.replicate zeros 0 ++
    (List.range 8).map fun i => UInt8.ofNat (bits / Nat.pow 256 (7 - i))

def blocks : Nat → List UInt8 → List (List UInt8)
  | 0, _ => []
  | count + 1, bytes => bytes.take 64 :: blocks count (bytes.drop 64)

def words (message : List UInt8) : List UInt32 :=
  let padded := pad message
  let s := (blocks (padded.length / 64) padded).foldl State.absorb State.start
  [s.a, s.b, s.c, s.d, s.e, s.f, s.g, s.h]

def hexWord (w : UInt32) : List Char :=
  (List.range 8).map fun i => Nat.digitChar (w.toNat / Nat.pow 16 (7 - i) % 16)

/-- The digest as hexadecimal digits. -/
def sha256 (message : List UInt8) : String :=
  String.ofList ((words message).flatMap hexWord)

end AssetBake.Digest
