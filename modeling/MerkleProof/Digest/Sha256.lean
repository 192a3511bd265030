import MerkleProof.Digest

/-!
The hash function SHA-256 on byte strings: the message is padded to whole blocks of 64
bytes, and each block is mixed into a state of eight words by 64 rounds.
-/

namespace MerkleProof.Sha256

structure State where
  a : UInt32
  b : UInt32
  c : UInt32
  d : UInt32
  e : UInt32
  f : UInt32
  g : UInt32
  h : UInt32

def State.initial : State where
  a := 0x6a09e667
  b := 0xbb67ae85
  c := 0x3c6ef372
  d := 0xa54ff53a
  e := 0x510e527f
  f := 0x9b05688c
  g := 0x1f83d9ab
  h := 0x5be0cd19

def roundConstants : List UInt32 := [
  0x428a2f98, 0x71374491, 0xb5c0fbcf, 0xe9b5dba5,
  0x3956c25b, 0x59f111f1, 0x923f82a4, 0xab1c5ed5,
  0xd807aa98, 0x12835b01, 0x243185be, 0x550c7dc3,
  0x72be5d74, 0x80deb1fe, 0x9bdc06a7, 0xc19bf174,
  0xe49b69c1, 0xefbe4786, 0x0fc19dc6, 0x240ca1cc,
  0x2de92c6f, 0x4a7484aa, 0x5cb0a9dc, 0x76f988da,
  0x983e5152, 0xa831c66d, 0xb00327c8, 0xbf597fc7,
  0xc6e00bf3, 0xd5a79147, 0x06ca6351, 0x14292967,
  0x27b70a85, 0x2e1b2138, 0x4d2c6dfc, 0x53380d13,
  0x650a7354, 0x766a0abb, 0x81c2c92e, 0x92722c85,
  0xa2bfe8a1, 0xa81a664b, 0xc24b8b70, 0xc76c51a3,
  0xd192e819, 0xd6990624, 0xf40e3585, 0x106aa070,
  0x19a4c116, 0x1e376c08, 0x2748774c, 0x34b0bcb5,
  0x391c0cb3, 0x4ed8aa4a, 0x5b9cca4f, 0x682e6ff3,
  0x748f82ee, 0x78a5636f, 0x84c87814, 0x8cc70208,
  0x90befffa, 0xa4506ceb, 0xbef9a3f7, 0xc67178f2]

def rotateRight (x n : UInt32) : UInt32 := (x >>> n) ||| (x <<< (32 - n))

def round (s : State) (constant word : UInt32) : State :=
  let mixed := rotateRight s.e 6 ^^^ rotateRight s.e 11 ^^^ rotateRight s.e 25
  let choice := (s.e &&& s.f) ^^^ (~~~s.e &&& s.g)
  let sum := s.h + mixed + choice + constant + word
  let spread := rotateRight s.a 2 ^^^ rotateRight s.a 13 ^^^ rotateRight s.a 22
  let majority := (s.a &&& s.b) ^^^ (s.a &&& s.c) ^^^ (s.b &&& s.c)
  { a := sum + (spread + majority), b := s.a, c := s.b, d := s.c
    e := s.d + sum, f := s.e, g := s.f, h := s.g }

/-- The word that follows the given ones (last first) in the message schedule. -/
def nextWord (words : List UInt32) : UInt32 :=
  let w2 := words.getD 1 0
  let w15 := words.getD 14 0
  (rotateRight w2 17 ^^^ rotateRight w2 19 ^^^ (w2 >>> 10)) + words.getD 6 0
    + (rotateRight w15 7 ^^^ rotateRight w15 18 ^^^ (w15 >>> 3)) + words.getD 15 0

/-- The words `words` (last first) followed by `n` more, in order. -/
def extend (words : List UInt32) : Nat → List UInt32
  | 0 => words.reverse
  | n + 1 => extend (nextWord words :: words) n

def wordOfBytes (b0 b1 b2 b3 : UInt8) : UInt32 :=
  (b0.toUInt32 <<< 24) ||| (b1.toUInt32 <<< 16) ||| (b2.toUInt32 <<< 8) ||| b3.toUInt32

def bytesOfWord (w : UInt32) : Bytes :=
  [(w >>> 24).toUInt8, (w >>> 16).toUInt8, (w >>> 8).toUInt8, w.toUInt8]

def wordsOfBytes : Bytes → List UInt32
  | b0 :: b1 :: b2 :: b3 :: rest => wordOfBytes b0 b1 b2 b3 :: wordsOfBytes rest
  | _ => []

def compress (s : State) (block : Bytes) : State :=
  let schedule := extend (wordsOfBytes block).reverse 48
  let t := (roundConstants.zip schedule).foldl (fun t p => round t p.1 p.2) s
  { a := s.a + t.a, b := s.b + t.b, c := s.c + t.c, d := s.d + t.d
    e := s.e + t.e, f := s.f + t.f, g := s.g + t.g, h := s.h + t.h }

/-- The message, one set bit, zeros up to eight bytes before a whole block, and the
message's length in bits. -/
def pad (message : Bytes) : Bytes :=
  let zeros := (119 - message.length % 64) % 64
  let bits := UInt64.ofNat (8 * message.length)
  let tail : Bytes := 0x80 :: List.replicate zeros 0
  message ++ tail ++ bytesOfWord (bits >>> 32).toUInt32 ++ bytesOfWord bits.toUInt32

def absorb (s : State) (bytes : Bytes) : State :=
  match bytes with
  | [] => s
  | b :: rest => absorb (compress s ((b :: rest).take 64)) ((b :: rest).drop 64)
termination_by bytes.length
decreasing_by
  simp only [List.length_drop, List.length_cons]
  omega

def State.digest (s : State) : Digest where
  toList := [s.a, s.b, s.c, s.d, s.e, s.f, s.g, s.h].flatMap bytesOfWord
  length_toList := rfl

end MerkleProof.Sha256

namespace MerkleProof

def sha256 (message : Bytes) : Digest :=
  (Sha256.absorb Sha256.State.initial (Sha256.pad message)).digest

end MerkleProof
