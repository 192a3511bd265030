import MerkleProof.Hex

/-!
Digests: the 32-byte values of the hash function. A digest is written as 64 lower-case
hexadecimal digits and read with digits of either case and an optional `0x`.
-/

namespace MerkleProof

abbrev Digest := Bytes32

namespace Digest

/-- The all-zero digest, which is the root of an empty map. -/
def empty : Digest := Bytes32.zero

def text (d : Digest) : String := Hex.text d.toList

def markedText (d : Digest) : String := "0x" ++ d.text

def parse (s : String) : Except Hex.Error Digest := Hex.parse32 s

def expectation : String := "a hex string of 32 bytes"

structure LengthError where
  found : Nat
deriving DecidableEq

def LengthError.message (e : LengthError) : String :=
  s!"invalid hash length: expected 32 bytes, found {e.found}"

def ofBytes (bytes : Bytes) : Except LengthError Digest :=
  match Bytes32.ofList? bytes with
  | some d => .ok d
  | none => .error ⟨bytes.length⟩

end Digest

end MerkleProof
