import MerkleProof.Bytes
import MerkleProof.Text.Quoted

/-!
Hexadecimal text: two digits for each byte, the high half first. Digits of either
case are read and lower-case digits are written. Lengths and positions count the
bytes of the text's UTF-8 form.
-/

namespace MerkleProof.Hex

inductive Error
  | oddLength
  | wrongLength
  /-- A byte that is not a digit stands at a position counted from zero. -/
  | invalidCharacter (byte : UInt8) (position : Nat)
deriving DecidableEq

def Error.message : Error → String
  | .oddLength => "Odd number of digits"
  | .wrongLength => "Invalid string length"
  | .invalidCharacter byte position =>
      "Invalid character " ++ Text.quotedChar (Char.ofUInt8 byte) ++
        s!" at position {position}"

def digit (n : Nat) : Char :=
  if n < 10 then Char.ofNat ('0'.toNat + n) else Char.ofNat ('a'.toNat + (n - 10))

def digitValue? (c : Char) : Option Nat :=
  if '0' ≤ c ∧ c ≤ '9' then some (c.toNat - '0'.toNat)
  else if 'a' ≤ c ∧ c ≤ 'f' then some (c.toNat - 'a'.toNat + 10)
  else if 'A' ≤ c ∧ c ≤ 'F' then some (c.toNat - 'A'.toNat + 10)
  else none

theorem digitValue?_digit {n : Nat} (h : n < 16) : digitValue? (digit n) = some n := by
  revert n
  decide

def encodeByte (byte : UInt8) : List Char :=
  [digit (byte.toNat / 16), digit (byte.toNat % 16)]

def encode (bytes : Bytes) : List Char := bytes.flatMap encodeByte

def text (bytes : Bytes) : String := String.ofList (encode bytes)

def utf8Length (digits : List Char) : Nat := (digits.map Char.utf8Size).sum

/-- The digit at a position; another character is reported by its leading byte. -/
def digitAt (position : Nat) (c : Char) : Except Error Nat :=
  match digitValue? c with
  | some value => .ok value
  | none => .error (.invalidCharacter ((String.utf8EncodeChar c).headD 0) position)

/-- Reads pairs of digits, where the bytes `done` (last first) came before `position`. -/
def decodeFrom (position : Nat) (done : Bytes) : List Char → Except Error Bytes
  | [] => .ok done.reverse
  | [c] => (digitAt position c).bind fun _ => .error .oddLength
  | high :: low :: rest =>
      match digitAt position high with
      | .error e => .error e
      | .ok h =>
          match digitAt (position + 1) low with
          | .error e => .error e
          | .ok l => decodeFrom (position + 2) (UInt8.ofNat (16 * h + l) :: done) rest

/-- Reads a byte string of any length; an odd length is reported before a bad digit. -/
def decode (digits : List Char) : Except Error Bytes :=
  if utf8Length digits % 2 = 1 then .error .oddLength else decodeFrom 0 [] digits

/-- Reads exactly 32 bytes; an odd length is reported first, then a wrong length,
then the first bad digit. -/
def decode32 (digits : List Char) : Except Error Bytes32 :=
  if utf8Length digits % 2 = 1 then .error .oddLength
  else if utf8Length digits ≠ 64 then .error .wrongLength
  else (decode digits).bind fun bytes =>
    match Bytes32.ofList? bytes with
    | some block => .ok block
    | none => .error .wrongLength

/-- The digits after at most one leading marker `0x`. -/
def dropMarker : List Char → List Char
  | '0' :: 'x' :: digits => digits
  | digits => digits

def parse32 (s : String) : Except Error Bytes32 := decode32 (dropMarker s.toList)

end MerkleProof.Hex
