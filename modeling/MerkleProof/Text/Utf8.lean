import MerkleProof.Bytes

/-!
Bytes read as UTF-8. What is read is a list of symbols: a character, or `none` for a byte
that is not part of one.
-/

namespace MerkleProof.Text

abbrev Symbol := Option Char

def isContinuation (b : UInt8) : Bool := 0x80 ≤ b && b < 0xc0

/-- The character of a code point that is not below `least`. -/
def charFrom (least code : Nat) : Option Char :=
  if least ≤ code ∧ code.isValidChar then some (Char.ofNat code) else none

def payload (b : UInt8) : Nat := b.toNat % 64

/-- The character at the front and the number of bytes it takes after the first. -/
def frontChar (first : UInt8) (rest : Bytes) : Option (Char × Nat) :=
  if first < 0x80 then some (Char.ofNat first.toNat, 0)
  else if first < 0xc0 then none
  else if first < 0xe0 then
    match rest with
    | b1 :: _ =>
        if isContinuation b1 then
          (charFrom 0x80 (first.toNat % 32 * 64 + payload b1)).map (·, 1)
        else none
    | _ => none
  else if first < 0xf0 then
    match rest with
    | b1 :: b2 :: _ =>
        if isContinuation b1 && isContinuation b2 then
          (charFrom 0x800
            (first.toNat % 16 * 4096 + payload b1 * 64 + payload b2)).map (·, 2)
        else none
    | _ => none
  else if first < 0xf8 then
    match rest with
    | b1 :: b2 :: b3 :: _ =>
        if isContinuation b1 && isContinuation b2 && isContinuation b3 then
          (charFrom 0x10000
            (first.toNat % 8 * 262144 + payload b1 * 4096 + payload b2 * 64 +
              payload b3)).map (·, 3)
        else none
    | _ => none
  else none

/-- The symbols of the bytes after `skipped` more, behind those already
read (last first). -/
def symbolsFrom (done : List Symbol) : (skipped : Nat) → Bytes → List Symbol
  | _, [] => done.reverse
  | n + 1, _ :: rest => symbolsFrom done n rest
  | 0, b :: rest =>
      match frontChar b rest with
      | some (c, n) => symbolsFrom (some c :: done) n rest
      | none => symbolsFrom (none :: done) 0 rest

def symbols (bytes : Bytes) : List Symbol := symbolsFrom [] 0 bytes

end MerkleProof.Text
