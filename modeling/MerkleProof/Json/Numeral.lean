import MerkleProof.Decimal.Digits
import MerkleProof.Decimal.Shortest

/-!
Number literals as they stand in a document, and the number each stands for. A
literal without fraction and exponent is an integer if it fits 64 bits, and every
other literal is a double.
-/

namespace MerkleProof.Json

structure Numeral where
  negative : Bool
  whole : List Char
  fraction : List Char
  /-- Whether the exponent is negative, and its digits. -/
  exponent : Option (Bool × List Char)
deriving DecidableEq

namespace Numeral

def readFraction : List Char → Option (List Char × List Char)
  | '.' :: rest =>
      match rest.span Char.isDigit with
      | ([], _) => none
      | parts => some parts
  | rest => some ([], rest)

def readExponent (negative : Bool) (digits : List Char) :
    Option (Option (Bool × List Char)) :=
  if digits.isEmpty || !digits.all Char.isDigit then none
  else some (some (negative, digits))

def readEnd : List Char → Option (Option (Bool × List Char))
  | [] => some none
  | c :: rest =>
      if c == 'e' || c == 'E' then
        match rest with
        | '+' :: digits => readExponent false digits
        | '-' :: digits => readExponent true digits
        | digits => readExponent false digits
      else none

def readUnsigned (negative : Bool) (chars : List Char) : Option Numeral :=
  match chars.span Char.isDigit with
  | ([], _) => none
  | ('0' :: _ :: _, _) => none
  | (whole, rest) => do
      let (fraction, rest) ← readFraction rest
      let exponent ← readEnd rest
      return { negative, whole, fraction, exponent }

/-- The literal that these characters form, if they form one: no needless leading zero, and
at least one digit in each part that is there. -/
def ofChars? : List Char → Option Numeral
  | '-' :: rest => readUnsigned true rest
  | chars => readUnsigned false chars

def chars (n : Numeral) : List Char :=
  (if n.negative then ['-'] else []) ++ n.whole
    ++ (if n.fraction.isEmpty then [] else '.' :: n.fraction)
    ++ match n.exponent with
      | none => []
      | some (negative, digits) => 'e' :: (if negative then '-' :: digits else digits)

/-- The integer of a literal without fraction and exponent, if it fits 64 bits.
Minus zero is no integer. -/
def integer? (n : Numeral) : Option Int :=
  if n.fraction.isEmpty && n.exponent.isNone then
    let magnitude := Decimal.natOf n.whole
    if n.negative then
      if 0 < magnitude && magnitude ≤ 2 ^ 63 then some (-(magnitude : Int)) else none
    else if magnitude < 2 ^ 64 then some magnitude else none
  else none

/-- Digits read into a 64-bit word as long as they fit, and the power of
ten that scales it. -/
structure Significand where
  word : Nat
  exponent : Int
  full : Bool

/-- From the first digit that does not fit on, a whole digit counts as one power of ten. -/
def Significand.addWhole (s : Significand) (c : Char) : Significand :=
  let word := 10 * s.word + Decimal.digitValue c
  if s.full || 2 ^ 64 ≤ word then { s with exponent := s.exponent + 1, full := true }
  else { s with word }

/-- From the first digit that does not fit on, fractional digits are dropped. -/
def Significand.addFractional (s : Significand) (c : Char) : Significand :=
  let word := 10 * s.word + Decimal.digitValue c
  if s.full || 2 ^ 64 ≤ word then { s with full := true }
  else { s with word, exponent := s.exponent - 1 }

def significand (n : Numeral) : Significand :=
  let whole := n.whole.foldl Significand.addWhole ⟨0, 0, false⟩
  let s := n.fraction.foldl Significand.addFractional { whole with full := false }
  match n.exponent with
  | none => s
  | some (true, digits) => { s with exponent := s.exponent - Decimal.natOf digits }
  | some (false, digits) => { s with exponent := s.exponent + Decimal.natOf digits }

def powerOfTen (n : Nat) : Float := Float.ofScientific 1 false n

/-- The word times a power of ten, rounded after each of at most two steps; a word divided
by `10 ^ 616` or more is zero. -/
def Significand.magnitude (s : Significand) : Float :=
  let x := (UInt64.ofNat s.word).toFloat
  if s.word = 0 then x
  else if 0 ≤ s.exponent then
    if s.exponent ≤ 308 then x * powerOfTen s.exponent.toNat else powerOfTen 400
  else if -308 ≤ s.exponent then x / powerOfTen (-s.exponent).toNat
  else if -616 ≤ s.exponent then x / powerOfTen 308 / powerOfTen (-s.exponent - 308).toNat
  else 0

def signed (exponent : Int) : List Char :=
  if exponent < 0 then (toString exponent).toList else '+' :: (toString exponent).toList

/-- The places of a decimal: with a point if it falls among the first sixteen digits or at
most four zeros before them, and with a power of ten otherwise. -/
def decimalText (d : Decimal.Scientific) : List Char :=
  let written := (Nat.toDigits 10 d.digits).reverse
  let zeros := (written.takeWhile (· == '0')).length
  let digits := (written.drop zeros).reverse
  let exponent := d.exponent + zeros
  let point := digits.length + exponent
  if 0 ≤ exponent ∧ point ≤ 16 then
    digits ++ List.replicate exponent.toNat '0' ++ ['.', '0']
  else if 0 < point ∧ point ≤ 16 then
    digits.take point.toNat ++ '.' :: digits.drop point.toNat
  else if -5 < point ∧ point ≤ 0 then
    ['0', '.'] ++ List.replicate (-point).toNat '0' ++ digits
  else
    let fraction := if digits.length = 1 then [] else '.' :: digits.drop 1
    digits.take 1 ++ fraction ++ 'e' :: signed (point - 1)

def realText (n : Numeral) : String :=
  let x := n.significand.magnitude
  let sign := if n.negative then ['-'] else []
  let places :=
    if x == 0 then ['0', '.', '0'] else decimalText (Decimal.Binary.ofFloat x).shortest
  String.ofList (sign ++ places)

end Numeral

end MerkleProof.Json
