import MerkleProof.Arithmetic

/-!
The shortest decimal that reads back as a given double. A double is a whole number times a
power of two, and it stands for the interval of numbers that round to it. Among the
decimals of the fewest digits in that interval the nearest is taken, and the even one of
two that are equally near.
-/

namespace MerkleProof.Decimal

/-- The number `digits * 10 ^ exponent`. -/
structure Scientific where
  digits : Nat
  exponent : Int

/-- The positive double `mantissa * 2 ^ exponent`. -/
structure Binary where
  mantissa : Nat
  exponent : Int
  /-- Whether the next smaller double is only half as far away as the next greater one. -/
  closerBelow : Bool

structure Ratio where
  num : Nat
  den : Nat

def Ratio.scaled (n base : Nat) (e : Int) : Ratio :=
  if 0 ≤ e then ⟨n * base ^ e.toNat, 1⟩ else ⟨n, base ^ (-e).toNat⟩

def Ratio.le (a b : Ratio) : Bool := a.num * b.den ≤ b.num * a.den

def Ratio.lt (a b : Ratio) : Bool := a.num * b.den < b.num * a.den

namespace Binary

def value (x : Binary) : Ratio := .scaled (4 * x.mantissa) 2 (x.exponent - 2)

def lowerEnd (x : Binary) : Ratio :=
  .scaled (4 * x.mantissa - if x.closerBelow then 1 else 2) 2 (x.exponent - 2)

def upperEnd (x : Binary) : Ratio := .scaled (4 * x.mantissa + 2) 2 (x.exponent - 2)

/-- Whether a number rounds to this double; the ends of the interval do if
the mantissa is even. -/
def covers (x : Binary) (r : Ratio) : Bool :=
  if x.mantissa % 2 = 0 then x.lowerEnd.le r && r.le x.upperEnd
  else x.lowerEnd.lt r && r.lt x.upperEnd

/-- The number of digits before the decimal point; if it is not positive, then so many
zeros less stand between the point and the first digit. -/
def magnitude (x : Binary) : Int :=
  let v := x.value
  if v.den ≤ v.num then (Nat.toDigits 10 (v.num / v.den)).length
  else 1 - ((List.range 400).findIdx fun j => v.den ≤ v.num * 10 ^ j)

/-- The decimal at the given exponent that is nearest among the two next to the double and
rounds to it, if one of them does. -/
def nearest? (x : Binary) (exponent : Int) : Option Scientific :=
  let v := x.value
  let unit := Ratio.scaled 1 10 exponent
  let below := v.num * unit.den / (v.den * unit.num)
  let remainder := v.num * unit.den % (v.den * unit.num)
  let down := x.covers (.scaled below 10 exponent)
  let up := x.covers (.scaled (below + 1) 10 exponent)
  let half := compare (2 * remainder) (v.den * unit.num)
  if down && (!up || half == .lt || half == .eq && below % 2 == 0) then
    some ⟨below, exponent⟩
  else if up then some ⟨below + 1, exponent⟩
  else none

/-- Seventeen digits always suffice. -/
def shortest (x : Binary) : Scientific :=
  ((List.range 17).findSome? fun (n : Nat) =>
    x.nearest? (x.magnitude - (n + 1))).getD ⟨0, 0⟩

end Binary

/-- A finite double other than zero, without its sign. -/
def Binary.ofFloat (x : Float) : Binary :=
  let bits := x.toBits.toNat
  let fraction : Nat := bits % 2 ^ 52
  let scale : Nat := bits / 2 ^ 52 % 2 ^ 11
  if scale = 0 then ⟨fraction, -1074, false⟩
  else ⟨2 ^ 52 + fraction, Int.ofNat scale - 1075, fraction == 0 && 1 < scale⟩

end MerkleProof.Decimal
