/-!
Natural numbers in decimal digits, most significant first.
-/

namespace MerkleProof.Decimal

def digitValue (c : Char) : Nat := c.toNat - '0'.toNat

def natOf (digits : List Char) : Nat := digits.foldl (fun n c => 10 * n + digitValue c) 0

/-- The number that a text writes, if it consists of digits only and has at least one. -/
def natOf? (digits : List Char) : Option Nat :=
  if digits.isEmpty || !digits.all Char.isDigit then none else some (natOf digits)

end MerkleProof.Decimal
