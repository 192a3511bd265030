import MerkleProof.ListProof.Check

/-!
Authenticated lists: the Merkle tree over all values of a list, its root, and the
proofs cut from it. The tree of height `h` stands for up to `2 ^ h` values; a half
without values is left out.
-/

namespace MerkleProof.AuthenticatedList

/-- The least height of a tree that holds `n` values. -/
def height (n : Nat) : Nat := if n ≤ 1 then 0 else Nat.log2 (n - 1) + 1

def hashAt : (height : Nat) → (values : List Bytes) → Option Digest
  | 0, values => values.head?.map sha256
  | h + 1, values =>
      match hashAt h (values.take (2 ^ h)) with
      | none => none
      | some left =>
          match hashAt h (values.drop (2 ^ h)) with
          | none => some (sha256 left.toList)
          | some right => some (sha256 (left.toList ++ right.toList))

def root? (values : List Bytes) : Option Digest := hashAt (height values.length) values

/-- The tree over the given values, of which the first has index `start`. Only the values
at `wanted` indices are revealed, and what holds none of them is pruned. -/
def cutAt (wanted : List Nat) : (start height : Nat) → (values : List Bytes) →
    Option ListProof.Node
  | start, h, values =>
      if wanted.any fun i => start ≤ i && i < start + 2 ^ h then
        match h with
        | 0 => values.head?.map .element
        | h + 1 =>
            match cutAt wanted start h (values.take (2 ^ h)) with
            | none => none
            | some left =>
                match cutAt wanted (start + 2 ^ h) h (values.drop (2 ^ h)) with
                | none => some (.lone left)
                | some right => some (.branch left right)
      else (hashAt h values).map .pruned

def proof? (values : List Bytes) (wanted : List Nat) : Option ListProof.Node :=
  cutAt wanted 0 (height values.length) values

end MerkleProof.AuthenticatedList
