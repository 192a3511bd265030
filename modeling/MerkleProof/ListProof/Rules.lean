import MerkleProof.ListProof.Shape

/-!
The rules for proof trees said by recursion on the tree.
-/

namespace MerkleProof.ListProof.Node

def elementDepths (depth : Nat) : Node → List Nat
  | .element _ => [depth]
  | .branch left right => left.elementDepths (depth + 1) ++ right.elementDepths (depth + 1)
  | .lone child => child.elementDepths (depth + 1)
  | .pruned _ => []
  | .absent _ => []

def prunedDepths (depth : Nat) : Node → List Nat
  | .element _ => []
  | .branch left right => left.prunedDepths (depth + 1) ++ right.prunedDepths (depth + 1)
  | .lone child => child.prunedDepths (depth + 1)
  | .pruned _ => [depth]
  | .absent _ => []

def isBranch : Node → Bool
  | .branch _ _ => true
  | .lone _ => true
  | _ => false

def hasPrunedBranch : Node → Bool
  | .branch left right =>
      left.isPruned && right.isPruned || left.hasPrunedBranch || right.hasPrunedBranch
  | .lone child => child.isPruned || child.hasPrunedBranch
  | _ => false

def hasNestedAbsence : Node → Bool
  | .branch left right =>
      left.isAbsent || right.isAbsent || left.hasNestedAbsence || right.hasNestedAbsence
  | .lone child => child.isAbsent || child.hasNestedAbsence
  | _ => false

/-- The first broken rule, each rule tried on the whole tree. -/
def firstBroken? (root : Node) (maxDepth : Nat) : Option Fault :=
  if (root.elementDepths 0).any (maxDepth < ·) then some .elementDepth
  else if (root.prunedDepths 0).any (maxDepth < ·) then some .prunedDepth
  else if (root.elementDepths 0).any fun d => (root.elementDepths 0).any (d < ·) then
    some .unevenElements
  else if root.isBranch && (root.elementDepths 0).isEmpty then some .noElements
  else if root.hasPrunedBranch then some .prunedBranch
  else if root.hasNestedAbsence then some .nestedAbsence
  else none

end MerkleProof.ListProof.Node
