import MerkleProof.ListProof.Node

/-!
The shape of a proof tree and the rules it must keep. All that the rules look at is
gathered in one walk with a list of the nodes still to be visited, so that trees of
any depth can be judged.
-/

namespace MerkleProof.ListProof

/-- The rules, in the order in which they are tried. -/
inductive Fault
  | elementDepth
  | prunedDepth
  | unevenElements
  /-- There are branches but no elements. -/
  | noElements
  /-- A branch has pruned children only. -/
  | prunedBranch
  | nestedAbsence
deriving DecidableEq

def Fault.name : Fault → String
  | .elementDepth => "INVALID_ELEMENT_NODE_DEPTH"
  | .prunedDepth => "INVALID_HASH_NODE_DEPTH"
  | .unevenElements => "INVALID_NODE_DEPTH"
  | .noElements => "INVALID_TREE_NO_ELEMENTS"
  | .prunedBranch => "INVALID_HASH_NODES_COUNT"
  | .nestedAbsence => "INVALID_PROOF_OF_ABSENCE"

structure Shape where
  /-- The depths of the shallowest and of the deepest element. -/
  elementDepths : Option (Nat × Nat)
  prunedDepth : Option Nat
  branches : Nat
  prunedBranch : Bool
  nestedAbsence : Bool

namespace Shape

def empty : Shape := ⟨none, none, 0, false, false⟩

def addElement (s : Shape) (depth : Nat) : Shape :=
  { s with
    elementDepths :=
      match s.elementDepths with
      | some (least, greatest) => some (min least depth, max greatest depth)
      | none => some (depth, depth) }

def addPruned (s : Shape) (depth : Nat) : Shape :=
  { s with prunedDepth := some (max (s.prunedDepth.getD 0) depth) }

def addBranch (s : Shape) (children : List Node) : Shape :=
  { s with
    branches := s.branches + 1
    prunedBranch := s.prunedBranch || children.all Node.isPruned
    nestedAbsence := s.nestedAbsence || children.any Node.isAbsent }

def gather (s : Shape) (pending : List (Node × Nat)) : Shape :=
  match pending with
  | [] => s
  | (.element _, depth) :: rest => gather (s.addElement depth) rest
  | (.pruned _, depth) :: rest => gather (s.addPruned depth) rest
  | (.absent _, _) :: rest => gather s rest
  | (.lone child, depth) :: rest =>
      gather (s.addBranch [child]) ((child, depth + 1) :: rest)
  | (.branch left right, depth) :: rest =>
      gather (s.addBranch [left, right]) ((left, depth + 1) :: (right, depth + 1) :: rest)
termination_by (pending.map fun p => p.1.size).sum
decreasing_by all_goals simp only [List.map_cons, List.sum_cons, Node.size]; omega

def of (root : Node) : Shape := empty.gather [(root, 0)]

def fault? (s : Shape) (maxDepth : Nat) : Option Fault :=
  if s.elementDepths.any fun d => maxDepth < d.2 then some .elementDepth
  else if s.prunedDepth.any fun d => maxDepth < d then some .prunedDepth
  else if s.elementDepths.any fun d => d.1 != d.2 then some .unevenElements
  else if 0 < s.branches && s.elementDepths.isNone then some .noElements
  else if s.prunedBranch then some .prunedBranch
  else if s.nestedAbsence then some .nestedAbsence
  else none

end Shape

def Node.fault? (root : Node) (maxDepth : Nat) : Option Fault :=
  (Shape.of root).fault? maxDepth

end MerkleProof.ListProof
