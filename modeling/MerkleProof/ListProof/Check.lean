import MerkleProof.Access
import MerkleProof.Config
import MerkleProof.ListProof.Shape
import MerkleProof.Preimage
import MerkleProof.SortedMap

/-!
Checking a list proof. A tree that keeps the rules has a root digest, and it reveals
elements at the indices that their paths spell.
-/

namespace MerkleProof.ListProof

/-- What is hashed for a branch: the digests of its children from left to right. -/
def branchPreimage (children : List Digest) : Preimage := ⟨children.map Bytes32.toList⟩

namespace Node

def rootHash : Node → Digest
  | .element value => sha256 value
  | .branch left right => (branchPreimage [left.rootHash, right.rootHash]).digest
  | .lone child => (branchPreimage [child.rootHash]).digest
  | .pruned digest => digest
  | .absent root => root

/-- The elements of a subtree from left to right. The position of a node is its index among
the nodes of its depth: the children of `p` are at `2 * p` and `2 * p + 1`. -/
def elementsAt (position : UInt64) : Node → List (UInt64 × Bytes)
  | .element value => [(position, value)]
  | .branch left right =>
      left.elementsAt (position <<< 1) ++ right.elementsAt ((position <<< 1) ||| 1)
  | .lone child => child.elementsAt (position <<< 1)
  | .pruned _ => []
  | .absent _ => []

end Node

structure Contents where
  rootHash : Digest
  elements : SortedMap UInt64 Bytes
deriving DecidableEq

abbrev Checked := Except Fault Contents

def check (root : Node) (config : Config) : Checked :=
  match root.fault? config.effectiveDepth with
  | some fault => .error fault
  | none => .ok ⟨root.rootHash, .ofList (root.elementsAt 0)⟩

namespace Checked

def status : Checked → String
  | .ok _ => "VALID"
  | .error fault => fault.name

def isValid : Checked → Bool
  | .ok _ => true
  | .error _ => false

def contents (checked : Checked) : Except AccessError Contents :=
  checked.mapError fun fault => .invalidProof fault.name

def rootHash (checked : Checked) : Except AccessError Digest :=
  checked.contents.map Contents.rootHash

def elements (checked : Checked) : Except AccessError (SortedMap UInt64 Bytes) :=
  checked.contents.map Contents.elements

def hasRoot (checked : Checked) (root : Digest) : Except AccessError Bool :=
  checked.rootHash.map (· == root)

end Checked

end MerkleProof.ListProof
