import MerkleProof.Text.Outline

/-!
What a check is told to insist on.
-/

namespace MerkleProof

structure Config where
  maxNodeDepth : UInt8
  /-- Whether map proofs with set bits past the significant ones of a key are rejected. -/
  strictKeys : Bool
deriving DecidableEq

namespace Config

/-- The greatest depth that is ever allowed: a list holds at most `2 ^ 63` elements. -/
def depthLimit : UInt8 := 63

def default : Config where
  maxNodeDepth := depthLimit
  strictKeys := false

instance : Inhabited Config := ⟨default⟩

/-- The depth that applies; a greater one than the limit counts as the limit. -/
def effectiveDepth (c : Config) : Nat := min c.maxNodeDepth.toNat depthLimit.toNat

def outline (c : Config) : Text.Outline :=
  .record "ProofConfig" [
    ("max_node_depth", .atom (toString c.maxNodeDepth.toNat)),
    ("strict_keys", .atom (if c.strictKeys then "true" else "false"))]

end Config

end MerkleProof
