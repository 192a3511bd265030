import MerkleProof.Hex

/-!
Questions that a checked proof cannot answer. A malformed proof shows in the outcome of its
check; these errors arise when something is asked of it afterwards.
-/

namespace MerkleProof

inductive AccessError
  | invalidProof (status : String)
  | keyNotRequested (key : Bytes32)
deriving DecidableEq

def AccessError.message : AccessError → String
  | .invalidProof status => s!"proof is not valid: {status}"
  | .keyNotRequested key => s!"key {Hex.text key.toList} was not among the requested keys"

end MerkleProof
