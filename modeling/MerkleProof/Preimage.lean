import MerkleProof.Digest.Sha256

/-!
Preimages: what is hashed, given as the chunks that are fed to the hash function one after
another. Only their concatenation matters.
-/

namespace MerkleProof

structure Preimage where
  chunks : List Bytes

namespace Preimage

def bytes (p : Preimage) : Bytes := p.chunks.flatten

def digest (p : Preimage) : Digest := sha256 p.bytes

end Preimage

end MerkleProof
