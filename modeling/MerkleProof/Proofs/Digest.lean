import MerkleProof.Digest.Sha256

/-! What is asked of the hash function on the strings that two parties hash. -/

namespace MerkleProof.Digest

/-- No two different strings have the same digest. -/
def CollisionFree (strings : List Bytes) : Prop :=
  ∀ s ∈ strings, ∀ t ∈ strings, sha256 s = sha256 t → s = t

/-- No string has the digest of an empty map. -/
def Nonzero (strings : List Bytes) : Prop := ∀ s ∈ strings, sha256 s ≠ Digest.empty

instance (strings : List Bytes) : Decidable (CollisionFree strings) :=
  inferInstanceAs (Decidable (∀ s ∈ strings, ∀ t ∈ strings, sha256 s = sha256 t → s = t))

instance (strings : List Bytes) : Decidable (Nonzero strings) :=
  inferInstanceAs (Decidable (∀ s ∈ strings, sha256 s ≠ Digest.empty))

theorem not_collisionFree_iff {strings : List Bytes} :
    ¬CollisionFree strings ↔
      ∃ s ∈ strings, ∃ t ∈ strings, s ≠ t ∧ sha256 s = sha256 t := by
  simp [CollisionFree, and_comm]

end MerkleProof.Digest
