import MerkleProof.Proofs.MapProof.Hashed
import MerkleProof.Proofs.TrieKey.Lexicographic

/-! What is hashed for a map can be read in one way only.  A key in compressed form
ends where its length says, so what is hashed for a branch or for a single entry tells
all its parts, and the two forms differ in length unless both children of the branch
are at the empty key. -/

namespace MerkleProof

namespace TrieKey

variable {a b : TrieKey}

theorem compressed_append_eq_iff {s t : Bytes} :
    a.compressed ++ s = b.compressed ++ t ↔ (a == b) = true ∧ s = t := by
  constructor
  · intro same
    obtain ⟨keys, rest⟩ := compressed_append_inj same
    exact ⟨beq_iff.mpr keys, rest⟩
  · intro ⟨keys, rest⟩
    rw [compressed_congr (beq_iff.mp keys), rest]

theorem beq_of_sizes (left : a.size = 0) (right : b.size = 0) : (a == b) = true := by
  apply beq_iff.mpr
  apply eq_iff.mpr
  refine ⟨left.trans right.symm, ?_⟩
  intro i inside
  omega

end TrieKey

namespace MapProof

open TrieKey

namespace Subtree

variable {left right left' right' s t : Subtree}

theorem alike_iff : s.Alike t ↔ s.digest = t.digest ∧ (s.key == t.key) = true := by
  constructor
  · intro alike
    exact ⟨alike.digest, beq_iff.mpr alike.key⟩
  · intro ⟨digest, key⟩
    exact ⟨digest, beq_iff.mp key⟩

theorem branchPreimage_eq_iff :
    (branchPreimage left right).bytes = (branchPreimage left' right').bytes ↔
      left.Alike left' ∧ right.Alike right' := by
  constructor
  · exact branchPreimage_inj
  · intro ⟨on_left, on_right⟩
    rw [bytes_branchPreimage, bytes_branchPreimage, on_left.digest, on_right.digest,
      compressed_congr on_left.key, compressed_congr on_right.key]

theorem singlePreimage_eq_iff :
    (singlePreimage s).bytes = (singlePreimage t).bytes ↔ s.Alike t := by
  constructor
  · exact singlePreimage_inj
  · intro alike
    rw [bytes_singlePreimage, bytes_singlePreimage, alike.digest,
      compressed_congr alike.key]

theorem singlePreimage_ne_branchPreimage (apart : (left.key == right.key) = false) :
    (singlePreimage s).bytes ≠ (branchPreimage left right).bytes := by
  intro same
  obtain ⟨left_empty, right_empty⟩ := sizes_of_single_eq_branch same
  rw [beq_of_sizes left_empty right_empty] at apart
  contradiction

end Subtree

open Subtree

/-- A key in compressed form can be told from whatever follows it.  What is hashed for a
branch, or for a map of a single entry, is the same only for the same digests and keys, and
it is never the same for both unless the children of the branch are at one key. -/
theorem preimages_unambiguous :
    (∀ (a b : TrieKey) (s t : Bytes),
      a.compressed ++ s = b.compressed ++ t ↔ (a == b) = true ∧ s = t) ∧
    (∀ left right left' right' : Subtree,
      (branchPreimage left right).bytes = (branchPreimage left' right').bytes ↔
        (left.digest = left'.digest ∧ (left.key == left'.key) = true) ∧
          right.digest = right'.digest ∧ (right.key == right'.key) = true) ∧
    (∀ s t : Subtree, (singlePreimage s).bytes = (singlePreimage t).bytes ↔
      s.digest = t.digest ∧ (s.key == t.key) = true) ∧
    ∀ s left right : Subtree, (left.key == right.key) = false →
      (singlePreimage s).bytes ≠ (branchPreimage left right).bytes := by
  refine ⟨fun _ _ _ _ => compressed_append_eq_iff, ?_, ?_, ?_⟩
  · intro left right left' right'
    rw [branchPreimage_eq_iff, alike_iff, alike_iff]
  · intro s t
    rw [singlePreimage_eq_iff, alike_iff]
  · intro s left right apart
    exact singlePreimage_ne_branchPreimage apart

theorem preimages_unambiguous_untidy :
    TrieKey.untidy.compressed ++ [7] = (ofBits [false, true]).compressed ++ [7] ∧
      (ofBits [] == ofBits [false]) = false ∧
      (singlePreimage ⟨.leaf Bytes32.zero, Digest.empty⟩).bytes ≠
        (branchPreimage ⟨ofBits [], Digest.empty⟩
          ⟨ofBits [false], Digest.empty⟩).bytes := by
  obtain ⟨delimited, -, -, distinct⟩ := preimages_unambiguous
  have apart : (ofBits [] == ofBits [false]) = false := by decide +kernel
  exact ⟨(delimited _ _ _ _).mpr ⟨by decide +kernel, rfl⟩, apart, distinct _ _ _ apart⟩

end MapProof

end MerkleProof
