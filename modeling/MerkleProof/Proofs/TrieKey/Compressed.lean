import MerkleProof.Proofs.TrieKey.Order
import MerkleProof.Proofs.Varint
import MerkleProof.TrieKey.Forms

/-! A key in compressed form can be told from what follows it. -/

namespace MerkleProof

theorem bitOf_take (bytes : Bytes) {n i : Nat} (inside : i < 8 * n) :
    bitOf (bytes.take n) i = bitOf bytes i := by
  have byte : i / 8 < n := by omega
  rw [bitOf, bitOf, List.getD_eq_getElem?_getD, List.getD_eq_getElem?_getD,
    List.getElem?_take_of_lt byte]

namespace TrieKey

variable {a b : TrieKey}

theorem toNat_size (k : TrieKey) : (UInt64.ofNat k.size).toNat = k.size := by
  have bound := k.size_le
  exact Nat.mod_eq_of_lt (by omega)

theorem length_stored (k : TrieKey) :
    (k.masked.toList.take ((k.size + 7) / 8)).length = (k.size + 7) / 8 := by
  have bound := k.size_le
  rw [List.length_take, Bytes32.length_toList]
  omega

theorem bit_masked (k : TrieKey) {i : Nat} (inside : i < k.size) :
    k.masked.bit i = k.bit i := by
  rw [masked, Bytes32.bit_mask, decide_eq_true inside, Bool.true_and]
  rfl

theorem masked_congr (same : compare a b = .eq) : a.masked = b.masked := by
  obtain ⟨sizes, bits⟩ := eq_iff.mp same
  rw [masked, masked, ← sizes]
  exact Bytes32.mask_congr bits

theorem bit_stored (k : TrieKey) {i : Nat} (inside : i < k.size) :
    bitOf (k.masked.toList.take ((k.size + 7) / 8)) i = k.bit i := by
  rw [bitOf_take _ (by omega), ← Bytes32.bit_eq, bit_masked k inside]

theorem compressed_append_inj {s t : Bytes}
    (same : a.compressed ++ s = b.compressed ++ t) : compare a b = .eq ∧ s = t := by
  unfold compressed at same
  rw [List.append_assoc, List.append_assoc] at same
  obtain ⟨sizes, stored⟩ := Varint.encode_append_inj same
  rw [toNat_size, toNat_size] at sizes
  obtain ⟨bytes, rest⟩ :=
    List.append_inj stored (by rw [length_stored, length_stored, sizes])
  refine ⟨eq_iff.mpr ⟨sizes, ?_⟩, rest⟩
  intro i inside
  rw [← bit_stored a inside, ← bit_stored b (sizes ▸ inside), bytes]

theorem compressed_inj (same : a.compressed = b.compressed) : compare a b = .eq := by
  have appended : a.compressed ++ [] = b.compressed ++ [] := by rw [same]
  exact (compressed_append_inj appended).1

theorem compressed_congr (same : compare a b = .eq) : a.compressed = b.compressed := by
  rw [compressed, compressed, (eq_iff.mp same).1, masked_congr same]

theorem length_compressed_pos (k : TrieKey) : 0 < k.compressed.length := by
  have encoded := Varint.length_encode_pos (UInt64.ofNat k.size)
  rw [compressed, List.length_append]
  omega

theorem length_compressed_le (k : TrieKey) : k.compressed.length ≤ 34 := by
  have bound := k.size_le
  have encoded : (Varint.encode (UInt64.ofNat k.size)).length ≤ 2 := by
    apply Varint.length_encode_le
    rw [toNat_size]
    exact bound
  rw [compressed, List.length_append, length_stored]
  omega

theorem size_eq_zero_of_length_compressed {k : TrieKey} (short : k.compressed.length ≤ 1) :
    k.size = 0 := by
  have encoded := Varint.length_encode_pos (UInt64.ofNat k.size)
  rw [compressed, List.length_append, length_stored] at short
  omega

theorem compressed_leaf (k : Bytes32) : (leaf k).compressed = [128, 2] ++ k.toList := by
  have encoded : Varint.encode (UInt64.ofNat 256) = [128, 2] := by decide +kernel
  have whole : (leaf k).masked = k := by
    apply Bytes32.ext_bit
    intro i inside
    rw [masked, Bytes32.bit_mask, size_leaf, decide_eq_true inside, Bool.true_and,
      slice_leaf]
  rw [compressed, size_leaf, encoded, whole, List.take_of_length_le (by simp)]

theorem compressed_of_size_eq_zero {k : TrieKey} (empty : k.size = 0) :
    k.compressed = [0] := by
  have encoded : Varint.encode (UInt64.ofNat 0) = [0] := by decide +kernel
  rw [compressed, empty, encoded]
  rfl

end TrieKey

end MerkleProof
