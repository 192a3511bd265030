import MerkleProof.Proofs.TrieKey.Lexicographic

/-! Masking.  A masked slice keeps the leading bits and no others, so the masked slice
of a key holds what the key says and nothing else, and so do the bytes of it that
enter the compressed form. -/

namespace MerkleProof

/-- The bits of a byte string in order, each byte from its least significant bit on. -/
def bitsOf (bytes : Bytes) : List Bool := (List.range (8 * bytes.length)).map (bitOf bytes)

theorem getElem?_bitsOf {bytes : Bytes} {i : Nat} (inside : i < 8 * bytes.length) :
    (bitsOf bytes)[i]? = some (bitOf bytes i) := by
  simp [bitsOf, inside]

namespace Bytes32

variable {n m i : Nat}

theorem bit_mask_of_lt (slice : Bytes32) (kept : i < n) :
    (slice.mask n).bit i = slice.bit i := by
  rw [bit_mask, decide_eq_true kept, Bool.true_and]

theorem bit_mask_of_le (slice : Bytes32) (past : n ≤ i) :
    (slice.mask n).bit i = false := by
  rw [bit_mask, decide_eq_false (Nat.not_lt.mpr past), Bool.false_and]

theorem mask_mask (slice : Bytes32) (n m : Nat) :
    (slice.mask n).mask m = slice.mask (min n m) := by
  apply ext_bit
  intro i _
  rw [bit_mask, bit_mask, bit_mask, ← Bool.and_assoc, ← Bool.decide_and]
  congr 2
  apply propext
  omega

end Bytes32

namespace TrieKey

variable {a b : TrieKey}

theorem isCanonical_iff_inside {k : TrieKey} :
    k.isCanonical = true ↔ ∀ i, k.size ≤ i → i < 256 → k.bit i = false := by
  rw [isCanonical_iff]
  constructor
  · intro clear i past _
    exact clear i past
  · intro clear i past
    by_cases inside : i < 256
    · exact clear i past inside
    · exact bit_of_le k (Nat.not_lt.mp inside)

theorem masked_eq_iff (sizes : a.size = b.size) :
    a.masked = b.masked ↔ ∀ i, i < a.size → a.bit i = b.bit i := by
  constructor
  · intro same i inside
    rw [← bit_masked a inside, same, bit_masked b (sizes ▸ inside)]
  · intro bits
    exact masked_congr (eq_iff.mpr ⟨sizes, bits⟩)

/-- The bytes of the compressed form that follow the number of significant bits. -/
def stored (k : TrieKey) : Bytes := k.masked.toList.take ((k.size + 7) / 8)

theorem bitOf_stored (k : TrieKey) {i : Nat} (inside : i < 8 * ((k.size + 7) / 8)) :
    bitOf k.stored i = (decide (i < k.size) && k.bit i) := by
  rw [stored, bitOf_take _ inside, ← Bytes32.bit_eq, masked, Bytes32.bit_mask]
  rfl

theorem bitsOf_stored (k : TrieKey) :
    bitsOf k.stored =
      k.toBits ++ List.replicate (8 * ((k.size + 7) / 8) - k.size) false := by
  have length : k.stored.length = (k.size + 7) / 8 := length_stored k
  apply List.ext_getElem?
  intro i
  by_cases significant : i < k.size
  · have inside : i < 8 * ((k.size + 7) / 8) := by omega
    rw [getElem?_bitsOf (length ▸ inside), bitOf_stored k inside,
      decide_eq_true significant, Bool.true_and,
      List.getElem?_append_left (by rwa [length_toBits]), getElem?_toBits k significant]
  · rw [List.getElem?_append_right (by rw [length_toBits]; omega), length_toBits,
      List.getElem?_replicate]
    split
    · have inside : i < 8 * ((k.size + 7) / 8) := by omega
      rw [getElem?_bitsOf (length ▸ inside), bitOf_stored k inside,
        decide_eq_false significant, Bool.false_and]
    · rw [List.getElem?_eq_none]
      simp only [bitsOf, List.length_map, List.length_range, length]
      omega

/-- A masked slice has the leading bits of the slice and no others.  So masking twice
keeps what both masks keep, a key is canonical if no bit is set past its significant
ones, its compressed form ends with the significant bits and zeros that fill the last
byte, and keys of one size have the same masked slice if and only if they have the
same significant bits. -/
theorem mask_keeps_leading_bits :
    (∀ (slice : Bytes32) (n : Nat), (∀ i, i < n → (slice.mask n).bit i = slice.bit i) ∧
      (∀ i, n ≤ i → (slice.mask n).bit i = false) ∧
      ∀ m, (slice.mask n).mask m = slice.mask (min n m)) ∧
    (∀ k : TrieKey,
      (k.isCanonical = true ↔ ∀ i, k.size ≤ i → i < 256 → k.bit i = false) ∧
      ∃ bytes filled, k.compressed = Varint.encode (UInt64.ofNat k.size) ++ bytes ∧
        filled < 8 ∧ bitsOf bytes = k.toBits ++ List.replicate filled false) ∧
    ∀ a b : TrieKey, a.size = b.size →
      (a.masked = b.masked ↔ ∀ i, i < a.size → a.bit i = b.bit i) := by
  refine ⟨?_, ?_, fun a b => masked_eq_iff⟩
  · intro slice n
    exact ⟨fun i => slice.bit_mask_of_lt, fun i => slice.bit_mask_of_le, slice.mask_mask n⟩
  · intro k
    exact ⟨isCanonical_iff_inside, k.stored, _, rfl, by omega, bitsOf_stored k⟩

theorem mask_keeps_leading_bits_untidy :
    (untidy.slice.mask 2).bit 1 = untidy.slice.bit 1 ∧
      (untidy.slice.mask 2).bit 2 = false ∧ untidy.size = (ofBits [false, true]).size ∧
      (untidy.masked = (ofBits [false, true]).masked ↔
        ∀ i, i < untidy.size → untidy.bit i = (ofBits [false, true]).bit i) := by
  obtain ⟨masks, -, slices⟩ := mask_keeps_leading_bits
  obtain ⟨kept, cleared, -⟩ := masks untidy.slice 2
  have sizes : untidy.size = (ofBits [false, true]).size := by decide
  exact ⟨kept 1 (by decide), cleared 2 (by decide), sizes, slices _ _ sizes⟩

end TrieKey

end MerkleProof
