import Mathlib.Data.List.TFAE
import MerkleProof.Proofs.TrieKey.BitString
import MerkleProof.Proofs.TrieKey.Compressed

/-! The order of keys is the dictionary order of their bit strings, and keys are the same
if they are in any of their written forms. -/

namespace MerkleProof.TrieKey

variable {a b : TrieKey}

theorem digit_injective : Function.Injective digit := by
  intro p q
  revert p q
  decide

theorem digit_lt_iff {p q : Bool} : digit p < digit q ↔ compare p q = .lt := by
  revert p q
  decide

theorem lt_map_digit_iff {x y : List Bool} :
    x.map digit < y.map digit ↔ compare x y = .lt := by
  induction x generalizing y with
  | nil => cases y <;> simp
  | cons p x ih =>
      cases y with
      | nil => simp
      | cons q y =>
          rw [List.map_cons, List.map_cons, List.cons_lt_cons_iff, ih, digit_lt_iff,
            List.compare_cons_cons, Ordering.then_eq_lt, digit_injective.eq_iff,
            Std.LawfulEqOrd.compare_eq_iff_eq]

theorem toBits_eq_iff : a.toBits = b.toBits ↔ compare a b = .eq := by
  rw [← compare_toBits, Std.LawfulEqOrd.compare_eq_iff_eq]

theorem bitString_eq_iff : a.bitString = b.bitString ↔ compare a b = .eq := by
  rw [← toBits_eq_iff, ← String.toList_inj, toList_bitString_eq, toList_bitString_eq,
    List.map_inj_right digit_injective]

/-- Keys compare as their bit strings do in a dictionary. -/
theorem compare_bitString (a b : TrieKey) :
    compare a.bitString b.bitString = compare a b := by
  have less : a.bitString < b.bitString ↔ compare a b = .lt := by
    rw [String.lt_iff, toList_bitString_eq, toList_bitString_eq, lt_map_digit_iff,
      compare_toBits]
  change compareOfLessAndEq a.bitString b.bitString = _
  unfold compareOfLessAndEq
  simp only [less, bitString_eq_iff]
  cases compare a b <;> rfl

/-! Written forms that are the same for the same keys only. -/

theorem fingerprint_eq_iff : a.fingerprint = b.fingerprint ↔ compare a b = .eq := by
  constructor
  · intro same
    simp only [fingerprint, List.cons_append, List.nil_append, List.cons.injEq,
      true_and] at same
    obtain ⟨low, high, slices⟩ := same
    have sizes : a.size = b.size := by
      have lows := congrArg UInt8.toNat low
      have highs := congrArg UInt8.toNat high
      have bound := a.size_le
      have bound' := b.size_le
      simp only [UInt8.toNat_ofNat'] at lows highs
      omega
    refine eq_iff.mpr ⟨sizes, ?_⟩
    intro i inside
    rw [← bit_masked a inside, ← bit_masked b (sizes ▸ inside), Bytes32.ext slices]
  · intro same
    rw [fingerprint, fingerprint, (eq_iff.mp same).1, masked_congr same]

theorem compressed_eq_iff : a.compressed = b.compressed ↔ compare a b = .eq :=
  ⟨compressed_inj, compressed_congr⟩

theorem isLeaf_congr (same : compare a b = .eq) : a.isLeaf = b.isLeaf := by
  apply Bool.eq_iff_iff.mpr
  rw [isLeaf_iff_size, isLeaf_iff_size, (eq_iff.mp same).1]

theorem beq_iff : (a == b) = true ↔ compare a b = .eq := by
  change (compare a b == .eq) = true ↔ _
  exact beq_iff_eq

/-- Keys are ordered as their bit strings are in a dictionary, and this order is total.
Keys are the same if and only if their bit strings, their fingerprints or their compressed
forms are, and the same keys belong to the same kind of node. -/
theorem order_of_bit_strings (a b c : TrieKey) :
    compare a b = compare a.bitString b.bitString ∧
      compare b a = (compare a b).swap ∧
      ((compare a b).isLE = true → (compare b c).isLE = true → (compare a c).isLE = true) ∧
      [(a == b) = true, a.bitString = b.bitString, a.fingerprint = b.fingerprint,
        a.compressed = b.compressed].TFAE ∧
      ((a == b) = true → a.isLeaf = b.isLeaf) := by
  have forms : [(a == b) = true, a.bitString = b.bitString, a.fingerprint = b.fingerprint,
      a.compressed = b.compressed].TFAE := by
    refine List.tfae_of_forall (compare a b = .eq) _ ?_
    simp only [List.forall_mem_cons]
    exact ⟨beq_iff, bitString_eq_iff, fingerprint_eq_iff, compressed_eq_iff, nofun⟩
  exact ⟨(compare_bitString a b).symm, Std.OrientedOrd.eq_swap,
    Std.TransOrd.isLE_trans, forms, fun same => isLeaf_congr (beq_iff.mp same)⟩

/-- The branch at `01`, stored with a set bit behind it. -/
def untidy : TrieKey := .branch (.ofBits [false, true, true]) ⟨2, by decide⟩

theorem order_of_bit_strings_untidy :
    (untidy == ofBits [false, true]) = true ∧
      untidy.isLeaf = (ofBits [false, true]).isLeaf ∧
      compare (ofBits [false]) untidy = .lt ∧
      compare untidy (leaf (.ofBits [true])) = .lt ∧
      (compare (ofBits [false]) (leaf (.ofBits [true]))).isLE = true := by
  have same : (untidy == ofBits [false, true]) = true := by decide +kernel
  have first : compare (ofBits [false]) untidy = .lt := by decide +kernel
  have second : compare untidy (leaf (.ofBits [true])) = .lt := by decide +kernel
  obtain ⟨-, -, -, -, same_kind⟩ :=
    order_of_bit_strings untidy (ofBits [false, true]) untidy
  obtain ⟨-, -, transitive, -⟩ :=
    order_of_bit_strings (ofBits [false]) untidy (leaf (.ofBits [true]))
  exact ⟨same, same_kind same, first, second,
    transitive (Ordering.isLE_of_eq_lt first) (Ordering.isLE_of_eq_lt second)⟩

end MerkleProof.TrieKey
