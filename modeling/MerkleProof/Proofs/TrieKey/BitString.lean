import MerkleProof.Proofs.TrieKey.Order
import MerkleProof.TrieKey.Forms

/-! Keys made of bits and keys read from bit strings.  They have the bits that they were
made of and none behind these, and a key that is written and read again is the same up
to its trailing bits. -/

namespace MerkleProof

/-- The sum of the powers of two at the set bits below `n`. -/
def sumOfBits (bit : Nat → Bool) (n : Nat) : Nat :=
  ((List.range n).map fun i => if bit i then 2 ^ i else 0).sum

section

variable (bit : Nat → Bool)

theorem sumOfBits_succ (n : Nat) :
    sumOfBits bit (n + 1) = sumOfBits bit n + if bit n then 2 ^ n else 0 := by
  simp [sumOfBits, List.range_succ]

theorem sumOfBits_lt (n : Nat) : sumOfBits bit n < 2 ^ n := by
  induction n with
  | zero => exact Nat.one_pos
  | succ n ih =>
      rw [sumOfBits_succ, Nat.pow_succ]
      split <;> omega

theorem testBit_sumOfBits (n i : Nat) :
    (sumOfBits bit n).testBit i = (decide (i < n) && bit i) := by
  induction n with
  | zero => simp [sumOfBits]
  | succ n ih =>
      have bound := sumOfBits_lt bit n
      rw [sumOfBits_succ]
      rcases Nat.lt_trichotomy i n with below | rfl | above
      · have inside : i < n + 1 := by omega
        have same : (sumOfBits bit n + if bit n then 2 ^ n else 0).testBit i =
            (sumOfBits bit n).testBit i := by
          split
          · rw [Nat.add_comm, Nat.testBit_two_pow_add_gt below]
          · rfl
        rw [same, ih, decide_eq_true below, decide_eq_true inside]
      · have here : (sumOfBits bit i).testBit i = false := Nat.testBit_lt_two_pow bound
        rw [decide_eq_true (Nat.lt_succ_self i), Bool.true_and]
        split
        · rename_i set
          rw [Nat.add_comm, Nat.testBit_two_pow_add_eq, here, set]
          rfl
        · rename_i clear
          rw [Nat.add_zero, here, eq_false_of_ne_true clear]
      · have outside : ¬i < n + 1 := by omega
        have small := sumOfBits_lt bit (n + 1)
        rw [sumOfBits_succ] at small
        rw [decide_eq_false outside, Bool.false_and]
        exact Nat.testBit_lt_two_pow
          (Nat.lt_of_lt_of_le small (Nat.pow_le_pow_right (by decide) above))

theorem testBit_byteOfBits (i : Nat) :
    (byteOfBits bit).toNat.testBit i = (decide (i < 8) && bit i) := by
  have small : (byteOfBits bit).toNat = sumOfBits bit 8 :=
    Nat.mod_eq_of_lt (sumOfBits_lt bit 8)
  rw [small, testBit_sumOfBits]

end

theorem Bytes32.bit_ofBits (bits : List Bool) {i : Nat} (inside : i < 256) :
    (ofBits bits).bit i = bits.getD i false := by
  have byte : i / 8 < 32 := by omega
  have low : i % 8 < 8 := Nat.mod_lt i (by decide)
  have place : 8 * (i / 8) + i % 8 = i := Nat.div_add_mod i 8
  simp [bit, ofBits, byte, testBit_byteOfBits, low, place]

namespace TrieKey

variable (bits : List Bool)

theorem size_ofBits : (ofBits bits).size = min bits.length 256 := by
  unfold ofBits
  split
  · rename_i short
    exact (Nat.min_eq_left (Nat.le_of_lt short)).symm
  · rename_i long
    exact (Nat.min_eq_right (Nat.le_of_not_lt long)).symm

theorem slice_ofBits : (ofBits bits).slice = .ofBits bits := by
  unfold ofBits
  split <;> rfl

theorem bit_ofBits {i : Nat} (inside : i < 256) :
    (ofBits bits).bit i = bits.getD i false := by
  rw [bit, slice_ofBits, Bytes32.bit_ofBits bits inside]

theorem isCanonical_ofBits : (ofBits bits).isCanonical = true := by
  refine isCanonical_iff.mpr ?_
  intro i past
  rw [size_ofBits] at past
  by_cases inside : i < 256
  · rw [bit_ofBits bits inside, List.getD_eq_getElem?_getD,
      List.getElem?_eq_none (by omega), Option.getD_none]
  · exact bit_of_le _ (Nat.le_of_not_lt inside)

theorem sameBits_ofBits_toBits (k : TrieKey) :
    (ofBits k.toBits).size = k.size ∧
      ∀ i, i < (ofBits k.toBits).size → (ofBits k.toBits).bit i = k.bit i := by
  have size : (ofBits k.toBits).size = k.size := by
    rw [size_ofBits, length_toBits, Nat.min_eq_left k.size_le]
  refine ⟨size, ?_⟩
  intro i inside
  rw [size] at inside
  rw [bit_ofBits _ (Nat.lt_of_lt_of_le inside k.size_le), List.getD_eq_getElem?_getD,
    getElem?_toBits k inside, Option.getD_some]

/-! Bit strings. -/

def digit (bit : Bool) : Char := if bit then '1' else '0'

theorem toList_bitString_eq (k : TrieKey) : k.bitString.toList = k.toBits.map digit :=
  String.toList_ofList

theorem utf8ByteSize_digits (bits : List Bool) :
    (String.ofList (bits.map digit)).utf8ByteSize = bits.length := by
  induction bits with
  | nil => rfl
  | cons b bits ih =>
      have one : (digit b).utf8Size = 1 := by cases b <;> rfl
      rw [List.map_cons, String.ofList_cons, String.utf8ByteSize_append, ih,
        String.utf8ByteSize_singleton, one, List.length_cons, Nat.add_comm]

theorem ofBitString_digits {bits : List Bool} (short : bits.length ≤ 256) :
    ofBitString (String.ofList (bits.map digit)) = .ok (ofBits bits) := by
  have digits : (bits.map digit).all (fun c => c == '0' || c == '1') = true := by
    rw [List.all_map, List.all_eq_true]
    intro b _
    cases b <;> rfl
  have read : (bits.map digit).map (· == '1') = bits := by
    rw [List.map_map]
    refine List.map_id'' ?_ _
    intro b
    cases b <;> rfl
  rw [ofBitString, utf8ByteSize_digits, String.toList_ofList, if_pos ⟨short, digits⟩, read]

theorem ofBitString_bitString (k : TrieKey) :
    ofBitString k.bitString = .ok (ofBits k.toBits) :=
  ofBitString_digits (k.length_toBits ▸ k.size_le)

theorem isCanonical_of_ofBitString {text : String} {k : TrieKey}
    (read : ofBitString text = .ok k) : k.isCanonical = true := by
  unfold ofBitString at read
  split at read
  · cases read
    exact isCanonical_ofBits _
  · contradiction

end TrieKey

end MerkleProof
