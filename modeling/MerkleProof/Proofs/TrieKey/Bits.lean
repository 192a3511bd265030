import MerkleProof.TrieKey.Order

/-! Slices and keys bit by bit.  Masking keeps the leading bits, and the length of a common
prefix is the greatest number of leading bits that both keys have and agree on. -/

namespace MerkleProof

/-- Bit `i` of a byte string, from the least significant bit of the first byte. -/
def bitOf (bytes : Bytes) (i : Nat) : Bool := (bytes.getD (i / 8) 0).toNat.testBit (i % 8)

theorem bitOf_cons (b : UInt8) (rest : Bytes) (i : Nat) :
    bitOf (b :: rest) i = if i < 8 then b.toNat.testBit i else bitOf rest (i - 8) := by
  unfold bitOf
  split
  · rename_i low
    rw [Nat.div_eq_of_lt low, Nat.mod_eq_of_lt low, List.getD_cons_zero]
  · rename_i high
    have quotient : i / 8 = (i - 8) / 8 + 1 := by omega
    have remainder : i % 8 = (i - 8) % 8 := by omega
    rw [quotient, remainder, List.getD_cons_succ]

theorem bitOf_low (b : UInt8) (rest : Bytes) {i : Nat} (low : i < 8) :
    bitOf (b :: rest) i = b.toNat.testBit i := by
  rw [bitOf_cons, if_pos low]

theorem bitOf_high (b : UInt8) (rest : Bytes) (i : Nat) :
    bitOf (b :: rest) (i + 8) = bitOf rest i := by
  rw [bitOf_cons, if_neg (by omega), Nat.add_sub_cancel]

theorem testBit_byte_high (b : UInt8) {i : Nat} (high : 8 ≤ i) :
    b.toNat.testBit i = false :=
  Nat.testBit_lt_two_pow
    (Nat.lt_of_lt_of_le b.toNat_lt (Nat.pow_le_pow_right (by decide) high))

theorem byte_ext {a b : UInt8}
    (agree : ∀ i, i < 8 → a.toNat.testBit i = b.toNat.testBit i) : a = b := by
  apply UInt8.toNat.inj
  apply Nat.eq_of_testBit_eq
  intro i
  by_cases low : i < 8
  · exact agree i low
  · rw [testBit_byte_high a (by omega), testBit_byte_high b (by omega)]

theorem bytes_ext_bit : ∀ {as bs : Bytes}, as.length = bs.length →
    (∀ i, i < 8 * as.length → bitOf as i = bitOf bs i) → as = bs
  | [], [], _, _ => rfl
  | a :: as, b :: bs, length, agree => by
      have head : a = b := by
        apply byte_ext
        intro i low
        have bit := agree i (by simp only [List.length_cons]; omega)
        rwa [bitOf_low a as low, bitOf_low b bs low] at bit
      have tail : as = bs := by
        apply bytes_ext_bit (by simpa using length)
        intro i bound
        have bit := agree (i + 8) (by simp only [List.length_cons]; omega)
        rwa [bitOf_high, bitOf_high] at bit
      rw [head, tail]

theorem testBit_maskByte (b : UInt8) {n : Nat} (bound : n < 8) (i : Nat) :
    (b &&& UInt8.ofNat (2 ^ n - 1)).toNat.testBit i =
      (decide (i < n) && b.toNat.testBit i) := by
  have power : 2 ^ n ≤ 2 ^ 8 := Nat.pow_le_pow_right (by decide) (by omega)
  have small : (UInt8.ofNat (2 ^ n - 1)).toNat = 2 ^ n - 1 := Nat.mod_eq_of_lt (by omega)
  rw [UInt8.toNat_and, small, Nat.testBit_and, Nat.testBit_two_pow_sub_one, Bool.and_comm]

theorem bitOf_maskBytes (n : Nat) (bytes : Bytes) (i : Nat) :
    bitOf (maskBytes n bytes) i = (decide (i < n) && bitOf bytes i) := by
  induction bytes generalizing n i with
  | nil => simp [maskBytes, bitOf]
  | cons b rest ih =>
      unfold maskBytes
      split
      · rename_i whole
        rw [bitOf_cons, bitOf_cons, ih]
        split
        · have inside : i < n := by omega
          simp [inside]
        · have shift : (i - 8 < n - 8) = (i < n) := by
            apply propext
            omega
          simp only [shift]
      · rename_i partly
        rw [bitOf_cons, bitOf_cons, ih, testBit_maskByte b (by omega)]
        split
        · rfl
        · have outside : ¬ i < n := by omega
          simp [outside]

namespace Bytes32

theorem bit_eq (slice : Bytes32) (i : Nat) : slice.bit i = bitOf slice.toList i := rfl

theorem ext_bit {a b : Bytes32} (agree : ∀ i, i < 256 → a.bit i = b.bit i) : a = b := by
  apply ext
  apply bytes_ext_bit (by simp)
  rw [a.length_toList]
  exact agree

@[simp] theorem bit_mask (slice : Bytes32) (n i : Nat) :
    (slice.mask n).bit i = (decide (i < n) && slice.bit i) :=
  bitOf_maskBytes n slice.toList i

/-- What masking gives is settled by the bits that are kept. -/
theorem mask_congr {a b : Bytes32} {n : Nat} (agree : ∀ i, i < n → a.bit i = b.bit i) :
    a.mask n = b.mask n := by
  apply ext_bit
  intro i _
  rw [bit_mask, bit_mask]
  by_cases kept : i < n
  · rw [decide_eq_true kept, Bool.true_and, Bool.true_and]
    exact agree i kept
  · rw [decide_eq_false kept, Bool.false_and, Bool.false_and]

theorem bit_of_le (slice : Bytes32) {i : Nat} (past : 256 ≤ i) : slice.bit i = false := by
  have beyond : slice.toList.length ≤ i / 8 := by
    rw [slice.length_toList]
    omega
  rw [bit, List.getD_eq_getElem?_getD, List.getElem?_eq_none beyond]
  exact Nat.zero_testBit _

end Bytes32

theorem testBit_lt_trailingZeros {b : UInt8} {i : Nat} (h : i < trailingZeros b) :
    b.toNat.testBit i = false := by
  have absent := List.not_of_lt_findIdx h
  simpa using absent

theorem testBit_trailingZeros {b : UInt8} (h : trailingZeros b < 8) :
    b.toNat.testBit (trailingZeros b) = true := by
  have inside : (List.range 8)[trailingZeros b]? = some (trailingZeros b) := by simp [h]
  have found := List.findIdx_of_getElem?_eq_some inside
  exact found

theorem testBit_below_difference {a b : UInt8} {i : Nat}
    (h : i < trailingZeros (a ^^^ b)) : a.toNat.testBit i = b.toNat.testBit i := by
  have zero := testBit_lt_trailingZeros h
  simpa [UInt8.toNat_xor, Nat.testBit_xor] using zero

theorem difference_lt {a b : UInt8} (different : a ≠ b) : trailingZeros (a ^^^ b) < 8 := by
  apply Nat.lt_of_not_le
  intro all
  apply different
  apply byte_ext
  intro i low
  exact testBit_below_difference (Nat.lt_of_lt_of_le low all)

theorem testBit_difference {a b : UInt8} (different : a ≠ b) :
    a.toNat.testBit (trailingZeros (a ^^^ b)) ≠
      b.toNat.testBit (trailingZeros (a ^^^ b)) := by
  have one := testBit_trailingZeros (difference_lt different)
  intro same
  rw [UInt8.toNat_xor, Nat.testBit_xor, same] at one
  simp at one

theorem le_agreeingBits_iff {n : Nat} : ∀ {as bs : Bytes}, as.length = bs.length →
    n ≤ 8 * as.length →
    (n ≤ agreeingBits as bs ↔ ∀ i, i < n → bitOf as i = bitOf bs i)
  | [], [], _, bound => by
      have zero : n = 0 := by simpa using bound
      subst zero
      simp
  | a :: as, b :: bs, length, bound => by
      unfold agreeingBits
      split
      · rename_i same
        subst same
        have ih : n - 8 ≤ agreeingBits as bs ↔ ∀ i, i < n - 8 → bitOf as i = bitOf bs i :=
          le_agreeingBits_iff (by simpa using length)
            (by simp only [List.length_cons] at bound; omega)
        rw [Nat.add_comm, ← Nat.sub_le_iff_le_add, ih]
        constructor
        · intro agree i below
          rw [bitOf_cons, bitOf_cons]
          split
          · rfl
          · exact agree (i - 8) (by omega)
        · intro agree i below
          simpa only [bitOf_high] using agree (i + 8) (by omega)
      · rename_i different
        have low := difference_lt different
        constructor
        · intro h i below
          rw [bitOf_low a as (by omega), bitOf_low b bs (by omega)]
          exact testBit_below_difference (by omega)
        · intro agree
          apply Nat.le_of_not_lt
          intro early
          have same := agree _ early
          rw [bitOf_low a as low, bitOf_low b bs low] at same
          exact testBit_difference different same

namespace TrieKey

theorem bit_of_le (k : TrieKey) {i : Nat} (past : 256 ≤ i) : k.bit i = false :=
  k.slice.bit_of_le past

theorem le_commonLength_iff {a b : TrieKey} {n : Nat} :
    n ≤ commonLength a b ↔ n ≤ a.size ∧ n ≤ b.size ∧ ∀ i, i < n → a.bit i = b.bit i := by
  rw [commonLength, Nat.le_min, Nat.le_min]
  constructor
  · rintro ⟨agree, left, right⟩
    refine ⟨left, right, (le_agreeingBits_iff (by simp) ?_).mp agree⟩
    rw [a.slice.length_toList]
    exact Nat.le_trans left a.size_le
  · rintro ⟨left, right, agree⟩
    refine ⟨(le_agreeingBits_iff (by simp) ?_).mpr agree, left, right⟩
    rw [a.slice.length_toList]
    exact Nat.le_trans left a.size_le

end TrieKey

end MerkleProof
