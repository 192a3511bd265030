import MerkleProof.TrieKey.Basic

/-!
The order of trie keys and their common prefixes. At the first bit where two keys differ
the one with a set bit is greater, and a proper prefix is smaller than what extends it.
Bits that are not significant play no part.
-/

namespace MerkleProof

/-- The number of zero bits below the lowest set bit of a byte, 8 if there is none. -/
def trailingZeros (b : UInt8) : Nat := (List.range 8).findIdx fun i => b.toNat.testBit i

/-- The number of leading bits on which two byte strings agree, up to
the end of the shorter. -/
def agreeingBits : Bytes → Bytes → Nat
  | a :: as, b :: bs => if a = b then 8 + agreeingBits as bs else trailingZeros (a ^^^ b)
  | _, _ => 0

namespace TrieKey

def commonLength (a b : TrieKey) : Nat :=
  min (agreeingBits a.slice.toList b.slice.toList) (min a.size b.size)

theorem commonLength_le_left (a b : TrieKey) : commonLength a b ≤ a.size := by
  unfold commonLength
  omega

theorem commonLength_le_right (a b : TrieKey) : commonLength a b ≤ b.size := by
  unfold commonLength
  omega

/-- The longest key that is a prefix of both; a leaf only if both are the same leaf. -/
def commonPrefix (a b : TrieKey) : TrieKey :=
  if h : commonLength a b < 256 then .branch (a.slice.mask (commonLength a b)) ⟨_, h⟩
  else .leaf a.slice

@[simp] theorem size_commonPrefix (a b : TrieKey) :
    (commonPrefix a b).size = commonLength a b := by
  unfold commonPrefix
  split
  · rfl
  · have bound := Nat.le_trans (commonLength_le_left a b) a.size_le
    simp only [size_leaf]
    omega

def isPrefixOf (a b : TrieKey) : Bool :=
  a.size ≤ b.size && commonLength a b = a.size

instance : Ord TrieKey where
  compare a b :=
    if commonLength a b < min a.size b.size then
      compare (a.bit (commonLength a b)) (b.bit (commonLength a b))
    else compare a.size b.size

/-- Keys are the same if neither is greater, whatever their bits past
the significant ones. -/
instance : BEq TrieKey := ⟨fun a b => compare a b == .eq⟩

/-- What two equal keys have in common for a hash table: the number of bits in two bytes,
the length of a slice in eight, both least significant byte first, and the masked slice. -/
def fingerprint (k : TrieKey) : Bytes :=
  [UInt8.ofNat (k.size % 256), UInt8.ofNat (k.size / 256)] ++ [32, 0, 0, 0, 0, 0, 0, 0] ++
    k.masked.toList

end TrieKey

end MerkleProof
