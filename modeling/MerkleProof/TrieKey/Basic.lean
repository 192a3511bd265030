import MerkleProof.Bytes

/-!
Keys of nodes in a binary trie over 256-bit paths. A key is a stored slice of 32 bytes of
which only the leading bits are significant: all of them in a leaf, fewer in a branch. Bits
are numbered from the least significant one of the first byte. The bits past the
significant ones are kept as they were given, and masking clears them.
-/

namespace MerkleProof

/-- Bit `i` of a slice; no bit is set past the last one. -/
def Bytes32.bit (slice : Bytes32) (i : Nat) : Bool :=
  (slice.toList.getD (i / 8) 0).toNat.testBit (i % 8)

/-- The byte of the given bits, least significant first. -/
def byteOfBits (bit : Nat → Bool) : UInt8 :=
  UInt8.ofNat ((List.range 8).map fun i => if bit i then 2 ^ i else 0).sum

/-- The slice that starts with the given bits and goes on with zeros. -/
def Bytes32.ofBits (bits : List Bool) : Bytes32 where
  toList := (List.range 32).map fun i => byteOfBits fun j => bits.getD (8 * i + j) false
  length_toList := by simp

def maskBytes : Nat → Bytes → Bytes
  | _, [] => []
  | n, b :: rest =>
      if 8 ≤ n then b :: maskBytes (n - 8) rest
      else (b &&& UInt8.ofNat (2 ^ n - 1)) :: maskBytes 0 rest

@[simp] theorem length_maskBytes (n : Nat) (bytes : Bytes) :
    (maskBytes n bytes).length = bytes.length := by
  induction bytes generalizing n with
  | nil => rfl
  | cons b rest ih =>
      unfold maskBytes
      split <;> simp [ih]

def Bytes32.mask (slice : Bytes32) (n : Nat) : Bytes32 where
  toList := maskBytes n slice.toList
  length_toList := by simp

inductive TrieKey
  | leaf (slice : Bytes32)
  | branch (slice : Bytes32) (length : Fin 256)

namespace TrieKey

def slice : TrieKey → Bytes32
  | .leaf slice => slice
  | .branch slice _ => slice

def size : TrieKey → Nat
  | .leaf _ => 256
  | .branch _ length => length

def isLeaf : TrieKey → Bool
  | .leaf _ => true
  | .branch _ _ => false

@[simp] theorem slice_leaf (s : Bytes32) : (leaf s).slice = s := rfl

@[simp] theorem slice_branch (s : Bytes32) (n : Fin 256) : (branch s n).slice = s := rfl

@[simp] theorem size_leaf (s : Bytes32) : (leaf s).size = 256 := rfl

@[simp] theorem size_branch (s : Bytes32) (n : Fin 256) : (branch s n).size = n := rfl

@[simp] theorem isLeaf_leaf (s : Bytes32) : (leaf s).isLeaf = true := rfl

@[simp] theorem isLeaf_branch (s : Bytes32) (n : Fin 256) :
    (branch s n).isLeaf = false := rfl

theorem size_le (k : TrieKey) : k.size ≤ 256 := by
  cases k with
  | leaf _ => exact Nat.le_refl 256
  | branch _ length => exact Nat.le_of_lt length.isLt

theorem isLeaf_iff_size (k : TrieKey) : k.isLeaf = true ↔ k.size = 256 := by
  cases k with
  | leaf _ => simp
  | branch _ length =>
      simp only [isLeaf_branch, Bool.false_eq_true, size_branch, false_iff]
      exact Nat.ne_of_lt length.isLt

/-- Bit `i` of the stored slice, significant or not. -/
def bit (k : TrieKey) (i : Nat) : Bool := k.slice.bit i

def toBits (k : TrieKey) : List Bool := (List.range k.size).map k.bit

@[simp] theorem length_toBits (k : TrieKey) : k.toBits.length = k.size := by
  simp [toBits]

theorem getElem?_toBits (k : TrieKey) {i : Nat} (h : i < k.size) :
    k.toBits[i]? = some (k.bit i) := by
  simp [toBits, h]

/-- The key of the given bits, cut off after 256; it is a leaf if there are as many. -/
def ofBits (bits : List Bool) : TrieKey :=
  if h : bits.length < 256 then .branch (Bytes32.ofBits bits) ⟨bits.length, h⟩
  else .leaf (Bytes32.ofBits bits)

def masked (k : TrieKey) : Bytes32 := k.slice.mask k.size

def isCanonical (k : TrieKey) : Bool := k.masked = k.slice

end TrieKey

end MerkleProof
