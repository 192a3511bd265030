import MerkleProof.Hex
import MerkleProof.Text.Outline
import MerkleProof.TrieKey.Order
import MerkleProof.Varint

/-!
Written forms of trie keys: 34 raw bytes that keep the whole slice, the compressed form
that enters branch hashes, and the string of significant bits.
-/

namespace MerkleProof.TrieKey

inductive Error
  | invalidBranchLength (length : Nat)
  | invalidRawLength (length : Nat)
  | unknownNodeType (byte : UInt8)
  /-- A text that is longer than 256 bytes or holds anything but `0` and `1`. -/
  | invalidBitString (text : String)
deriving DecidableEq

def Error.message : Error → String
  | .invalidBranchLength length =>
      s!"branch key must have less than 256 significant bits, got {length}"
  | .invalidRawLength length => s!"raw db key must be 34 bytes long, got {length}"
  | .unknownNodeType byte =>
      "unknown node type byte 0x" ++ String.ofList (Hex.encodeByte byte)
  | .invalidBitString text => "invalid bit string: " ++ Text.quoted text

def branchOf (slice : Bytes32) (length : Nat) : Except Error TrieKey :=
  if h : length < 256 then .ok (.branch slice ⟨length, h⟩)
  else .error (.invalidBranchLength length)

/-- The kind of node, the slice as stored, and
the number of significant bits of a branch. -/
def raw : TrieKey → Bytes
  | .branch slice length => 0 :: (slice.toList ++ [UInt8.ofNat length])
  | .leaf slice => 1 :: (slice.toList ++ [0])

/-- The key of a kind of node, a slice and the byte that follows, which a leaf ignores. -/
def ofRawParts (kind : UInt8) (slice : Bytes32) (last : UInt8) : Except Error TrieKey :=
  if kind = 0 then branchOf slice last.toNat
  else if kind = 1 then .ok (.leaf slice)
  else .error (.unknownNodeType kind)

def ofRaw (bytes : Bytes) : Except Error TrieKey :=
  if h : bytes.length = 34 then
    ofRawParts (bytes.headD 0) ⟨(bytes.drop 1).take 32, by simp [h]⟩ (bytes.getLastD 0)
  else .error (.invalidRawLength bytes.length)

/-- The number of significant bits, then as many masked bytes as hold them. -/
def compressed (k : TrieKey) : Bytes :=
  Varint.encode (UInt64.ofNat k.size) ++ k.masked.toList.take ((k.size + 7) / 8)

def bitString (k : TrieKey) : String :=
  String.ofList (k.toBits.map fun b => if b then '1' else '0')

def ofBitString (text : String) : Except Error TrieKey :=
  if text.utf8ByteSize ≤ 256 ∧ text.toList.all (fun c => c == '0' || c == '1') then
    .ok (ofBits (text.toList.map (· == '1')))
  else .error (.invalidBitString text)

def expectation : String := "binary string with length between 0 and 256"

def outline (k : TrieKey) : Text.Outline :=
  .record "DbKey" [
    ("node_type", .atom (if k.isLeaf then "Leaf" else "Branch")),
    ("num_significant_bits", .atom (toString k.size)),
    ("key_slice", .atom (Text.quoted (Hex.text k.slice.toList)))]

end MerkleProof.TrieKey
