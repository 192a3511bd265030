import MerkleProof.Digest.Sha256
import MerkleProof.SortedMap
import MerkleProof.TrieKey.Order

/-!
Flattened proofs for authenticated maps: the leaves that are revealed and the subtrees
that are pruned, together with the keys that the proof is about. The order of the
entries conveys the trie.
-/

namespace MerkleProof

abbrev MapKey := Bytes32

namespace MapProof

inductive Entry
  /-- A key and its value, with the digest that the value should have. -/
  | leaf (key : MapKey) (digest : Digest) (value : Bytes)
  /-- A subtree known only by its place and its digest. -/
  | branch (key : TrieKey) (digest : Digest)
deriving BEq

namespace Entry

def ofValue (key : MapKey) (value : Bytes) : Entry := .leaf key (sha256 value) value

def key : Entry → TrieKey
  | .leaf key _ _ => .leaf key
  | .branch key _ => key

def digest : Entry → Digest
  | .leaf _ digest _ => digest
  | .branch _ digest => digest

def value? : Entry → Option Bytes
  | .leaf _ _ value => some value
  | .branch _ _ => none

def mapKey? : Entry → Option MapKey
  | .leaf key _ _ => some key
  | .branch _ _ => none

def isGenuine : Entry → Bool
  | .leaf _ digest value => digest = sha256 value
  | .branch _ _ => true

@[simp] theorem key_leaf (k : MapKey) (d : Digest) (v : Bytes) :
    (leaf k d v).key = .leaf k := rfl

@[simp] theorem key_branch (k : TrieKey) (d : Digest) : (branch k d).key = k := rfl

end Entry

end MapProof

structure MapProof where
  entries : List MapProof.Entry
  requested : SortedSet MapKey
deriving BEq

namespace MapProof

/-- The proof with its entries in the order of the trie; entries of one
key keep their order. -/
def sorted (p : MapProof) : MapProof :=
  { p with entries := p.entries.mergeSort fun a b => (compare a.key b.key).isLE }

def ofUnsorted (entries : List Entry) (requested : SortedSet MapKey) : MapProof :=
  sorted ⟨entries, requested⟩

end MapProof

end MerkleProof
