import MerkleProof.MapProof.Check
import MerkleProof.MapProof.Trie

/-!
Authenticated maps: the trie over all entries of a map, its root, and the proofs cut from
it.
-/

namespace MerkleProof.AuthenticatedMap

abbrev Leaf := MapKey × Bytes

def Leaf.key (l : Leaf) : TrieKey := .leaf l.1

def Leaf.subtree (l : Leaf) : MapProof.Subtree := ⟨l.key, sha256 l.2⟩

def Leaf.entry (l : Leaf) : MapProof.Entry := .ofValue l.1 l.2

def leaves (m : SortedMap MapKey Bytes) : List Leaf :=
  m.toList.mergeSort fun a b => (compare (Leaf.key a) (Leaf.key b)).isLE

def subtree (first : Leaf) (rest : List Leaf) : MapProof.Subtree :=
  MapProof.Trie.build first.subtree (rest.map Leaf.subtree)

/-- The root of a map: all zeros for an empty one, and a form of its own
for a single entry. -/
def root (m : SortedMap MapKey Bytes) : Digest :=
  match leaves m with
  | [] => Digest.empty
  | [single] => sha256 (single.key.compressed ++ (sha256 single.2).toList)
  | first :: rest => (subtree first rest).digest

/-- The entries for a subtree: it is opened as long as some requested key lies below it. -/
def cut (requested : List MapKey) (first : Leaf) (rest : List Leaf) :
    List MapProof.Entry :=
  let key := MapProof.Trie.rootKey Leaf.key first rest
  if requested.any fun k => key.isPrefixOf (.leaf k) then
    match rest with
    | [] => [first.entry]
    | next :: others =>
        match _h : MapProof.Trie.split Leaf.key first (next :: others) with
        | (_, []) => [first.entry]
        | (left, middle :: right) => cut requested first left ++ cut requested middle right
  else [.branch key (subtree first rest).digest]
termination_by rest.length
decreasing_by
  · exact (MapProof.Trie.length_lt_of_split Leaf.key _h).1
  · exact (MapProof.Trie.length_lt_of_split Leaf.key _h).2

/-- The entries of the proof for the requested keys. The root itself is always opened. -/
def proofEntries (m : SortedMap MapKey Bytes) (requested : List MapKey) :
    List MapProof.Entry :=
  match leaves m with
  | [] => []
  | [single] => [single.entry]
  | first :: rest =>
      match MapProof.Trie.split Leaf.key first rest with
      | (_, []) => [first.entry]
      | (left, middle :: right) => cut requested first left ++ cut requested middle right

def proof (m : SortedMap MapKey Bytes) (requested : SortedSet MapKey) : MapProof :=
  ⟨proofEntries m requested.toList, requested⟩

end MerkleProof.AuthenticatedMap
