import MerkleProof.AuthenticatedMap
import MerkleProof.Proofs.TrieKey.Compressed

/-! The byte strings that are hashed on the way to a root: by a trie that is built from the
top, by a contour as it is folded, by a whole proof, and by a whole map.  What is hashed
for a branch tells its children. -/

namespace MerkleProof

namespace MapProof

theorem bytes_branchPreimage (left right : Subtree) :
    (branchPreimage left right).bytes = left.digest.toList ++
      (right.digest.toList ++ (left.key.compressed ++ right.key.compressed)) := by
  simp [branchPreimage, Preimage.bytes]

theorem bytes_singlePreimage (s : Subtree) :
    (singlePreimage s).bytes = s.key.compressed ++ s.digest.toList := by
  simp [singlePreimage, Preimage.bytes]

/-- Subtrees with the same digest at the same key. -/
structure Subtree.Alike (s t : Subtree) : Prop where
  digest : s.digest = t.digest
  key : compare s.key t.key = .eq

theorem Subtree.Alike.refl (s : Subtree) : s.Alike s := ⟨rfl, Std.ReflOrd.compare_self⟩

theorem Subtree.merge_congr {left right left' right' : Subtree}
    (on_left : left.Alike left') (on_right : right.Alike right') (key : TrieKey) :
    merge key left right = merge key left' right' := by
  simp only [merge, branchPreimage, on_left.digest, on_right.digest,
    TrieKey.compressed_congr on_left.key, TrieKey.compressed_congr on_right.key]

theorem branchPreimage_inj {left right left' right' : Subtree}
    (same : (branchPreimage left right).bytes = (branchPreimage left' right').bytes) :
    left.Alike left' ∧ right.Alike right' := by
  rw [bytes_branchPreimage, bytes_branchPreimage] at same
  obtain ⟨left_digest, after⟩ := List.append_inj same (by simp)
  obtain ⟨right_digest, keys⟩ := List.append_inj after (by simp)
  obtain ⟨left_key, right_key⟩ := TrieKey.compressed_append_inj keys
  exact ⟨⟨Bytes32.ext left_digest, left_key⟩, Bytes32.ext right_digest,
    TrieKey.compressed_inj right_key⟩

theorem singlePreimage_inj {s t : Subtree}
    (same : (singlePreimage s).bytes = (singlePreimage t).bytes) : s.Alike t := by
  rw [bytes_singlePreimage, bytes_singlePreimage] at same
  obtain ⟨key, digest⟩ := TrieKey.compressed_append_inj same
  exact ⟨Bytes32.ext digest, key⟩

/-- A map of a single entry is hashed like a branch only if both children of the branch
are at the empty key. -/
theorem sizes_of_single_eq_branch {s left right : Subtree}
    (same : (singlePreimage s).bytes = (branchPreimage left right).bytes) :
    left.key.size = 0 ∧ right.key.size = 0 := by
  have lengths := congrArg List.length same
  rw [bytes_singlePreimage, bytes_branchPreimage] at lengths
  simp only [List.length_append, Bytes32.length_toList] at lengths
  have longest := s.key.length_compressed_le
  have left_pos := left.key.length_compressed_pos
  have right_pos := right.key.length_compressed_pos
  exact ⟨TrieKey.size_eq_zero_of_length_compressed (by omega),
    TrieKey.size_eq_zero_of_length_compressed (by omega)⟩

/-- The end of the entry's key and the digest of its value are then the digest of the right
child, with two zeros after it. -/
theorem single_eq_branch {k : MapKey} {digest : Digest} {left right : Subtree}
    (same : (singlePreimage ⟨.leaf k, digest⟩).bytes = (branchPreimage left right).bytes) :
    left.key.size = 0 ∧ right.key.size = 0 ∧
      k.toList.drop 30 ++ digest.toList = right.digest.toList ++ [0, 0] := by
  obtain ⟨left_zero, right_zero⟩ := sizes_of_single_eq_branch same
  refine ⟨left_zero, right_zero, ?_⟩
  rw [bytes_singlePreimage, bytes_branchPreimage, TrieKey.compressed_leaf,
    TrieKey.compressed_of_size_eq_zero left_zero,
    TrieKey.compressed_of_size_eq_zero right_zero, List.append_assoc] at same
  have after_left : (left.digest.toList ++ (right.digest.toList ++ ([0] ++ [0]))).drop 32 =
      right.digest.toList ++ [0, 0] := List.drop_left' (by simp)
  have after_right : (([128, 2] : Bytes) ++ (k.toList ++ digest.toList)).drop 32 =
      k.toList.drop 30 ++ digest.toList := by
    show (k.toList ++ digest.toList).drop 30 = _
    exact List.drop_append_of_le_length (by simp)
  rw [← after_left, ← after_right]
  exact congrArg (List.drop 32) same

namespace Trie

def hashed (first : Subtree) (rest : List Subtree) : List Bytes :=
  match rest with
  | [] => []
  | next :: others =>
      match _h : split Subtree.key first (next :: others) with
      | (_, []) => []
      | (left, middle :: right) =>
          branchBytes (build first left) (build middle right) ::
            (hashed first left ++ hashed middle right)
termination_by rest.length
decreasing_by
  · exact (length_lt_of_split Subtree.key _h).1
  · exact (length_lt_of_split Subtree.key _h).2

end Trie

namespace Contour

def hashedWhile (giveUp : TrieKey → Bool) : (below : List Subtree) → (top : Subtree) →
    (shared : TrieKey) → List Bytes
  | [], _, _ => []
  | left :: below, top, shared =>
      if giveUp shared then
        let parent := Subtree.merge shared left top
        (branchPreimage left top).bytes ::
          match below with
          | [] => []
          | next :: rest =>
              hashedWhile giveUp (next :: rest) parent (next.key.commonPrefix parent.key)
      else []

def hashedByPush (c : Contour) (s : Subtree) : List Bytes :=
  hashedWhile (fun k => (c.top.key.commonPrefix s.key).size < k.size)
    c.below c.top c.shared

def hashed (c : Contour) : List Subtree → List Bytes
  | [] => hashedWhile (fun _ => true) c.below c.top c.shared
  | s :: rest => c.hashedByPush s ++ (c.push s).hashed rest

end Contour

def hashedByJoin : List Entry → List Bytes
  | [] => []
  | [.leaf key digest _] => [(singlePreimage ⟨.leaf key, digest⟩).bytes]
  | [.branch _ _] => []
  | first :: second :: rest =>
      (Contour.start first.subtree second.subtree).hashed (rest.map Entry.subtree)

/-- All that is hashed when a proof is checked: the values of its leaves, and
what leads to the root. -/
def hashed (p : MapProof) : List Bytes :=
  p.entries.filterMap Entry.value? ++ hashedByJoin p.entries

end MapProof

namespace AuthenticatedMap

/-- All that is hashed for the root of a map. -/
def hashed (m : SortedMap MapKey Bytes) : List Bytes :=
  m.toList.map Prod.snd ++
    match leaves m with
    | [] => []
    | [single] => [single.key.compressed ++ (sha256 single.2).toList]
    | first :: rest => MapProof.Trie.hashed first.subtree (rest.map Leaf.subtree)

end AuthenticatedMap

end MerkleProof
