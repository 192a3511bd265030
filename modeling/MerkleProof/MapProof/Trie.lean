import MerkleProof.MapProof.Contour

/-!
The trie over ascending subtrees, built from the top. The root sits at the common prefix of
the first and the last key, and the next bit tells left from right.
-/

namespace MerkleProof.MapProof.Trie

variable {α : Type} (key : α → TrieKey)

def rootKey (first : α) (rest : List α) : TrieKey :=
  (key first).commonPrefix (key ((first :: rest).getLast (List.cons_ne_nil _ _)))

/-- What goes left together with the first, and what goes right. A first key that is itself
the root's stands alone on the left. -/
def split (first : α) (rest : List α) : List α × List α :=
  let n := (rootKey key first rest).size
  if (key first).size = n then ([], rest)
  else (rest.takeWhile fun a => !(key a).bit n, rest.dropWhile fun a => !(key a).bit n)

theorem split_append (first : α) (rest : List α) :
    (split key first rest).1 ++ (split key first rest).2 = rest := by
  dsimp only [split]
  split
  · rfl
  · exact List.takeWhile_append_dropWhile

theorem length_lt_of_split {first middle : α} {rest left right : List α}
    (parts : split key first rest = (left, middle :: right)) :
    left.length < rest.length ∧ right.length < rest.length := by
  have whole := congrArg List.length (split_append key first rest)
  simp only [parts, List.length_append, List.length_cons] at whole
  omega

/-- What is hashed for a branch: both digests, then both keys in compressed form. -/
def branchBytes (left right : Subtree) : Bytes :=
  left.digest.toList ++ right.digest.toList ++ left.key.compressed ++ right.key.compressed

def branchAt (key : TrieKey) (left right : Subtree) : Subtree :=
  ⟨key, sha256 (branchBytes left right)⟩

/-- The trie's root as a subtree. If nothing goes right, which never happens for ascending
keys, it is the first subtree. -/
def build (first : Subtree) (rest : List Subtree) : Subtree :=
  match rest with
  | [] => first
  | next :: others =>
      match _h : split Subtree.key first (next :: others) with
      | (_, []) => first
      | (left, middle :: right) =>
          branchAt (rootKey Subtree.key first (next :: others)) (build first left)
            (build middle right)
termination_by rest.length
decreasing_by
  · exact (length_lt_of_split Subtree.key _h).1
  · exact (length_lt_of_split Subtree.key _h).2

end MerkleProof.MapProof.Trie
