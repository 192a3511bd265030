import MerkleProof.AuthenticatedMap
import MerkleProof.Proofs.MapProof.Trie

/-! The leaves of a map stand in the order of the trie, and its nodes are the tries over
the parts that the forks leave. -/

namespace MerkleProof

namespace MapProof.Trie

/-- The nodes of a trie, the root first. -/
def nodes (first : Subtree) (rest : List Subtree) : List Subtree :=
  build first rest ::
    match rest with
    | [] => []
    | next :: others =>
        match _h : split Subtree.key first (next :: others) with
        | (_, []) => []
        | (left, middle :: right) => nodes first left ++ nodes middle right
termination_by rest.length
decreasing_by
  · exact (length_lt_of_split Subtree.key _h).1
  · exact (length_lt_of_split Subtree.key _h).2

theorem build_mem_nodes (first : Subtree) (rest : List Subtree) :
    build first rest ∈ nodes first rest := by
  rw [nodes.eq_def]
  exact List.mem_cons_self

theorem Fork.nodes_eq {first middle : Subtree} {left right : List Subtree}
    (fork : Fork Subtree.key first left middle right) :
    nodes first (left ++ middle :: right) =
      build first (left ++ middle :: right) ::
        (nodes first left ++ nodes middle right) := by
  obtain ⟨next, others, same, parts⟩ := fork.exists_split
  rw [same, nodes]
  split
  · rename_i whole
    rw [parts] at whole
    cases whole
  · rename_i whole
    rw [parts] at whole
    cases whole
    rfl

end MapProof.Trie

namespace AuthenticatedMap

open MapProof Trie TrieKey

def nodes (m : SortedMap MapKey Bytes) : List Subtree :=
  match leaves m with
  | [] => []
  | first :: rest => Trie.nodes first.subtree (rest.map Leaf.subtree)

theorem mem_leaves_iff {m : SortedMap MapKey Bytes} {k : MapKey} {v : Bytes} :
    (k, v) ∈ leaves m ↔ m.get? k = some v := by
  rw [leaves, List.mem_mergeSort, SortedMap.get?_eq_some_iff]

@[simp] theorem length_leaves (m : SortedMap MapKey Bytes) : (leaves m).length = m.size :=
  List.length_mergeSort _

theorem ascending_leaves (m : SortedMap MapKey Bytes) : Ascending Leaf.key (leaves m) := by
  have sorted : (leaves m).Pairwise fun a b => (compare a.key b.key).isLE = true :=
    List.pairwise_mergeSort (fun _ _ _ => Std.TransCmp.isLE_trans)
      (fun a b => isLE_total (Leaf.key a) (Leaf.key b)) m.toList
  have apart : (leaves m).Pairwise fun a b => a.1 ≠ b.1 := by
    refine (List.mergeSort_perm m.toList _).symm.pairwise (m.ascending.imp ?_) Ne.symm
    intro a b less same
    rw [same, Std.ReflOrd.compare_self] at less
    contradiction
  refine (sorted.and apart).imp ?_
  rintro a b ⟨most, different⟩
  rcases Ordering.isLE_iff_eq_lt_or_eq_eq.mp most with less | same
  · exact less
  · exact absurd (eq_of_leaf same) different

section

variable {m : SortedMap MapKey Bytes} {first : Leaf} {rest : List Leaf}

theorem mem_toList_of_leaves (leaves_eq : leaves m = first :: rest) {l : Leaf}
    (member : l ∈ first :: rest) : l ∈ m.toList := by
  rw [← leaves_eq] at member
  exact List.mem_mergeSort.mp member

theorem ascending_of_leaves (leaves_eq : leaves m = first :: rest) :
    Ascending Leaf.key (first :: rest) :=
  leaves_eq ▸ ascending_leaves m

theorem root_of_single (leaves_eq : leaves m = [first]) :
    root m = (singlePreimage first.subtree).digest := by
  rw [root, leaves_eq]
  simp [Preimage.digest, Preimage.bytes, singlePreimage, Leaf.subtree]

theorem root_of_leaves (leaves_eq : leaves m = first :: rest) (more : rest ≠ []) :
    root m = (build first.subtree (rest.map Leaf.subtree)).digest := by
  obtain ⟨second, rest, rfl⟩ := List.exists_cons_of_ne_nil more
  rw [root, leaves_eq]
  rfl

end

theorem leaves_of_sorted {m : SortedMap MapKey Bytes}
    (sorted : m.toList.Pairwise fun a b =>
      (compare (Leaf.key a) (Leaf.key b)).isLE = true) :
    leaves m = m.toList :=
  List.mergeSort_of_pairwise sorted

end AuthenticatedMap

end MerkleProof
