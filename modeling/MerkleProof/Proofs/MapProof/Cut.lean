import MerkleProof.Proofs.AuthenticatedMap
import MerkleProof.Proofs.Digest
import MerkleProof.Proofs.MapProof.Hashed
import MerkleProof.Proofs.MapProof.Contour

/-! Cuts through the trie of a map.  Entries that are hashed to the same digest
as a part of the map are a cut through that part, as long as no two strings
that are hashed collide. -/

namespace MerkleProof.MapProof

open TrieKey Trie AuthenticatedMap

/-- What the branches and the values of some items are hashed from is among the strings. -/
structure Known {α : Type} (strings : List Bytes) (subtree : α → Subtree)
    (value? : α → Option Bytes) (first : α) (rest : List α) : Prop where
  values : ∀ a ∈ first :: rest, ∀ v ∈ value? a, v ∈ strings
  branches : Trie.hashed (subtree first) (rest.map subtree) ⊆ strings

namespace Known

variable {α : Type} {strings : List Bytes} {subtree : α → Subtree}
  {value? : α → Option Bytes} {first middle : α} {left right : List α}

theorem mono {more : List Bytes} (known : Known strings subtree value? first left)
    (subset : strings ⊆ more) : Known more subtree value? first left where
  values := fun a member v value => subset (known.values a member v value)
  branches := List.Subset.trans known.branches subset

theorem of_fork (known : Known strings subtree value? first (left ++ middle :: right))
    (fork : Fork (fun a => (subtree a).key) first left middle right) :
    (branchPreimage (build (subtree first) (left.map subtree))
        (build (subtree middle) (right.map subtree))).bytes ∈ strings ∧
      Known strings subtree value? first left ∧
        Known strings subtree value? middle right := by
  obtain ⟨values, branches⟩ := known
  rw [List.map_append, List.map_cons, fork.map.hashed_eq] at branches
  obtain ⟨here, below⟩ := List.cons_subset.mp branches
  obtain ⟨on_left, on_right⟩ := List.append_subset.mp below
  refine ⟨here, ⟨?_, on_left⟩, ⟨?_, on_right⟩⟩
  · intro a member
    exact values a (List.mem_append_left (middle :: right) member)
  · intro a member
    exact values a (List.mem_append_right (first :: left) member)

end Known

namespace Trie.Fork

variable {α : Type} (subtree : α → Subtree) {first middle : α} {left right : List α}

theorem digest_build (fork : Fork (fun a => (subtree a).key) first left middle right) :
    (build (subtree first) ((left ++ middle :: right).map subtree)).digest =
      sha256 (branchPreimage (build (subtree first) (left.map subtree))
        (build (subtree middle) (right.map subtree))).bytes := by
  rw [List.map_append, List.map_cons, fork.map.build_eq]
  rfl

theorem size_build_lt (fork : Fork (fun a => (subtree a).key) first left middle right) :
    (build (subtree first) ((left ++ middle :: right).map subtree)).key.size < 256 := by
  have less := (lt_iff.mp (fork.lt_of_mem (last_mem first left) List.mem_cons_self)).1
  have bound := (subtree middle).key.size_le
  rw [List.map_append, List.map_cons, fork.map.build_eq, Subtree.merge, size_commonPrefix,
    last_map]
  omega

end Trie.Fork

/-- A branch that is hashed like a map of a single entry has an item at the empty key, and
its right child is a branch itself. -/
theorem Known.of_single_eq_branch {α : Type} {strings : List Bytes} {subtree : α → Subtree}
    {value? : α → Option Bytes} {first middle : α} {left right : List α} {k : MapKey}
    {digest : Digest} (known : Known strings subtree value? middle right)
    (fork : Fork (fun a => (subtree a).key) first left middle right)
    (same : (singlePreimage ⟨.leaf k, digest⟩).bytes =
      (branchPreimage (build (subtree first) (left.map subtree))
        (build (subtree middle) (right.map subtree))).bytes) :
    (subtree first).key.size = 0 ∧
      ∃ s ∈ strings, k.toList.drop 30 ++ digest.toList = (sha256 s).toList ++ [0, 0] := by
  obtain ⟨left_size, right_size, shifted⟩ := single_eq_branch same
  have on_left : Ascending Subtree.key ((first :: left).map subtree) :=
    List.pairwise_map.mpr fork.ascending_left
  have nothing_shared :
      ∀ n, Shares (fun a => (subtree a).key) n (first :: left) → n = 0 := by
    intro n shares
    have mapped : Shares Subtree.key n ((first :: left).map subtree) := shares.map
    have bound := le_commonLength_build on_left mapped List.mem_cons_self
    have root := commonLength_le_left (build (subtree first) (left.map subtree)).key
      (subtree first).key
    omega
  constructor
  · -- if the first key went on past the gap, the left side would share a bit
    apply Nat.eq_zero_of_not_pos
    intro positive
    have none := nothing_shared _ fork.shares_left
    have some := nothing_shared _ (fork.shares_left_succ (none ▸ positive))
    omega
  · have more : right ≠ [] := by
      rintro rfl
      have less := (lt_iff.mp (fork.lt_of_mem (last_mem first left) List.mem_cons_self)).1
      rw [List.map_nil, build_nil] at right_size
      omega
    obtain ⟨left', middle', right', rfl, fork'⟩ := exists_fork fork.ascending_right more
    refine ⟨_, (known.of_fork fork').1, ?_⟩
    rw [shifted, Trie.Fork.digest_build subtree fork']

/-- A cut through the part of a map that is under one node: every leaf of the part is
opened, or stands under a pruned node. -/
inductive Cut : List Entry → Leaf → List Leaf → Prop
  | opened (l : Leaf) : Cut [l.entry] l []
  | pruned {key : TrieKey} {first : Leaf} {rest : List Leaf}
      (same : compare key (build first.subtree (rest.map Leaf.subtree)).key = .eq) :
      Cut [.branch key (build first.subtree (rest.map Leaf.subtree)).digest] first rest
  | node {entries entries' : List Entry} {first middle : Leaf} {left right : List Leaf}
      (fork : Fork Leaf.key first left middle right) (on_left : Cut entries first left)
      (on_right : Cut entries' middle right) :
      Cut (entries ++ entries') first (left ++ middle :: right)

def Entry.covers (k : MapKey) (e : Entry) : Bool := e.key.isPrefixOf (.leaf k)

theorem Entry.covers_leaf_iff {k key : MapKey} {digest : Digest} {value : Bytes} :
    (Entry.leaf key digest value).covers k = true ↔ key = k := by
  rw [covers, isPrefixOf_iff, key_leaf]
  constructor
  · intro whole
    exact eq_of_leaf
      (eq_iff.mpr ⟨rfl, fun i inside => bit_eq_of_lt_commonLength (whole ▸ inside)⟩)
  · rintro rfl
    exact commonLength_self _

namespace Cut

variable {strings : List Bytes} {e : Entry} {es : List Entry} {l : Leaf} {ls : List Leaf}

theorem of_single (free : Digest.CollisionFree strings)
    (known : Known strings Entry.subtree Entry.value? e [])
    (known' : Known strings Leaf.subtree (fun l => some l.2) l ls)
    (ascending : Ascending Leaf.key (l :: ls)) (genuine : e.isGenuine = true)
    (aligned : compare e.key (build l.subtree (ls.map Leaf.subtree)).key = .eq)
    (same : e.digest = (build l.subtree (ls.map Leaf.subtree)).digest) : Cut [e] l ls := by
  cases e with
  | branch key digest =>
      rw [show digest = (build l.subtree (ls.map Leaf.subtree)).digest from same]
      exact .pruned aligned
  | leaf key digest value =>
      by_cases more : ls = []
      · subst more
        obtain ⟨k, v⟩ := l
        rw [List.map_nil, build_nil] at aligned same
        have key_eq : key = k := eq_of_leaf aligned
        have digest_eq : digest = sha256 value := of_decide_eq_true genuine
        have value_eq : value = v :=
          free value (known.values _ List.mem_cons_self _ rfl) v
            (known'.values _ List.mem_cons_self _ rfl) (digest_eq.symm.trans same)
        subst key_eq value_eq digest_eq
        exact .opened (key, value)
      · -- a leaf is at no branch
        obtain ⟨left, middle, right, rfl, fork⟩ := exists_fork ascending more
        have short := Trie.Fork.size_build_lt Leaf.subtree fork
        rw [← (eq_iff.mp aligned).1] at short
        exact absurd short (Nat.lt_irrefl 256)

/-- Entries and a part of a map with the same digest.  If both are branches, or both are at
the same key, the entries are a cut through the part. -/
theorem of_digest_eq (free : Digest.CollisionFree strings)
    (ascending : Ascending Entry.key (e :: es)) (ascending' : Ascending Leaf.key (l :: ls))
    (known : Known strings Entry.subtree Entry.value? e es)
    (known' : Known strings Leaf.subtree (fun l => some l.2) l ls)
    (genuine : ∀ a ∈ e :: es, a.isGenuine = true)
    (aligned : es ≠ [] ∧ ls ≠ [] ∨ compare (build e.subtree (es.map Entry.subtree)).key
      (build l.subtree (ls.map Leaf.subtree)).key = .eq)
    (same : (build e.subtree (es.map Entry.subtree)).digest =
      (build l.subtree (ls.map Leaf.subtree)).digest) :
    Cut (e :: es) l ls := by
  revert l ls
  revert known genuine
  refine fork_induction ?single ?join ascending
  case single =>
      intro e known genuine l ls ascending' known' aligned same
      rw [List.map_nil, build_nil] at aligned same
      exact of_single free known known' ascending' (genuine e List.mem_cons_self)
        (aligned.resolve_left (fun both => both.1 rfl)) same
  case join =>
      intro e left middle right fork ih_left ih_right known genuine l ls ascending' known'
        aligned same
      have more : ls ≠ [] := by
        rintro rfl
        have keys := aligned.resolve_left (fun both => both.2 rfl)
        have short := Trie.Fork.size_build_lt Entry.subtree fork
        rw [(eq_iff.mp keys).1, List.map_nil, build_nil] at short
        exact absurd short (Nat.lt_irrefl 256)
      -- two branches with one digest, so their children are hashed alike
      obtain ⟨left', middle', right', rfl, fork'⟩ := exists_fork ascending' more
      obtain ⟨here, on_left, on_right⟩ := known.of_fork fork
      obtain ⟨here', on_left', on_right'⟩ := known'.of_fork fork'
      rw [Trie.Fork.digest_build Entry.subtree fork,
        Trie.Fork.digest_build Leaf.subtree fork'] at same
      obtain ⟨⟨left_digest, left_key⟩, right_digest, right_key⟩ :=
        branchPreimage_inj (free _ here _ here' same)
      rw [← List.cons_append]
      refine .node fork' ?_ ?_
      · exact ih_left on_left (fun a member =>
          genuine a (List.mem_append_left (middle :: right) member)) fork'.ascending_left
            on_left' (.inr left_key) left_digest
      · exact ih_right on_right (fun a member =>
          genuine a (List.mem_append_right (e :: left) member)) fork'.ascending_right
            on_right' (.inr right_key) right_digest

/-! What is in a cut. -/

theorem mem {entries : List Entry} (cut : Cut entries l ls) {e : Entry}
    (member : e ∈ entries) :
    (∃ a ∈ l :: ls, e = a.entry) ∨
      ∃ key, ∃ node ∈ nodes l.subtree (ls.map Leaf.subtree),
        e = .branch key node.digest ∧ compare key node.key = .eq := by
  induction cut with
  | opened l => exact .inl ⟨l, List.mem_cons_self, List.mem_singleton.mp member⟩
  | @pruned key first rest same =>
      exact .inr ⟨key, _, build_mem_nodes _ _, List.mem_singleton.mp member, same⟩
  | @node entries entries' first middle left right fork _ _ ih_left ih_right =>
      have below := Trie.Fork.nodes_eq (Trie.Fork.map (f := Leaf.subtree) fork)
      rw [List.map_append, List.map_cons, below]
      rcases List.mem_append.mp member with on_left | on_right
      · rcases ih_left on_left with ⟨a, a_mem, rfl⟩ | ⟨key, node, node_mem, same⟩
        · exact .inl ⟨a, List.mem_append_left (middle :: right) a_mem, rfl⟩
        · exact .inr
            ⟨key, node, List.mem_cons_of_mem _ (List.mem_append_left _ node_mem), same⟩
      · rcases ih_right on_right with ⟨a, a_mem, rfl⟩ | ⟨key, node, node_mem, same⟩
        · exact .inl ⟨a, List.mem_append_right (first :: left) a_mem, rfl⟩
        · exact .inr
            ⟨key, node, List.mem_cons_of_mem _ (List.mem_append_right _ node_mem), same⟩

theorem shares {n : Nat} {entries : List Entry} (cut : Cut entries l ls)
    (ascending : Ascending Leaf.key (l :: ls)) (shares : Shares Leaf.key n (l :: ls))
    {e : Entry} (member : e ∈ entries) : n ≤ commonLength e.key l.key := by
  induction cut with
  | opened l =>
      rcases List.mem_singleton.mp member with rfl
      exact shares l List.mem_cons_self l List.mem_cons_self
  | @pruned key first rest same =>
      rcases List.mem_singleton.mp member with rfl
      rw [Entry.key_branch, commonLength_congr same]
      have subtrees : Ascending Subtree.key ((first :: rest).map Leaf.subtree) :=
        List.pairwise_map.mpr ascending
      have mapped : Shares Subtree.key n ((first :: rest).map Leaf.subtree) :=
        Shares.map shares
      exact le_commonLength_build subtrees mapped List.mem_cons_self
  | @node entries entries' first middle left right fork _ _ ih_left ih_right =>
      rcases List.mem_append.mp member with on_left | on_right
      · exact ih_left fork.ascending_left
          (shares.subset (List.subset_append_left (first :: left) (middle :: right)))
          on_left
      · have inside : middle ∈ first :: (left ++ middle :: right) := by simp
        have across := shares middle inside first List.mem_cons_self
        have under := ih_right fork.ascending_right
          (shares.subset (List.subset_append_right (first :: left) (middle :: right)))
          on_right
        have least := min_commonLength_le e.key middle.key first.key
        omega

theorem not_covers {n : Nat} {e : Entry} {a b : Leaf}
    (apart : commonLength a.key b.key ≤ n) (shares : n + 1 ≤ commonLength e.key a.key) :
    e.covers b.1 = false := by
  apply eq_false_of_ne_true
  intro covers
  have whole : commonLength e.key b.key = e.key.size := isPrefixOf_iff.mp covers
  have bound := commonLength_le_left e.key a.key
  have least := min_commonLength_le a.key e.key b.key
  rw [commonLength_comm a.key e.key] at least
  omega

/-- Every leaf under the node stands under exactly one entry of the cut. -/
theorem filter_covers {entries : List Entry} (cut : Cut entries l ls)
    (ascending : Ascending Leaf.key (l :: ls)) {a : Leaf} (member : a ∈ l :: ls) :
    ∃ e, entries.filter (Entry.covers a.1) = [e] := by
  induction cut with
  | opened l =>
      rcases List.mem_singleton.mp member with rfl
      have covers : a.entry.covers a.1 = true := Entry.covers_leaf_iff.mpr rfl
      exact ⟨a.entry, by rw [List.filter_cons_of_pos covers, List.filter_nil]⟩
  | @pruned key first rest same =>
      have subtrees : Ascending Subtree.key ((first :: rest).map Leaf.subtree) :=
        List.pairwise_map.mpr ascending
      have covers :
          (Entry.branch key
            (build first.subtree (rest.map Leaf.subtree)).digest).covers a.1 = true := by
        apply isPrefixOf_iff.mpr
        rw [Entry.key_branch, commonLength_congr same, (eq_iff.mp same).1]
        exact commonLength_build subtrees (List.mem_map_of_mem member)
      exact ⟨_, by rw [List.filter_cons_of_pos covers, List.filter_nil]⟩
  | @node entries entries' first middle left right fork cut_left cut_right
    ih_left ih_right =>
      have longer : gap Leaf.key first left middle < first.key.size :=
        (lt_iff.mp (fork.lt_of_mem (last_mem first left) List.mem_cons_self)).1
      -- entries on one side share a bit more with their side than with a leaf on the other
      rw [List.filter_append]
      rcases List.mem_append.mp
        (show a ∈ (first :: left) ++ (middle :: right) from member) with on_left | on_right
      · have meet := fork.commonLength_eq on_left List.mem_cons_self
        have none : entries'.filter (Entry.covers a.1) = [] := by
          apply List.filter_eq_nil_iff.mpr
          intro e e_mem
          have shares :=
            cut_right.shares fork.ascending_right (fork.shares_right_succ longer) e_mem
          rw [commonLength_comm] at meet
          simp [not_covers (Nat.le_of_eq meet) shares]
        rw [none, List.append_nil]
        exact ih_left fork.ascending_left on_left
      · have meet := fork.commonLength_eq List.mem_cons_self on_right
        have none : entries.filter (Entry.covers a.1) = [] := by
          apply List.filter_eq_nil_iff.mpr
          intro e e_mem
          have shares :=
            cut_left.shares fork.ascending_left (fork.shares_left_succ longer) e_mem
          simp [not_covers (Nat.le_of_eq meet) shares]
        rw [none, List.nil_append]
        exact ih_right fork.ascending_right on_right

end Cut

end MerkleProof.MapProof
