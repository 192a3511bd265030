import MerkleProof.Proofs.MapProof.Check
import MerkleProof.Proofs.MapProof.Descent

/-! What a map proof shows that has the root of a map.  Its entries are a cut through the
map's trie, so what it reveals is in the map.  A requested key that it does not reveal may
still be in the map, under an entry that is pruned. -/

namespace MerkleProof.MapProof

open TrieKey Trie AuthenticatedMap

/-- The pruned subtrees that the key would be under. -/
def pruning (p : MapProof) (k : MapKey) : List Entry :=
  p.entries.filter fun e => e.mapKey?.isNone && e.covers k

theorem mem_pruning {p : MapProof} {e : Entry} (member : e ∈ p.entries)
    (empty : e.key.size = 0) (k : MapKey) : e ∈ p.pruning k := by
  have covers : e.covers k = true := by
    have bound := commonLength_le_left e.key (.leaf k)
    exact isPrefixOf_iff.mpr (by omega)
  refine List.mem_filter.mpr ⟨member, ?_⟩
  cases e with
  | leaf key digest value => contradiction
  | branch key digest => exact covers

theorem CutOf.mem {m : SortedMap MapKey Bytes} {p : MapProof} {e : Entry}
    (cut : CutOf m p) (member : e ∈ p.entries) :
    (∃ a ∈ leaves m, e = a.entry) ∨
      ∃ key, ∃ node ∈ AuthenticatedMap.nodes m,
        e = .branch key node.digest ∧ compare key node.key = .eq := by
  cases cut with
  | empty leaves_eq entries_eq =>
      rw [entries_eq] at member
      contradiction
  | trie leaves_eq cut =>
      rw [AuthenticatedMap.nodes, leaves_eq]
      exact cut.mem member

theorem CutOf.get?_of_leaf {m : SortedMap MapKey Bytes} {p : MapProof} {k : MapKey}
    {digest : Digest} {v : Bytes} (cut : CutOf m p)
    (member : Entry.leaf k digest v ∈ p.entries) : m.get? k = some v := by
  rcases cut.mem member with ⟨a, a_mem, same⟩ | ⟨key, node, node_mem, same, -⟩
  · cases same
    exact mem_leaves_iff.mp a_mem
  · contradiction

theorem CutOf.node_of_branch {m : SortedMap MapKey Bytes} {p : MapProof} {key : TrieKey}
    {digest : Digest} (cut : CutOf m p) (member : Entry.branch key digest ∈ p.entries) :
    ∃ node ∈ AuthenticatedMap.nodes m,
      compare key node.key = .eq ∧ digest = node.digest := by
  rcases cut.mem member with ⟨a, a_mem, same⟩ | ⟨key, node, node_mem, same, aligned⟩
  · contradiction
  · cases same
    exact ⟨node, node_mem, aligned, rfl⟩

/-- Every key of the map is revealed, or stands under one pruned subtree. -/
theorem CutOf.covered {m : SortedMap MapKey Bytes} {p : MapProof} {k : MapKey}
    (cut : CutOf m p) (held : m.contains k = true) :
    (p.reveals k = true ∧ p.pruning k = []) ∨
      (p.reveals k = false ∧ ∃ e, p.pruning k = [e]) := by
  obtain ⟨v, found⟩ := SortedMap.contains_iff.mp held
  have member := mem_leaves_iff.mpr found
  have ascending := ascending_leaves m
  cases cut with
  | empty leaves_eq entries_eq =>
      rw [leaves_eq] at member
      contradiction
  | trie leaves_eq cut =>
      rw [leaves_eq] at member ascending
      obtain ⟨e, alone⟩ := cut.filter_covers ascending member
      have pruning : p.pruning k = [e].filter fun e => e.mapKey?.isNone := by
        rw [← alone, List.filter_filter]
        rfl
      have inside : e ∈ p.entries ∧ e.covers k = true := by
        rw [← List.mem_filter, alone]
        exact List.mem_cons_self
      cases e with
      | leaf key digest value =>
          obtain rfl := Entry.covers_leaf_iff.mp inside.2
          exact .inl ⟨reveals_iff.mpr ⟨digest, value, inside.1⟩, pruning⟩
      | branch key digest =>
          refine .inr ⟨?_, _, pruning⟩
          apply eq_false_of_ne_true
          intro revealed
          obtain ⟨digest', value, leaf⟩ := reveals_iff.mp revealed
          have also := List.mem_filter.mpr ⟨leaf, Entry.covers_leaf_iff.mpr rfl⟩
          rw [alone] at also
          cases List.mem_singleton.mp also

/-! A map of two entries, and a proof that prunes the first of them
although it is requested. -/

def twoEntries : SortedMap MapKey Bytes :=
  .ofList [(Bytes32.zero, [1]), (.ofBits [true], [2])]

def prunedRequest : MapProof :=
  ⟨[.branch (.leaf Bytes32.zero) (sha256 [1]), .ofValue (.ofBits [true]) [2]],
    .ofList [Bytes32.zero, .ofBits [true]]⟩

theorem leaves_twoEntries :
    leaves twoEntries = [(Bytes32.zero, [1]), (.ofBits [true], [2])] :=
  leaves_of_sorted (by decide +kernel)

theorem check_prunedRequest : check prunedRequest .default =
    .ok ⟨root twoEntries, .ofList [(.ofBits [true], [2])], .ofList [Bytes32.zero]⟩ := by
  rw [root_of_leaves leaves_twoEntries (List.cons_ne_nil _ _)]
  decide +kernel

theorem collisionFree_twoEntries :
    Digest.CollisionFree (AuthenticatedMap.hashed twoEntries ++ prunedRequest.hashed) := by
  rw [AuthenticatedMap.hashed, leaves_twoEntries]
  decide +kernel

theorem nonzero_twoEntries :
    Digest.Nonzero (AuthenticatedMap.hashed twoEntries ++ prunedRequest.hashed) := by
  rw [AuthenticatedMap.hashed, leaves_twoEntries]
  decide +kernel

/-! Soundness. -/

section

variable {m : SortedMap MapKey Bytes} {p : MapProof} {config : Config}
  {contents : Contents}

theorem cut_of_check (checked : check p config = .ok contents)
    (same : contents.rootHash = root m)
    (free : Digest.CollisionFree (AuthenticatedMap.hashed m ++ p.hashed))
    (nonzero : Digest.Nonzero (AuthenticatedMap.hashed m ++ p.hashed)) :
    CutOf m p ∨ ¬ShiftFree m p := by
  obtain ⟨accepted, -, -⟩ := check_eq_ok_iff.mp checked
  obtain ⟨-, ascending, genuine, joins⟩ := rootHash_eq_ok_iff.mp accepted
  rw [same] at joins
  exact cut_of_joined free nonzero ascending genuine joins

/-- The entries of an accepted proof that has the root of a map are a cut through the
map's trie, and what is got from it is in the map.  Freedom from collisions leaves one
case open: the only entry of a map may be hashed from the very bytes that a branch of
the proof is hashed from. -/
theorem entries_cut_map (checked : check p config = .ok contents)
    (same : contents.rootHash = root m)
    (free : Digest.CollisionFree (AuthenticatedMap.hashed m ++ p.hashed))
    (nonzero : Digest.Nonzero (AuthenticatedMap.hashed m ++ p.hashed)) :
    ((∀ k digest v, Entry.leaf k digest v ∈ p.entries → m.get? k = some v) ∧
      (∀ key digest, Entry.branch key digest ∈ p.entries →
        ∃ node ∈ AuthenticatedMap.nodes m,
          compare key node.key = .eq ∧ digest = node.digest) ∧
      (∀ k, m.contains k = true → (p.reveals k = true ∧ p.pruning k = []) ∨
        (p.reveals k = false ∧ ∃ e, p.pruning k = [e])) ∧
      ∀ k v, (check p config).get k = .ok (some v) → m.get? k = some v) ∨
      ¬ShiftFree m p := by
  refine (cut_of_check checked same free nonzero).imp_left fun cut => ?_
  have leaf_held : ∀ k digest v, Entry.leaf k digest v ∈ p.entries →
      m.get? k = some v := by
    intro k digest v member
    exact cut.get?_of_leaf member
  refine ⟨leaf_held, ?_, fun k held => cut.covered held, ?_⟩
  · intro key digest member
    exact cut.node_of_branch member
  · intro k v got
    rw [get_eq_some_iff checked, (check_eq_ok_iff.mp checked).2.1] at got
    obtain ⟨-, digest, member⟩ := leaf_of_present got
    exact leaf_held k digest v member

/-- A key of the map is only reported as missing if it is requested and stands
under a pruned subtree.  The converse needs that the map's only entry is not
hashed like a branch. -/
theorem missing_held_iff_pruned (checked : check p config = .ok contents)
    (same : contents.rootHash = root m)
    (free : Digest.CollisionFree (AuthenticatedMap.hashed m ++ p.hashed))
    (nonzero : Digest.Nonzero (AuthenticatedMap.hashed m ++ p.hashed)) {k : MapKey}
    (held : m.contains k = true) :
    ((check p config).get k = .ok none ↔ contents.missing.contains k = true) ∧
      ((check p config).containsKey k = .ok false ↔ contents.missing.contains k = true) ∧
      (contents.missing.contains k = true →
        p.requested.contains k = true ∧ p.pruning k ≠ []) ∧
      (ShiftFree m p → p.requested.contains k = true → p.pruning k ≠ [] →
        contents.missing.contains k = true) := by
  refine ⟨get_eq_none_iff checked, containsKey_eq_false_iff checked, ?_⟩
  rw [(check_eq_ok_iff.mp checked).2.2, contains_missing]
  rcases cut_of_check checked same free nonzero with cut | shifted
  · rcases cut.covered held with ⟨revealed, none⟩ | ⟨hidden, e, pruned⟩
    · simp [revealed, none]
    · simp [hidden, pruned]
  · refine ⟨?_, fun shift_free => absurd shift_free shifted⟩
    intro absent
    obtain ⟨e, member, empty⟩ := exists_empty_of_not_shiftFree shifted
    exact ⟨((Bool.and_eq_true _ _).mp absent).1,
      List.ne_nil_of_mem (mem_pruning member empty k)⟩

theorem missing_held_iff_pruned_prunedRequest :
    twoEntries.contains Bytes32.zero = true ∧
      prunedRequest.requested.contains Bytes32.zero = true ∧
        prunedRequest.pruning Bytes32.zero ≠ [] := by
  have held : twoEntries.contains Bytes32.zero = true := by decide +kernel
  have pruned := missing_held_iff_pruned check_prunedRequest rfl collisionFree_twoEntries
    nonzero_twoEntries held
  exact ⟨held, pruned.2.2.1 (by decide +kernel)⟩

/-- A key that is reported as missing may be in the map. -/
theorem not_forall_missing_absent :
    ¬∀ (m : SortedMap MapKey Bytes) (p : MapProof) (config : Config) (contents : Contents),
      check p config = .ok contents → contents.rootHash = root m →
      Digest.CollisionFree (AuthenticatedMap.hashed m ++ p.hashed) →
      Digest.Nonzero (AuthenticatedMap.hashed m ++ p.hashed) →
      ∀ k, contents.missing.contains k = true → m.contains k = false := by
  intro claim
  have absent := claim twoEntries prunedRequest .default _ check_prunedRequest rfl
    collisionFree_twoEntries nonzero_twoEntries Bytes32.zero (by decide +kernel)
  have held : twoEntries.contains Bytes32.zero = true := by decide +kernel
  rw [held] at absent
  contradiction

end

end MerkleProof.MapProof
