import MerkleProof.Proofs.MapProof.Soundness

/-! The proof of any keys that is cut from the trie of a map is accepted, with the map's
root, and it answers every requested key as the map does.  Entries that cut a part of a map
are joined to the digest of that part, whatever they open; what the proof of some keys
opens are the leaves of these keys. -/

namespace MerkleProof.MapProof

open TrieKey Trie AuthenticatedMap

theorem commonLength_eq_of_lt {n : Nat} {a b c d : TrieKey} (left : n < commonLength a c)
    (right : n < commonLength b d) (meet : commonLength c d = n) :
    commonLength a b = n := by
  subst meet
  have on_left : commonLength d a = commonLength c d := by
    rw [commonLength_comm, commonLength_of_lt left]
  have on_right : commonLength b a = commonLength d a :=
    commonLength_of_lt (on_left ▸ right)
  rw [commonLength_comm, on_right, on_left]

namespace Cut

variable {entries : List Entry} {l middle : Leaf} {ls left right : List Leaf}

theorem exists_cons (cut : Cut entries l ls) : ∃ e es, entries = e :: es := by
  induction cut with
  | opened l => exact ⟨_, _, rfl⟩
  | pruned same => exact ⟨_, _, rfl⟩
  | node fork _ _ ih_left _ =>
      obtain ⟨e, es, rfl⟩ := ih_left
      exact ⟨_, _, rfl⟩

theorem isGenuine (cut : Cut entries l ls) : ∀ e ∈ entries, e.isGenuine = true := by
  intro e member
  rcases cut.mem member with ⟨a, -, rfl⟩ | ⟨key, node, -, rfl, -⟩
  · exact decide_eq_true rfl
  · rfl

theorem fork {e e' : Entry} {es es' : List Entry}
    (forked : Fork Leaf.key l left middle right) (on_left : Cut (e :: es) l left)
    (on_right : Cut (e' :: es') middle right)
    (ascending : Ascending Entry.key (e :: es))
    (ascending' : Ascending Entry.key (e' :: es')) :
    Fork Entry.key e es e' es' := by
  have meet := forked.commonLength_eq List.mem_cons_self List.mem_cons_self
  -- the leaves go on past the gap, so each side shares a bit more with its first leaf
  have longer : gap Leaf.key l left middle < l.key.size :=
    (lt_iff.mp (forked.lt_of_mem (last_mem l left) List.mem_cons_self)).1
  have near : ∀ a ∈ e :: es, gap Leaf.key l left middle < commonLength a.key l.key :=
    fun a member =>
      on_left.shares forked.ascending_left (forked.shares_left_succ longer) member
  have near' : ∀ a ∈ e' :: es',
      gap Leaf.key l left middle < commonLength a.key middle.key :=
    fun a member =>
      on_right.shares forked.ascending_right (forked.shares_right_succ longer) member
  have across : ∀ a ∈ e :: es, ∀ b ∈ e' :: es',
      commonLength a.key b.key = gap Leaf.key l left middle :=
    fun a a_mem b b_mem => commonLength_eq_of_lt (near a a_mem) (near' b b_mem) meet
  have gap_eq : gap Entry.key e es e' = gap Leaf.key l left middle :=
    across _ (last_mem e es) e' List.mem_cons_self
  refine ⟨?ascending, .inr ?inner, ?outer⟩
  case ascending =>
      refine List.pairwise_append.mpr ⟨ascending, ascending', ?_⟩
      intro a a_mem b b_mem
      have inside := commonLength_le_left b.key middle.key
      have beyond := near' b b_mem
      rw [lt_iff, across a a_mem b b_mem, bit_eq_of_lt_commonLength beyond]
      exact ⟨by omega, fun _ => (forked.bit_right longer List.mem_cons_self).2⟩
  case inner =>
      intro a a_mem b b_mem
      have shared := min_commonLength_le a.key l.key b.key
      have a_near := near a a_mem
      have b_near := near b b_mem
      rw [commonLength_comm l.key] at shared
      omega
  case outer =>
      intro a a_mem b b_mem
      have shared := min_commonLength_le a.key middle.key b.key
      have a_near := near' a a_mem
      have b_near := near' b b_mem
      rw [commonLength_comm middle.key] at shared
      omega

/-- A cut is a trie of its own, with the root of the part that it cuts. -/
theorem build_alike (cut : Cut entries l ls) (ascending : Ascending Leaf.key (l :: ls))
    {e : Entry} {es : List Entry} (entries_eq : entries = e :: es) :
    Ascending Entry.key (e :: es) ∧ (build e.subtree (es.map Entry.subtree)).Alike
      (build l.subtree (ls.map Leaf.subtree)) := by
  induction cut generalizing e es with
  | opened l =>
      cases entries_eq
      exact ⟨List.pairwise_singleton _ _, .refl _⟩
  | pruned same =>
      cases entries_eq
      refine ⟨List.pairwise_singleton _ _, ?_⟩
      rw [List.map_nil, build_nil]
      exact ⟨rfl, same⟩
  | @node entries entries' first middle left right forked cut_left cut_right
    ih_left ih_right =>
      obtain ⟨a, as, rfl⟩ := cut_left.exists_cons
      obtain ⟨b, bs, rfl⟩ := cut_right.exists_cons
      rw [List.cons_append] at entries_eq
      obtain ⟨rfl, rfl⟩ := List.cons.inj entries_eq
      obtain ⟨ascending_left, left_alike⟩ := ih_left forked.ascending_left rfl
      obtain ⟨ascending_right, right_alike⟩ := ih_right forked.ascending_right rfl
      have entry_fork := cut_left.fork forked cut_right ascending_left ascending_right
      have subtrees : Fork Subtree.key a.subtree (as.map Entry.subtree) b.subtree
          (bs.map Entry.subtree) := Trie.Fork.map (f := Entry.subtree) entry_fork
      have subtrees' : Fork Subtree.key first.subtree (left.map Leaf.subtree)
          middle.subtree (right.map Leaf.subtree) :=
        Trie.Fork.map (f := Leaf.subtree) forked
      refine ⟨entry_fork.ascending, ?_⟩
      rw [List.map_append, List.map_cons, List.map_append, List.map_cons,
        subtrees.build_eq, subtrees'.build_eq, ← subtrees.commonPrefix_build,
        ← subtrees'.commonPrefix_build, commonPrefix_of_eq left_alike.key right_alike.key,
        Subtree.merge_congr left_alike right_alike]
      exact .refl _

/-- Entries that cut a whole map are joined to its root, unless they are a
single pruned one. -/
theorem joinEntries_eq {m : SortedMap MapKey Bytes} (cut : Cut entries l ls)
    (leaves_eq : leaves m = l :: ls)
    (opened : ∀ key digest, entries ≠ [.branch key digest]) :
    joinEntries entries = .ok (root m) := by
  have ascending := ascending_of_leaves leaves_eq
  have built (e : Entry) (es : List Entry) (entries_eq : entries = e :: es) :=
    cut.build_alike ascending entries_eq
  cases cut with
  | opened l =>
      rw [root_of_single leaves_eq]
      rfl
  | pruned same => exact absurd rfl (opened _ _)
  | node forked on_left on_right =>
      obtain ⟨a, as, rfl⟩ := on_left.exists_cons
      obtain ⟨b, bs, rfl⟩ := on_right.exists_cons
      obtain ⟨in_order, alike⟩ := built a (as ++ b :: bs) rfl
      rw [List.cons_append, joinEntries_of_ascending in_order (by simp), alike.digest,
        root_of_leaves leaves_eq (by simp)]

end Cut

/-! What is opened for requested keys. -/

section

variable {requested : List MapKey}

theorem key_build_leaves {first : Leaf} {rest : List Leaf}
    (ascending : Ascending Leaf.key (first :: rest)) :
    (build first.subtree (rest.map Leaf.subtree)).key = rootKey Leaf.key first rest := by
  by_cases more : rest = []
  · subst more
    rw [List.map_nil, build_nil]
    exact (commonPrefix_leaf_self first.1).symm
  · have subtrees : Ascending Subtree.key ((first :: rest).map Leaf.subtree) :=
      List.pairwise_map.mpr ascending
    rw [key_build subtrees (by simpa using more), rootKey_map]
    rfl

theorem cut_of_unasked {first : Leaf} {rest : List Leaf}
    (unasked : ∀ k ∈ requested,
      (rootKey Leaf.key first rest).isPrefixOf (.leaf k) = false) :
    cut requested first rest =
      [.branch (rootKey Leaf.key first rest)
        (AuthenticatedMap.subtree first rest).digest] := by
  rw [cut.eq_def]
  exact if_neg (by simpa using unasked)

theorem cut_single_of_asked {l : Leaf} {k : MapKey} (asked : k ∈ requested)
    (under : (rootKey Leaf.key l []).isPrefixOf (.leaf k) = true) :
    cut requested l [] = [l.entry] := by
  rw [cut, if_pos (List.any_eq_true.mpr ⟨k, asked, under⟩)]

theorem cut_fork_of_asked {first middle : Leaf} {left right : List Leaf} {k : MapKey}
    (fork : Fork Leaf.key first left middle right) (asked : k ∈ requested)
    (under :
      (rootKey Leaf.key first (left ++ middle :: right)).isPrefixOf (.leaf k) = true) :
    cut requested first (left ++ middle :: right) =
      cut requested first left ++ cut requested middle right := by
  obtain ⟨next, others, same, parts⟩ := fork.exists_split
  rw [same] at under ⊢
  rw [cut, if_pos (List.any_eq_true.mpr ⟨k, asked, under⟩)]
  split
  · rename_i whole
    rw [parts] at whole
    cases whole
  · rename_i whole
    rw [parts] at whole
    cases whole
    rfl

/-- Entries that open a part of a map as far as requested keys may lie below. -/
inductive CutFor (requested : List MapKey) : List Entry → Leaf → List Leaf → Prop
  | opened (l : Leaf) : CutFor requested [l.entry] l []
  | pruned {first : Leaf} {rest : List Leaf}
      (ascending : Ascending Leaf.key (first :: rest))
      (unasked : ∀ k ∈ requested,
        (rootKey Leaf.key first rest).isPrefixOf (.leaf k) = false) :
      CutFor requested
        [.branch (rootKey Leaf.key first rest)
          (AuthenticatedMap.subtree first rest).digest]
        first rest
  | node {entries entries' : List Entry} {first middle : Leaf} {left right : List Leaf}
      (fork : Fork Leaf.key first left middle right)
      (on_left : CutFor requested entries first left)
      (on_right : CutFor requested entries' middle right) :
      CutFor requested (entries ++ entries') first (left ++ middle :: right)

theorem cutFor_cut (requested : List MapKey) {first : Leaf} {rest : List Leaf}
    (ascending : Ascending Leaf.key (first :: rest)) :
    CutFor requested (cut requested first rest) first rest := by
  have prune {first : Leaf} {rest : List Leaf}
      (ascending : Ascending Leaf.key (first :: rest))
      (none : ¬∃ k ∈ requested,
        (rootKey Leaf.key first rest).isPrefixOf (.leaf k) = true) :
      CutFor requested (cut requested first rest) first rest := by
    have unasked : ∀ k ∈ requested,
        (rootKey Leaf.key first rest).isPrefixOf (.leaf k) = false := by simpa using none
    rw [cut_of_unasked unasked]
    exact .pruned ascending unasked
  refine fork_induction ?single ?join ascending
  case single =>
      intro l
      by_cases some_asked :
        ∃ k ∈ requested, (rootKey Leaf.key l []).isPrefixOf (.leaf k) = true
      · obtain ⟨k, asked, under⟩ := some_asked
        rw [cut_single_of_asked asked under]
        exact .opened l
      · exact prune (List.pairwise_singleton _ _) some_asked
  case join =>
      intro first left middle right fork on_left on_right
      by_cases some_asked : ∃ k ∈ requested,
          (rootKey Leaf.key first (left ++ middle :: right)).isPrefixOf (.leaf k) = true
      · obtain ⟨k, asked, under⟩ := some_asked
        rw [cut_fork_of_asked fork asked under]
        exact .node fork on_left on_right
      · exact prune fork.ascending some_asked

namespace CutFor

variable {entries : List Entry} {first : Leaf} {rest : List Leaf}

theorem cut (part : CutFor requested entries first rest) : Cut entries first rest := by
  induction part with
  | opened l => exact .opened l
  | pruned ascending unasked =>
      refine .pruned ?_
      rw [key_build_leaves ascending]
      exact Std.ReflOrd.compare_self
  | node fork _ _ ih_left ih_right => exact .node fork ih_left ih_right

theorem isCanonical (part : CutFor requested entries first rest) :
    ∀ e ∈ entries, e.key.isCanonical = true := by
  induction part with
  | opened l => exact List.forall_mem_singleton.mpr (isCanonical_leaf l.1)
  | pruned _ _ => exact List.forall_mem_singleton.mpr (isCanonical_commonPrefix _ _)
  | node _ _ _ ih_left ih_right => exact List.forall_mem_append.mpr ⟨ih_left, ih_right⟩

theorem entry_mem (part : CutFor requested entries first rest) :
    ∀ a ∈ first :: rest, a.1 ∈ requested → a.entry ∈ entries := by
  induction part with
  | opened l =>
      intro a member _
      rw [List.mem_singleton.mp member]
      exact List.mem_cons_self
  | @pruned first rest ascending unasked =>
      intro a member asked
      have subtrees : Ascending Subtree.key ((first :: rest).map Leaf.subtree) :=
        List.pairwise_map.mpr ascending
      have above := commonLength_build subtrees (List.mem_map_of_mem member)
      rw [key_build_leaves ascending] at above
      have under : (rootKey Leaf.key first rest).isPrefixOf (.leaf a.1) = true :=
        isPrefixOf_iff.mpr above
      rw [unasked a.1 asked] at under
      contradiction
  | @node entries entries' first middle left right _ _ _ ih_left ih_right =>
      intro a member asked
      rw [← List.cons_append] at member
      rcases List.mem_append.mp member with inside | inside
      · exact List.mem_append_left _ (ih_left a inside asked)
      · exact List.mem_append_right _ (ih_right a inside asked)

end CutFor

variable {m : SortedMap MapKey Bytes} {first : Leaf} {rest : List Leaf}

theorem proofEntries_cases (requested : List MapKey)
    (leaves_eq : leaves m = first :: rest) :
    rest = [] ∧ proofEntries m requested = [first.entry] ∨
      ∃ left middle right, rest = left ++ middle :: right ∧
        Fork Leaf.key first left middle right ∧
        proofEntries m requested =
          cut requested first left ++ cut requested middle right := by
  by_cases more : rest = []
  · subst more
    exact .inl ⟨rfl, by rw [proofEntries, leaves_eq]⟩
  · obtain ⟨left, middle, right, rfl, fork⟩ :=
      exists_fork (ascending_of_leaves leaves_eq) more
    refine .inr ⟨left, middle, right, rfl, fork, ?_⟩
    obtain ⟨next, others, same, parts⟩ := fork.exists_split
    rw [same] at leaves_eq
    rw [proofEntries, leaves_eq]
    dsimp only
    rw [parts]

theorem cutFor_proofEntries (requested : List MapKey)
    (leaves_eq : leaves m = first :: rest) :
    CutFor requested (proofEntries m requested) first rest := by
  rcases proofEntries_cases requested leaves_eq with
    ⟨rfl, entries_eq⟩ | ⟨left, middle, right, rfl, fork, entries_eq⟩
  · rw [entries_eq]
    exact .opened first
  · rw [entries_eq]
    exact .node fork (cutFor_cut requested fork.ascending_left)
      (cutFor_cut requested fork.ascending_right)

theorem proofEntries_ne_pruned (requested : List MapKey)
    (leaves_eq : leaves m = first :: rest) (key : TrieKey) (digest : Digest) :
    proofEntries m requested ≠ [.branch key digest] := by
  rcases proofEntries_cases requested leaves_eq with
    ⟨rfl, entries_eq⟩ | ⟨left, middle, right, rfl, fork, entries_eq⟩
  · rw [entries_eq]
    rintro ⟨⟩
  · obtain ⟨a, as, left_eq⟩ := (cutFor_cut requested fork.ascending_left).cut.exists_cons
    obtain ⟨b, bs, right_eq⟩ := (cutFor_cut requested fork.ascending_right).cut.exists_cons
    rw [entries_eq, left_eq, right_eq]
    simp

end

section

variable (m : SortedMap MapKey Bytes) (requested : SortedSet MapKey)

theorem cutOf_proof : CutOf m (proof m requested) := by
  cases leaves_eq : leaves m with
  | nil => exact .empty leaves_eq (by rw [proof, proofEntries, leaves_eq])
  | cons first rest => exact .trie leaves_eq (cutFor_proofEntries _ leaves_eq).cut

theorem rootHash_proof (strict : Bool) :
    rootHash strict (proof m requested).entries = .ok (root m) := by
  rw [proof]
  cases leaves_eq : leaves m with
  | nil =>
      rw [proofEntries, root, leaves_eq]
      cases strict <;> rfl
  | cons first rest =>
      have part := cutFor_proofEntries requested.toList leaves_eq
      have cut := part.cut
      obtain ⟨e, es, entries_eq⟩ := cut.exists_cons
      have ascending := (cut.build_alike (ascending_of_leaves leaves_eq) entries_eq).1
      refine rootHash_eq_ok_iff.mpr ⟨fun _ => ?_, entries_eq ▸ ascending,
        cut.isGenuine, ?_⟩
      · exact part.isCanonical
      · exact cut.joinEntries_eq leaves_eq (proofEntries_ne_pruned _ leaves_eq)

theorem reveals_proof {k : MapKey} (asked : requested.contains k = true)
    (held : m.contains k = true) : (proof m requested).reveals k = true := by
  obtain ⟨v, found⟩ := SortedMap.contains_iff.mp held
  have member := mem_leaves_iff.mpr found
  cases leaves_eq : leaves m with
  | nil =>
      rw [leaves_eq] at member
      contradiction
  | cons first rest =>
      rw [leaves_eq] at member
      have opened := (cutFor_proofEntries requested.toList leaves_eq).entry_mem _ member
        (SortedMap.mem_keys_iff.mpr asked)
      exact reveals_iff.mpr ⟨sha256 v, v, opened⟩

theorem present_proof : (proof m requested).present = m.filter requested.contains := by
  have held : ∀ {k v}, (proof m requested).present.get? k = some v →
      requested.contains k = true ∧ m.get? k = some v := by
    intro k v found
    obtain ⟨asked, digest, member⟩ := leaf_of_present found
    exact ⟨asked, (cutOf_proof m requested).get?_of_leaf member⟩
  apply SortedMap.ext_get?
  intro k
  ext v
  rw [SortedMap.get?_filter, Option.ite_none_right_eq_some]
  constructor
  · exact held
  · rintro ⟨asked, found⟩
    have shown : (proof m requested).present.contains k = true := by
      have revealed :=
        reveals_proof m requested asked (SortedMap.contains_iff.mpr ⟨v, found⟩)
      rw [contains_present, revealed, Bool.and_true]
      exact asked
    obtain ⟨w, shown⟩ := SortedMap.contains_iff.mp shown
    have same := (held shown).2
    rw [found] at same
    rw [shown, same]

theorem missing_proof :
    (proof m requested).missing = requested.filter fun k => !m.contains k := by
  rw [missing, present_proof]
  apply SortedMap.filter_congr
  intro k asked
  rw [SortedMap.contains_filter, show requested.contains k = true from asked,
    Bool.and_true]

/-- The proof of any keys for a map is accepted, has the map's root and
answers as the map does. -/
theorem check_proof (config : Config) :
    check (proof m requested) config =
        .ok ⟨root m, m.filter requested.contains,
          requested.filter fun k => !m.contains k⟩ ∧
      ∀ k, (check (proof m requested) config).get k =
        if requested.contains k then .ok (m.get? k) else .error (.keyNotRequested k) := by
  have checked : check (proof m requested) config =
      .ok ⟨root m, m.filter requested.contains, requested.filter fun k => !m.contains k⟩ :=
    check_eq_ok_iff.mpr ⟨rootHash_proof m requested _, (present_proof m requested).symm,
      (missing_proof m requested).symm⟩
  refine ⟨checked, ?_⟩
  intro k
  rw [checked, Checked.get_ok]
  dsimp only
  rw [SortedMap.get?_filter, SortedMap.contains_filter]
  cases asked : requested.contains k with
  | false => rfl
  | true =>
      cases found : m.get? k with
      | some v => rfl
      | none =>
          have absent : m.contains k = false := by rw [SortedMap.contains, found]; rfl
          rw [absent]
          rfl

end

end MerkleProof.MapProof
