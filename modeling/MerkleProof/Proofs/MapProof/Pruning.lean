import MerkleProof.Proofs.MapProof.Check
import MerkleProof.Proofs.MapProof.Root

/-! A part of a map proof can be pruned: a trie does not change when groups of neighbouring
subtrees are replaced by the tries over them. -/

namespace MerkleProof.MapProof

open TrieKey Trie

namespace Trie

/-- Neighbouring subtrees, of which there is at least one. -/
structure Group where
  first : Subtree
  rest : List Subtree

namespace Group

def lone (s : Subtree) : Group := ⟨s, []⟩

def items (g : Group) : List Subtree := g.first :: g.rest

def node (g : Group) : Subtree := build g.first g.rest

def key (g : Group) : TrieKey := g.node.key

theorem flatMap_lone (subtrees : List Subtree) :
    (subtrees.map lone).flatMap items = subtrees := by
  rw [List.flatMap_map]
  exact List.flatMap_singleton' subtrees

@[simp] theorem node_lone (s : Subtree) : (lone s).node = s := build_nil s

theorem map_lone (subtrees : List Subtree) : (subtrees.map lone).map node = subtrees := by
  rw [List.map_map]
  exact List.map_id'' node_lone subtrees

/-- A key is not under the group's.  A lone subtree stays as it is, so
anything may be under it. -/
def Excludes (g : Group) (k : TrieKey) : Prop :=
  g.rest = [] ∨ commonLength g.key k < g.key.size

def Apart (g h : Group) : Prop := g.Excludes h.key ∧ h.Excludes g.key

variable {g h : Group} {a b : Subtree} {k : TrieKey}

theorem Apart.symm (apart : g.Apart h) : h.Apart g := And.symm apart

theorem apart_lone (s t : Subtree) : (lone s).Apart (lone t) := ⟨.inl rfl, .inl rfl⟩

theorem pairwise_lone (subtrees : List Subtree) : (subtrees.map lone).Pairwise Apart :=
  List.pairwise_map.mpr (List.pairwise_of_forall apart_lone)

theorem eq_node (alone : g.rest = []) (member : a ∈ g.items) : a = g.node := by
  rw [items, alone] at member
  rw [node, alone, build_nil]
  exact List.mem_singleton.mp member

theorem commonLength_key (ascending : Ascending Subtree.key g.items)
    (member : a ∈ g.items) : commonLength g.key a.key = g.key.size :=
  commonLength_build ascending member

/-- What a key shares with the members of a group that it is not under is what it shares
with the group's key. -/
theorem Excludes.commonLength_eq (excludes : g.Excludes k)
    (ascending : Ascending Subtree.key g.items) (member : a ∈ g.items) :
    commonLength a.key k = commonLength g.key k := by
  rcases excludes with alone | above
  · rw [eq_node alone member, key]
  · apply commonLength_of_lt
    rw [commonLength_comm a.key, commonLength_key ascending member]
    exact above

theorem Apart.commonLength_eq (apart : g.Apart h)
    (on_left : Ascending Subtree.key g.items) (on_right : Ascending Subtree.key h.items)
    (a_mem : a ∈ g.items) (b_mem : b ∈ h.items) :
    commonLength a.key b.key = commonLength g.key h.key := by
  obtain ⟨left, right⟩ := apart
  have across : commonLength g.key b.key = commonLength g.key h.key := by
    rw [commonLength_comm, right.commonLength_eq on_right b_mem, commonLength_comm]
  have excludes : g.Excludes b.key := by
    rw [Excludes, across]
    exact left
  rw [excludes.commonLength_eq on_left a_mem, across]

theorem Apart.compare_eq_lt (apart : g.Apart h) (on_left : Ascending Subtree.key g.items)
    (on_right : Ascending Subtree.key h.items)
    (less : compare g.first.key h.first.key = .lt) : compare g.key h.key = .lt := by
  have left_key := commonLength_key on_left List.mem_cons_self
  have right_key := commonLength_key on_right List.mem_cons_self
  rw [lt_iff,
    apart.commonLength_eq on_left on_right List.mem_cons_self List.mem_cons_self] at less
  obtain ⟨inside, set⟩ := less
  have inside_key : commonLength g.key h.key < h.key.size := by
    rcases apart.2 with alone | above
    · rw [eq_node alone List.mem_cons_self] at inside
      exact inside
    · rw [commonLength_comm]
      exact above
  refine lt_iff.mpr ⟨inside_key, ?_⟩
  intro longer
  have longer_first := commonLength_le_right g.key g.first.key
  rw [bit_eq_of_lt_commonLength (right_key ▸ inside_key)]
  exact set (by omega)

end Group

/-- Groups whose members ascend from one to the next, and that are apart. -/
structure Grouped (groups : List Group) : Prop where
  ascending : Ascending Subtree.key (groups.flatMap Group.items)
  apart : groups.Pairwise Group.Apart

namespace Grouped

variable {groups few : List Group} {first middle : Group} {left right rest : List Group}

theorem of_mem (grouped : Grouped groups) {g : Group} (member : g ∈ groups) :
    Ascending Subtree.key g.items :=
  (List.pairwise_flatMap.mp grouped.ascending).1 g member

theorem sublist (grouped : Grouped groups) (kept : few.Sublist groups) : Grouped few where
  ascending := by
    obtain ⟨inside, across⟩ := List.pairwise_flatMap.mp grouped.ascending
    exact List.pairwise_flatMap.mpr
      ⟨fun g member => inside g (kept.subset member), across.sublist kept⟩
  apart := grouped.apart.sublist kept

theorem ascending_keys (grouped : Grouped groups) : Ascending Group.key groups := by
  have across := (List.pairwise_flatMap.mp grouped.ascending).2
  refine (across.and grouped.apart).imp_of_mem ?_
  intro g h g_mem h_mem ⟨less, apart⟩
  exact apart.compare_eq_lt (grouped.of_mem g_mem) (grouped.of_mem h_mem)
    (less _ List.mem_cons_self _ List.mem_cons_self)

theorem shares {n : Nat} (grouped : Grouped groups) (shares : Shares Group.key n groups) :
    Shares Subtree.key n (groups.flatMap Group.items) := by
  intro a a_mem b b_mem
  obtain ⟨g, g_mem, a_in⟩ := List.mem_flatMap.mp a_mem
  obtain ⟨h, h_mem, b_in⟩ := List.mem_flatMap.mp b_mem
  have between := shares g g_mem h h_mem
  have above := Group.commonLength_key (grouped.of_mem g_mem) a_in
  have above' := Group.commonLength_key (grouped.of_mem h_mem) b_in
  have size := commonLength_le_left g.key h.key
  have size' := commonLength_le_right g.key h.key
  have outer := min_commonLength_le a.key g.key b.key
  have inner := min_commonLength_le g.key h.key b.key
  rw [commonLength_comm a.key] at outer
  omega

theorem last_mem_items (first : Group) (rest : List Group) :
    last first.first (first.rest ++ rest.flatMap Group.items) ∈
      (last first rest).items := by
  induction rest generalizing first with
  | nil =>
      rw [List.flatMap_nil, List.append_nil]
      exact last_mem first.first first.rest
  | cons next rest ih =>
      have later := ih next
      rw [← last_append first.first first.rest] at later
      exact later

theorem gap_eq (grouped : Grouped (first :: (left ++ middle :: right))) :
    gap Subtree.key first.first (first.rest ++ left.flatMap Group.items) middle.first =
      gap Group.key first left middle := by
  have ordered := List.pairwise_append.mp
    (show ((first :: left) ++ (middle :: right)).Pairwise _ from grouped.apart)
  have apart := ordered.2.2 _ (last_mem first left) middle List.mem_cons_self
  have on_left :=
    grouped.of_mem (List.mem_append_left (middle :: right) (last_mem first left))
  have on_right :=
    grouped.of_mem (List.mem_append_right (first :: left) List.mem_cons_self)
  exact
    apart.commonLength_eq on_left on_right (last_mem_items first left) List.mem_cons_self

theorem fork (grouped : Grouped (first :: (left ++ middle :: right)))
    (forked : Fork Group.key first left middle right) :
    Fork Subtree.key first.first (first.rest ++ left.flatMap Group.items) middle.first
      (middle.rest ++ right.flatMap Group.items) where
  ascending := by
    have whole := grouped.ascending
    rw [List.flatMap_cons, List.flatMap_append, List.flatMap_cons] at whole
    simpa [Group.items] using whole
  inner := by
    rw [grouped.gap_eq]
    have on_left :=
      grouped.sublist (List.sublist_append_left (first :: left) (middle :: right))
    rcases forked.inner with alone | shares
    · subst alone
      have apart := (List.pairwise_cons.mp grouped.apart).1 middle List.mem_cons_self
      rcases apart.1 with lone | above
      · exact .inl (by rw [lone, List.flatMap_nil, List.append_nil])
      · refine .inr (on_left.shares ?_)
        intro a a_mem b b_mem
        rw [List.mem_singleton.mp a_mem, List.mem_singleton.mp b_mem, commonLength_self]
        exact above
    · exact .inr (on_left.shares shares)
  outer := by
    rw [grouped.gap_eq]
    have on_right :=
      grouped.sublist (List.sublist_append_right (first :: left) (middle :: right))
    exact on_right.shares forked.outer

/-- The trie over the tries over groups is the one over all their members. -/
theorem build_eq (grouped : Grouped (first :: rest)) :
    build first.first (first.rest ++ rest.flatMap Group.items) =
      build first.node (rest.map Group.node) := by
  have ascending := grouped.ascending_keys
  revert grouped
  refine fork_induction ?single ?join ascending
  case single =>
      intro first _
      rw [List.flatMap_nil, List.append_nil, List.map_nil, build_nil, Group.node]
  case join =>
      intro first left middle right forked on_left on_right grouped
      have left_eq := on_left
        (grouped.sublist (List.sublist_append_left (first :: left) (middle :: right)))
      have right_eq := on_right
        (grouped.sublist (List.sublist_append_right (first :: left) (middle :: right)))
      have nodes : Fork Subtree.key first.node (left.map Group.node) middle.node
          (right.map Group.node) := Trie.Fork.map (f := Group.node) forked
      have members := grouped.fork forked
      have regroup : first.rest ++ (left ++ middle :: right).flatMap Group.items =
          (first.rest ++ left.flatMap Group.items) ++
            middle.first :: (middle.rest ++ right.flatMap Group.items) := by
        simp [Group.items]
      rw [regroup, List.map_append, List.map_cons, members.build_eq, nodes.build_eq,
        ← members.commonPrefix_build, ← nodes.commonPrefix_build, left_eq, right_eq]

end Grouped

end Trie

section

variable {entries : List Entry}

theorem joinEntries_of_subtrees {first second : Subtree} {rest : List Subtree}
    (subtrees_eq : entries.map Entry.subtree = first :: second :: rest)
    (ascending : Ascending Subtree.key (first :: second :: rest)) :
    joinEntries entries = .ok (build first (second :: rest)).digest := by
  obtain ⟨a, others, rfl, rfl, others_eq⟩ := List.map_eq_cons_iff.mp subtrees_eq
  obtain ⟨b, others, rfl, rfl, rfl⟩ := List.map_eq_cons_iff.mp others_eq
  have in_order : Ascending Subtree.key ((a :: b :: others).map Entry.subtree) := ascending
  exact joinEntries_of_ascending (List.pairwise_map.mp in_order) (List.cons_ne_nil _ _)

theorem joinEntries_of_grouped {entries' : List Entry} {groups : List Group}
    (grouped : Grouped groups) (several : 2 ≤ groups.length)
    (items_eq : entries.map Entry.subtree = groups.flatMap Group.items)
    (nodes_eq : entries'.map Entry.subtree = groups.map Group.node) :
    ∃ root, joinEntries entries = .ok root ∧ joinEntries entries' = .ok root := by
  rcases groups with _ | ⟨g, _ | ⟨h, groups⟩⟩
  · contradiction
  · contradiction
  · have same := grouped.build_eq
    have members := grouped.ascending
    have nodes : Ascending Subtree.key ((g :: h :: groups).map Group.node) :=
      List.pairwise_map.mpr grouped.ascending_keys
    obtain ⟨second, rest, rest_eq⟩ := List.exists_cons_of_ne_nil
      (show g.rest ++ (h :: groups).flatMap Group.items ≠ [] by simp [Group.items])
    rw [List.flatMap_cons, Group.items, List.cons_append, rest_eq] at members items_eq
    rw [rest_eq] at same
    refine ⟨_, joinEntries_of_subtrees items_eq members, ?_⟩
    rw [same]
    exact joinEntries_of_subtrees nodes_eq nodes

end

/-! One group of entries. -/

section

variable {before group after : List Entry} {first : Entry}

def prunedDigest (first : Entry) (group : List Entry) : Digest :=
  (build first.subtree (group.map Entry.subtree)).digest

/-- The entry that is left when a part of a trie is pruned. -/
def pruned (first : Entry) (group : List Entry) : Entry :=
  .branch (rootKey Entry.key first group) (prunedDigest first group)

def groupsAround (before : List Entry) (first : Entry)
    (group after : List Entry) : List Group :=
  (before.map Entry.subtree).map .lone ++
    ⟨first.subtree, group.map Entry.subtree⟩ :: (after.map Entry.subtree).map .lone

theorem items_groupsAround : (groupsAround before first group after).flatMap Group.items =
    (before ++ first :: group ++ after).map Entry.subtree := by
  rw [groupsAround, List.flatMap_append, List.flatMap_cons, Group.flatMap_lone,
    Group.flatMap_lone]
  simp [Group.items]

theorem subtree_pruned (ascending : Ascending Entry.key (first :: group))
    (several : group ≠ []) :
    (pruned first group).subtree = build first.subtree (group.map Entry.subtree) := by
  have subtrees : Ascending Subtree.key ((first :: group).map Entry.subtree) :=
    List.pairwise_map.mpr ascending
  have key := key_build subtrees (by simpa using several)
  rw [rootKey_map] at key
  exact congrArg (Subtree.mk · (prunedDigest first group)) key.symm

theorem nodes_groupsAround (ascending : Ascending Entry.key (first :: group))
    (several : group ≠ []) :
    (groupsAround before first group after).map Group.node =
      (before ++ pruned first group :: after).map Entry.subtree := by
  rw [groupsAround, List.map_append, List.map_cons, Group.map_lone, Group.map_lone,
    List.map_append, List.map_cons, subtree_pruned ascending several, Group.node]

theorem ascending_group
    (ascending : Ascending Entry.key (before ++ first :: group ++ after)) :
    Ascending Entry.key (first :: group) :=
  List.Pairwise.sublist ((List.sublist_append_right before _).trans
    (List.sublist_append_left _ after)) ascending

theorem apart_of_not_under (ascending : Ascending Entry.key (first :: group))
    (several : group ≠ []) {e : Entry}
    (outside : (rootKey Entry.key first group).isPrefixOf e.key = false) :
    Group.Apart ⟨first.subtree, group.map Entry.subtree⟩ (.lone e.subtree) := by
  refine ⟨.inr ?_, .inl rfl⟩
  rw [Group.key, Group.key, Group.node_lone, Group.node,
    ← subtree_pruned ascending several]
  exact isPrefixOf_eq_false_iff.mp outside

theorem grouped_groupsAround
    (ascending : Ascending Entry.key (before ++ first :: group ++ after))
    (several : group ≠ [])
    (whole : ∀ e ∈ before ++ after,
      (rootKey Entry.key first group).isPrefixOf e.key = false) :
    Grouped (groupsAround before first group after) where
  ascending := by
    rw [items_groupsAround]
    exact List.pairwise_map.mpr ascending
  apart := by
    have apart (e : Entry) (member : e ∈ before ++ after) :=
      apart_of_not_under (ascending_group ascending) several (whole e member)
    refine List.pairwise_append.mpr
      ⟨Group.pairwise_lone _, List.pairwise_cons.mpr ⟨?_, Group.pairwise_lone _⟩, ?_⟩
    · simp only [List.forall_mem_map]
      intro e later
      exact apart e (List.mem_append_right before later)
    · simp only [List.forall_mem_map, List.forall_mem_cons]
      intro e earlier
      exact ⟨(apart e (List.mem_append_left after earlier)).symm,
        fun _ _ => Group.apart_lone _ _⟩

theorem ascending_pruned
    (ascending : Ascending Entry.key (before ++ first :: group ++ after))
    (several : group ≠ [])
    (whole : ∀ e ∈ before ++ after,
      (rootKey Entry.key first group).isPrefixOf e.key = false) :
    Ascending Entry.key (before ++ pruned first group :: after) := by
  have grouped := grouped_groupsAround ascending several whole
  have nodes :
      Ascending Subtree.key ((groupsAround before first group after).map Group.node) :=
    List.pairwise_map.mpr grouped.ascending_keys
  rw [nodes_groupsAround (ascending_group ascending) several] at nodes
  exact List.pairwise_map.mp nodes

theorem joinEntries_pruned
    (ascending : Ascending Entry.key (before ++ first :: group ++ after))
    (several : group ≠ []) (others : before ++ after ≠ [])
    (whole : ∀ e ∈ before ++ after,
      (rootKey Entry.key first group).isPrefixOf e.key = false) :
    ∃ root, joinEntries (before ++ first :: group ++ after) = .ok root ∧
      joinEntries (before ++ pruned first group :: after) = .ok root := by
  have count : 2 ≤ (groupsAround before first group after).length := by
    have more := List.length_pos_iff.mpr others
    simp only [groupsAround, List.length_append, List.length_map, List.length_cons]
      at more ⊢
    omega
  exact joinEntries_of_grouped (grouped_groupsAround ascending several whole) count
    items_groupsAround.symm (nodes_groupsAround (ascending_group ascending) several).symm

theorem forall_mem_pruned {P : Entry → Prop} (new : P (pruned first group))
    (old : ∀ e ∈ before ++ first :: group ++ after, P e) :
    ∀ e ∈ before ++ pruned first group :: after, P e := by
  intro e member
  rcases List.mem_append.mp member with earlier | here
  · exact old e (List.mem_append_left after (List.mem_append_left _ earlier))
  · rcases List.mem_cons.mp here with rfl | later
    · exact new
    · exact old e (List.mem_append_right _ later)

/-- Pruning a part of a proof keeps its root: entries that are all that is
under their common prefix may be replaced by one, at that prefix and with their
own root as its digest. -/
theorem root_of_pruned (requested : SortedSet MapKey) (config : Config)
    (ascending : Ascending Entry.key (before ++ first :: group ++ after))
    (genuine : ∀ e ∈ before ++ first :: group ++ after, e.isGenuine = true)
    (canonical : config.strictKeys = true →
      ∀ e ∈ before ++ first :: group ++ after, e.key.isCanonical = true)
    (several : group ≠ []) (others : before ++ after ≠ [])
    (whole : ∀ e ∈ before ++ after,
      (rootKey Entry.key first group).isPrefixOf e.key = false) :
    ∃ digest contents contents',
      rootHash config.strictKeys (first :: group) = .ok digest ∧
        check ⟨before ++ first :: group ++ after, requested⟩ config = .ok contents ∧
        check ⟨before ++ .branch (rootKey Entry.key first group) digest :: after,
          requested⟩ config = .ok contents' ∧
        contents'.rootHash = contents.rootHash := by
  obtain ⟨root, joined, joined'⟩ := joinEntries_pruned ascending several others whole
  have inside : first :: group ⊆ before ++ first :: group ++ after :=
    List.subset_append_of_subset_left after (List.subset_append_right before _)
  have members :
      rootHash config.strictKeys (first :: group) = .ok (prunedDigest first group) :=
    rootHash_eq_ok_iff.mpr ⟨fun strict e member => canonical strict e (inside member),
      ascending_group ascending, fun e member => genuine e (inside member),
      joinEntries_of_ascending (ascending_group ascending) several⟩
  have original :
      rootHash config.strictKeys (before ++ first :: group ++ after) = .ok root :=
    rootHash_eq_ok_iff.mpr ⟨canonical, ascending, genuine, joined⟩
  have shorter :
      rootHash config.strictKeys (before ++ pruned first group :: after) = .ok root :=
    rootHash_eq_ok_iff.mpr
      ⟨fun strict => forall_mem_pruned (isCanonical_commonPrefix _ _) (canonical strict),
        ascending_pruned ascending several whole, forall_mem_pruned rfl genuine, joined'⟩
  exact ⟨prunedDigest first group, ⟨root, _, _⟩, ⟨root, _, _⟩, members,
    check_eq_ok_iff.mpr ⟨original, rfl, rfl⟩, check_eq_ok_iff.mpr ⟨shorter, rfl, rfl⟩, rfl⟩

end

/-- A pruned subtree at the key `01`, and what is known of the keys under it. -/
def atPrefix : Entry := .branch (.ofBits [false, true]) (sha256 [1])

def underPrefix : List Entry :=
  [.branch (.ofBits [false, true, false]) (sha256 [2]),
    .ofValue (.ofBits [false, true, true]) [3]]

theorem root_of_pruned_underPrefix :
    ∃ digest contents contents',
      rootHash true (atPrefix :: underPrefix) = .ok digest ∧
        check
            ⟨[.ofValue .zero [0]] ++ atPrefix :: underPrefix ++
              [.ofValue (.ofBits [true]) [4]], ∅⟩
            ⟨63, true⟩ = .ok contents ∧
        check
            ⟨[.ofValue .zero [0]] ++
              .branch (rootKey Entry.key atPrefix underPrefix) digest ::
                [.ofValue (.ofBits [true]) [4]], ∅⟩
            ⟨63, true⟩ = .ok contents' ∧
        contents'.rootHash = contents.rootHash := by
  have ascending : Ascending Entry.key
      ([.ofValue .zero [0]] ++ atPrefix :: underPrefix ++
        [.ofValue (.ofBits [true]) [4]]) := by
    decide +kernel
  exact root_of_pruned ∅ ⟨63, true⟩ ascending (by decide +kernel)
    (by decide +kernel) (by decide) (by decide) (by decide +kernel)

end MerkleProof.MapProof
