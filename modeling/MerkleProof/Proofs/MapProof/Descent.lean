import MerkleProof.Proofs.MapProof.Cut
import MerkleProof.Proofs.MapProof.Root

/-! From the root down: a proof that has the root of a map is a cut through the map's trie.
The two forms of a root, for a single entry and for a branch, are told apart by their
lengths but for one case. -/

namespace MerkleProof.MapProof

open TrieKey Trie AuthenticatedMap

theorem known_entries {p : MapProof} {e : Entry} {es : List Entry}
    (entries_eq : p.entries = e :: es) (ascending : Ascending Entry.key p.entries) :
    Known p.hashed Entry.subtree Entry.value? e es where
  values := by
    intro a member v value
    rw [← entries_eq] at member
    exact List.mem_append_left _ (List.mem_filterMap.mpr ⟨a, member, value⟩)
  branches := by
    cases es with
    | nil => simp
    | cons e' es =>
        rw [entries_eq] at ascending
        have subtrees : Ascending Subtree.key ((e :: e' :: es).map Entry.subtree) :=
          List.pairwise_map.mpr ascending
        rw [hashed, entries_eq, hashedByJoin]
        exact List.Subset.trans (Contour.hashed_subset subtrees)
          (List.subset_append_right _ _)

theorem known_leaves {m : SortedMap MapKey Bytes} {l : Leaf} {ls : List Leaf}
    (leaves_eq : leaves m = l :: ls) :
    Known (AuthenticatedMap.hashed m) Leaf.subtree (fun l => some l.2) l ls where
  values := by
    rintro a member v value
    cases value
    exact List.mem_append_left _
      (List.mem_map_of_mem (mem_toList_of_leaves leaves_eq member))
  branches := by
    cases ls with
    | nil => simp
    | cons l' ls =>
        rw [AuthenticatedMap.hashed, leaves_eq]
        exact List.subset_append_right _ _

theorem single_mem_hashed_map {m : SortedMap MapKey Bytes} {l : Leaf}
    (leaves_eq : leaves m = [l]) :
    (singlePreimage l.subtree).bytes ∈ AuthenticatedMap.hashed m := by
  rw [AuthenticatedMap.hashed, leaves_eq, bytes_singlePreimage]
  exact List.mem_append_right _ List.mem_cons_self

theorem single_mem_hashed_proof {p : MapProof} {key : MapKey} {digest : Digest}
    {value : Bytes} (entries_eq : p.entries = [.leaf key digest value]) :
    (singlePreimage ⟨.leaf key, digest⟩).bytes ∈ p.hashed := by
  rw [hashed, entries_eq]
  exact List.mem_append_right _ List.mem_cons_self

theorem exists_root_eq {m : SortedMap MapKey Bytes} {l : Leaf} {ls : List Leaf}
    (leaves_eq : leaves m = l :: ls) :
    ∃ s ∈ AuthenticatedMap.hashed m, root m = sha256 s := by
  have known := known_leaves leaves_eq
  have ascending := ascending_of_leaves leaves_eq
  by_cases more : ls = []
  · subst more
    exact ⟨_, single_mem_hashed_map leaves_eq, root_of_single leaves_eq⟩
  · rw [root_of_leaves leaves_eq more]
    obtain ⟨left, middle, right, rfl, fork⟩ := exists_fork ascending more
    exact ⟨_, (known.of_fork fork).1, Trie.Fork.digest_build Leaf.subtree fork⟩

theorem exists_joined_eq {p : MapProof} {e : Entry} {es : List Entry} {joined : Digest}
    (entries_eq : p.entries = e :: es) (ascending : Ascending Entry.key p.entries)
    (joins : joinEntries p.entries = .ok joined) : ∃ s ∈ p.hashed, joined = sha256 s := by
  have known := known_entries entries_eq ascending
  rw [entries_eq] at ascending joins
  by_cases more : es = []
  · subst more
    cases e with
    | branch key digest => contradiction
    | leaf key digest value =>
        cases joins
        exact ⟨_, single_mem_hashed_proof entries_eq, rfl⟩
  · rw [joinEntries_of_ascending ascending more] at joins
    cases joins
    obtain ⟨left, middle, right, rfl, fork⟩ := exists_fork ascending more
    exact ⟨_, (known.of_fork fork).1, Trie.Fork.digest_build Entry.subtree fork⟩

inductive CutOf (m : SortedMap MapKey Bytes) (p : MapProof) : Prop
  | empty (leaves_eq : leaves m = []) (entries_eq : p.entries = [])
  | trie {l : Leaf} {ls : List Leaf} (leaves_eq : leaves m = l :: ls)
      (cut : Cut p.entries l ls)

/-- A map of a single entry is hashed to 66 bytes, and so is a branch whose children are
both at the empty key.  The two strings can only be the same if the end of the key and the
digest of the value are a digest from the proof with two zeros after it. -/
def ShiftFree (m : SortedMap MapKey Bytes) (p : MapProof) : Prop :=
  m.size = 1 → (∃ e ∈ p.entries, e.key.size = 0) → ∀ l ∈ m.toList, ∀ s ∈ p.hashed,
    l.1.toList.drop 30 ++ (sha256 l.2).toList ≠ (sha256 s).toList ++ [0, 0]

instance (m : SortedMap MapKey Bytes) (p : MapProof) : Decidable (ShiftFree m p) :=
  inferInstanceAs (Decidable (m.size = 1 → (∃ e ∈ p.entries, e.key.size = 0) →
    ∀ l ∈ m.toList, ∀ s ∈ p.hashed,
      l.1.toList.drop 30 ++ (sha256 l.2).toList ≠ (sha256 s).toList ++ [0, 0]))

theorem exists_empty_of_not_shiftFree {m : SortedMap MapKey Bytes} {p : MapProof}
    (shifted : ¬ShiftFree m p) : ∃ e ∈ p.entries, e.key.size = 0 := by
  by_contra none
  exact shifted fun _ empty => absurd empty none

section

variable {m : SortedMap MapKey Bytes} {p : MapProof} {e : Entry}
  {es : List Entry} {l : Leaf} {ls : List Leaf}

theorem cut_of_singles
    (free : Digest.CollisionFree (AuthenticatedMap.hashed m ++ p.hashed))
    (entries_eq : p.entries = [e]) (leaves_eq : leaves m = [l])
    (ascending : Ascending Entry.key p.entries)
    (genuine : ∀ a ∈ p.entries, a.isGenuine = true)
    (joins : joinEntries p.entries = .ok (root m)) : Cut p.entries l [] := by
  have known := (known_entries entries_eq ascending).mono
    (List.subset_append_right (AuthenticatedMap.hashed m) p.hashed)
  have known' := (known_leaves leaves_eq).mono
    (List.subset_append_left (AuthenticatedMap.hashed m) p.hashed)
  have ascending' := ascending_of_leaves leaves_eq
  rw [entries_eq] at joins genuine ⊢
  rw [root_of_single leaves_eq] at joins
  cases e with
  | branch key digest => contradiction
  | leaf key digest value =>
      have here := List.mem_append_right (AuthenticatedMap.hashed m)
        (single_mem_hashed_proof entries_eq)
      have here' := List.mem_append_left p.hashed (single_mem_hashed_map leaves_eq)
      obtain ⟨same, aligned⟩ :=
        singlePreimage_inj (free _ here _ here' (Except.ok.inj joins))
      rw [← build_nil l.subtree] at aligned same
      exact Cut.of_single free known known' ascending'
        (genuine _ List.mem_cons_self) aligned same

theorem shifted_of_branch
    (free : Digest.CollisionFree (AuthenticatedMap.hashed m ++ p.hashed))
    (entries_eq : p.entries = e :: es) (leaves_eq : leaves m = [l]) (more : es ≠ [])
    (ascending : Ascending Entry.key p.entries)
    (joins : joinEntries p.entries = .ok (root m)) :
    e.key.size = 0 ∧ ∃ s ∈ p.hashed,
      l.1.toList.drop 30 ++ (sha256 l.2).toList = (sha256 s).toList ++ [0, 0] := by
  have known := known_entries entries_eq ascending
  rw [entries_eq] at ascending joins
  rw [joinEntries_of_ascending ascending more, root_of_single leaves_eq] at joins
  have digests := Except.ok.inj joins
  obtain ⟨left, middle, right, rfl, fork⟩ := exists_fork ascending more
  rw [Trie.Fork.digest_build Entry.subtree fork] at digests
  obtain ⟨here, -, on_right⟩ := known.of_fork fork
  have same := free _ (List.mem_append_right (AuthenticatedMap.hashed m) here) _
    (List.mem_append_left p.hashed (single_mem_hashed_map leaves_eq)) digests
  exact on_right.of_single_eq_branch fork same.symm

theorem not_single_of_branch
    (free : Digest.CollisionFree (AuthenticatedMap.hashed m ++ p.hashed))
    (entries_eq : p.entries = [e]) (leaves_eq : leaves m = l :: ls) (more : ls ≠ [])
    (joins : joinEntries p.entries = .ok (root m)) : False := by
  have known := known_leaves leaves_eq
  have ascending := ascending_of_leaves leaves_eq
  rw [entries_eq, root_of_leaves leaves_eq more] at joins
  cases e with
  | branch key digest => contradiction
  | leaf key digest value =>
      have digests := Except.ok.inj joins
      obtain ⟨left, middle, right, rfl, fork⟩ := exists_fork ascending more
      rw [Trie.Fork.digest_build Leaf.subtree fork] at digests
      obtain ⟨here', -, on_right⟩ := known.of_fork fork
      have same := free
        _ (List.mem_append_right (AuthenticatedMap.hashed m)
          (single_mem_hashed_proof entries_eq))
        _ (List.mem_append_left p.hashed here') digests
      have empty := (on_right.of_single_eq_branch fork same).1
      exact absurd (show 256 = 0 from empty) (by decide)

theorem cut_of_branches
    (free : Digest.CollisionFree (AuthenticatedMap.hashed m ++ p.hashed))
    (entries_eq : p.entries = e :: es) (leaves_eq : leaves m = l :: ls) (more : es ≠ [])
    (more' : ls ≠ []) (ascending : Ascending Entry.key p.entries)
    (genuine : ∀ a ∈ p.entries, a.isGenuine = true)
    (joins : joinEntries p.entries = .ok (root m)) : Cut p.entries l ls := by
  have known := (known_entries entries_eq ascending).mono
    (List.subset_append_right (AuthenticatedMap.hashed m) p.hashed)
  have known' := (known_leaves leaves_eq).mono
    (List.subset_append_left (AuthenticatedMap.hashed m) p.hashed)
  have ascending' := ascending_of_leaves leaves_eq
  rw [entries_eq] at ascending genuine joins ⊢
  rw [joinEntries_of_ascending ascending more, root_of_leaves leaves_eq more'] at joins
  exact Cut.of_digest_eq free ascending ascending' known known' genuine
    (.inl ⟨more, more'⟩) (Except.ok.inj joins)

theorem cut_of_joined (free : Digest.CollisionFree (AuthenticatedMap.hashed m ++ p.hashed))
    (nonzero : Digest.Nonzero (AuthenticatedMap.hashed m ++ p.hashed))
    (ascending : Ascending Entry.key p.entries)
    (genuine : ∀ a ∈ p.entries, a.isGenuine = true)
    (joins : joinEntries p.entries = .ok (root m)) :
    CutOf m p ∨ ¬ShiftFree m p := by
  cases entries_eq : p.entries with
  | nil =>
      cases leaves_eq : leaves m with
      | nil => exact .inl (.empty leaves_eq entries_eq)
      | cons l ls =>
          obtain ⟨s, member, root_eq⟩ := exists_root_eq leaves_eq
          rw [entries_eq] at joins
          have zero : sha256 s = Digest.empty :=
            root_eq.symm.trans (Except.ok.inj joins).symm
          exact absurd zero (nonzero s (List.mem_append_left _ member))
  | cons e es =>
      cases leaves_eq : leaves m with
      | nil =>
          obtain ⟨s, member, root_eq⟩ := exists_joined_eq entries_eq ascending joins
          rw [root, leaves_eq] at root_eq
          exact absurd root_eq.symm (nonzero s (List.mem_append_right _ member))
      | cons l ls =>
          by_cases single : es = [] <;> by_cases single' : ls = []
          · subst single single'
            exact .inl (.trie leaves_eq
              (cut_of_singles free entries_eq leaves_eq ascending genuine joins))
          · subst single
            exact (not_single_of_branch free entries_eq leaves_eq single' joins).elim
          · subst single'
            have size : m.size = 1 := by
              rw [← length_leaves, leaves_eq]
              rfl
            have member := mem_toList_of_leaves leaves_eq List.mem_cons_self
            obtain ⟨empty, s, hashed, shifted⟩ :=
              shifted_of_branch free entries_eq leaves_eq single ascending joins
            have at_empty : ∃ a ∈ p.entries, a.key.size = 0 := by
              rw [entries_eq]
              exact ⟨e, List.mem_cons_self, empty⟩
            exact .inr fun shift_free =>
              shift_free size at_empty l member s hashed shifted
          · exact .inl (.trie leaves_eq
              (cut_of_branches free entries_eq leaves_eq single single' ascending
                genuine joins))

end

end MerkleProof.MapProof
