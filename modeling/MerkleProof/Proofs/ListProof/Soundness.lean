import MerkleProof.Proofs.Digest
import MerkleProof.Proofs.ListProof.Hashed
import MerkleProof.Proofs.ListProof.Position

/-! What a list proof shows that has the root of a list.  Values and branches are
hashed alike, so a value may pass for a branch and the other way round; where no value
does, or where the elements are as deep as the list's values, every element is the
value of the list at its index. -/

namespace MerkleProof.ListProof

open AuthenticatedList

theorem getElem?_of_take {values : List Bytes} {n i : Nat} {v : Bytes}
    (found : (values.take n)[i]? = some v) : values[i]? = some v := by
  rw [List.getElem?_take] at found
  split at found
  · exact found
  · contradiction

/-- A proof tree and a part of a list have the same digest, and what is hashed for both
is among the strings. -/
structure Agrees (strings : List Bytes) (n : Node) (h : Nat)
    (values : List Bytes) : Prop where
  digest : hashAt h values = some n.rootHash
  known : n.hashed ⊆ strings
  known' : values ++ branchStringsAt h values ⊆ strings

namespace Agrees

variable {strings values : List Bytes} {n left right child : Node} {h : Nat} {v : Bytes}

theorem element (free : Digest.CollisionFree strings)
    (agrees : Agrees strings (.element v) 0 values) : values.head? = some v := by
  obtain ⟨digest, known, known'⟩ := agrees
  obtain ⟨value, head, same⟩ := hashAt_zero_eq_some_iff.mp digest
  have here : v ∈ strings := Node.hashed_element_subset_iff.mp known
  have here' : value ∈ strings := known' (List.mem_append_left _ (List.mem_of_head? head))
  rw [head, free v here value here' same]

theorem children {children : List Digest} (free : Digest.CollisionFree strings)
    (known : (branchPreimage children).bytes ∈ strings)
    (known' : branchStringsAt (h + 1) values ⊆ strings)
    (digest : hashAt (h + 1) values = some (branchPreimage children).digest) :
    ∃ first, hashAt h (values.take (2 ^ h)) = some first ∧
      children = first :: (hashAt h (values.drop (2 ^ h))).toList := by
  obtain ⟨first, first_eq, same⟩ := hashAt_succ_eq_some_iff.mp digest
  rw [branchStringsAt_succ first_eq] at known'
  exact ⟨first, first_eq,
    branchPreimage_inj (free _ known _ (known' List.mem_cons_self) same)⟩

theorem below (known' : values ++ branchStringsAt (h + 1) values ⊆ strings)
    {first : Digest} (first_eq : hashAt h (values.take (2 ^ h)) = some first) :
    values.take (2 ^ h) ++ branchStringsAt h (values.take (2 ^ h)) ⊆ strings ∧
      values.drop (2 ^ h) ++ branchStringsAt h (values.drop (2 ^ h)) ⊆ strings := by
  rw [branchStringsAt_succ first_eq] at known'
  obtain ⟨listed, branches⟩ := List.append_subset.mp known'
  obtain ⟨-, parts⟩ := List.cons_subset.mp branches
  obtain ⟨on_left, on_right⟩ := List.append_subset.mp parts
  constructor
  · exact List.append_subset.mpr
      ⟨List.Subset.trans (List.take_subset _ _) listed, on_left⟩
  · exact List.append_subset.mpr
      ⟨List.Subset.trans (List.drop_subset _ _) listed, on_right⟩

theorem branch (free : Digest.CollisionFree strings)
    (agrees : Agrees strings (.branch left right) (h + 1) values) :
    Agrees strings left h (values.take (2 ^ h)) ∧
      Agrees strings right h (values.drop (2 ^ h)) := by
  obtain ⟨digest, known, known'⟩ := agrees
  obtain ⟨here, known_left, known_right⟩ := Node.hashed_branch_subset_iff.mp known
  obtain ⟨first, first_eq, same⟩ :=
    children free here (List.append_subset.mp known').2 digest
  obtain ⟨below_left, below_right⟩ := below known' first_eq
  obtain ⟨rfl, right_eq⟩ := List.cons.inj same
  have right_some : hashAt h (values.drop (2 ^ h)) = some right.rootHash := by
    cases found : hashAt h (values.drop (2 ^ h)) with
    | none =>
        rw [found] at right_eq
        contradiction
    | some digest =>
        rw [found] at right_eq
        exact congrArg some (List.cons.inj right_eq).1.symm
  exact ⟨⟨first_eq, known_left, below_left⟩, ⟨right_some, known_right, below_right⟩⟩

theorem lone (free : Digest.CollisionFree strings)
    (agrees : Agrees strings (.lone child) (h + 1) values) :
    Agrees strings child h (values.take (2 ^ h)) := by
  obtain ⟨digest, known, known'⟩ := agrees
  obtain ⟨here, known_child⟩ := Node.hashed_lone_subset_iff.mp known
  obtain ⟨first, first_eq, same⟩ :=
    children free here (List.append_subset.mp known').2 digest
  obtain ⟨rfl, -⟩ := List.cons.inj same
  exact ⟨first_eq, known_child, (below known' first_eq).1⟩

/-- An element above the values of the list passes for a branch of the list. -/
theorem element_mem_branches (free : Digest.CollisionFree strings)
    (agrees : Agrees strings (.element v) (h + 1) values) :
    v ∈ branchStringsAt (h + 1) values := by
  obtain ⟨digest, known, known'⟩ := agrees
  obtain ⟨first, first_eq, same⟩ := hashAt_succ_eq_some_iff.mp digest
  have here : v ∈ strings := Node.hashed_element_subset_iff.mp known
  have branches := (List.append_subset.mp known').2
  rw [branchStringsAt_succ first_eq] at branches ⊢
  rw [free v here _ (branches List.mem_cons_self) same]
  exact List.mem_cons_self

/-- A branch at the depth of the values passes for one of them. -/
theorem branch_mem_values {children : List Digest} (free : Digest.CollisionFree strings)
    (agrees : Agrees strings n 0 values)
    (inside : (branchPreimage children).bytes ∈ n.branchStrings)
    (root : n.rootHash = (branchPreimage children).digest) :
    (branchPreimage children).bytes ∈ values := by
  obtain ⟨digest, known, known'⟩ := agrees
  obtain ⟨value, head, same⟩ := hashAt_zero_eq_some_iff.mp digest
  rw [root] at same
  have member := List.mem_of_head? head
  have here := known (List.mem_append_right _ inside)
  rw [free _ here value (known' (List.mem_append_left _ member)) same]
  exact member

end Agrees

/-- No value of the list is what is hashed for a branch of the proof, and no element of the
proof is what is hashed for a branch of the list. -/
structure Apart (n : Node) (h : Nat) (values : List Bytes) : Prop where
  listed : ∀ v ∈ values, v ∉ n.branchStrings
  elements : ∀ v ∈ n.values, v ∉ branchStringsAt h values

namespace Apart

variable {values : List Bytes} {left right child : Node} {h : Nat} {first : Digest}

theorem branch (apart : Apart (.branch left right) (h + 1) values)
    (first_eq : hashAt h (values.take (2 ^ h)) = some first) :
    Apart left h (values.take (2 ^ h)) ∧ Apart right h (values.drop (2 ^ h)) := by
  obtain ⟨listed, elements⟩ := apart
  rw [branchStringsAt_succ first_eq] at elements
  refine ⟨⟨fun v member inside => ?_, fun v member inside => ?_⟩,
    ⟨fun v member inside => ?_, fun v member inside => ?_⟩⟩
  · exact listed v (List.mem_of_mem_take member)
      (List.mem_cons_of_mem _ (List.mem_append_left _ inside))
  · exact elements v (List.mem_append_left _ member)
      (List.mem_cons_of_mem _ (List.mem_append_left _ inside))
  · exact listed v (List.mem_of_mem_drop member)
      (List.mem_cons_of_mem _ (List.mem_append_right _ inside))
  · exact elements v (List.mem_append_right _ member)
      (List.mem_cons_of_mem _ (List.mem_append_right _ inside))

theorem lone (apart : Apart (.lone child) (h + 1) values)
    (first_eq : hashAt h (values.take (2 ^ h)) = some first) :
    Apart child h (values.take (2 ^ h)) := by
  obtain ⟨listed, elements⟩ := apart
  rw [branchStringsAt_succ first_eq] at elements
  refine ⟨fun v member inside => ?_, fun v member inside => ?_⟩
  · exact listed v (List.mem_of_mem_take member) (List.mem_cons_of_mem _ inside)
  · exact elements v member (List.mem_cons_of_mem _ (List.mem_append_left _ inside))

end Apart

section

variable {strings values : List Bytes} {n : Node} {h depth : Nat}

theorem level_of_agrees (free : Digest.CollisionFree strings)
    (agrees : Agrees strings n h values) (apart : Apart n h values) : n.Level depth h := by
  induction n generalizing h values depth with
  | element value =>
      cases h with
      | zero => exact Node.level_element_iff.mpr rfl
      | succ h =>
          exact absurd (agrees.element_mem_branches free)
            (apart.elements value List.mem_cons_self)
  | branch left right ih_left ih_right =>
      cases h with
      | zero =>
          exact absurd List.mem_cons_self
            (apart.listed _ (agrees.branch_mem_values free List.mem_cons_self rfl))
      | succ h =>
          obtain ⟨on_left, on_right⟩ := agrees.branch free
          obtain ⟨apart_left, apart_right⟩ := apart.branch on_left.digest
          exact Node.level_branch_iff.mpr
            ⟨ih_left on_left apart_left, ih_right on_right apart_right⟩
  | lone child ih =>
      cases h with
      | zero =>
          exact absurd List.mem_cons_self
            (apart.listed _ (agrees.branch_mem_values free List.mem_cons_self rfl))
      | succ h =>
          have below := agrees.lone free
          exact Node.level_lone_iff.mpr (ih below (apart.lone below.digest))
  | pruned digest => simp [Node.Level, Node.elementDepths]
  | absent root => simp [Node.Level, Node.elementDepths]

theorem value_of_path (free : Digest.CollisionFree strings)
    (agrees : Agrees strings n h values) {j : Nat} {v : Bytes}
    (found : n.valueAt h j = some v) : values[j]? = some v := by
  induction n generalizing h values j with
  | element value =>
      match h, j, found with
      | 0, 0, rfl =>
          rw [← List.head?_eq_getElem?]
          exact agrees.element free
  | branch left right ih_left ih_right =>
      cases h with
      | zero => contradiction
      | succ h =>
          obtain ⟨agrees_left, agrees_right⟩ := agrees.branch free
          by_cases near : j < 2 ^ h
          · rw [Node.valueAt_left near] at found
            exact getElem?_of_take (ih_left agrees_left found)
          · obtain ⟨k, rfl⟩ := Nat.exists_eq_add_of_le (Nat.not_lt.mp near)
            rw [Node.valueAt_right] at found
            rw [← List.getElem?_drop]
            exact ih_right agrees_right found
  | lone child ih =>
      cases h with
      | zero => contradiction
      | succ h => exact getElem?_of_take (ih (agrees.lone free) found)
  | pruned digest => cases h <;> contradiction
  | absent root => cases h <;> contradiction

end

/-- The elements of an accepted proof that has the root of a list are values of the list at
their indices, if they are as deep as its values, or if no value passes for a branch. -/
theorem elements_are_values {values : List Bytes} (nonempty : values ≠ [])
    (few : values.length ≤ 2 ^ 63) :
    ∃ digest, root? values = some digest ∧
      ∀ (root : Node) (config : Config) (contents : Contents),
        check root config = .ok contents → contents.rootHash = digest →
        Digest.CollisionFree (AuthenticatedList.hashed values ++ root.hashed) →
        (∀ d ∈ root.elementDepths 0, d = height values.length) ∨
          Apart root (height values.length) values →
        ∀ i v, (i, v) ∈ contents.elements.toList →
          i.toNat < values.length ∧ values[i.toNat]? = some v := by
  obtain ⟨digest, root_eq⟩ := exists_hashAt_eq nonempty (height values.length)
  refine ⟨digest, root_eq, ?_⟩
  intro root config contents checked same free apart i v member
  have root_eq' : contents.rootHash = root.rootHash := by
    rw [(check_eq_ok_iff.mp checked).2]
  have agrees : Agrees (AuthenticatedList.hashed values ++ root.hashed) root
      (height values.length) values :=
    ⟨by rw [← root_eq', same]; exact root_eq, List.subset_append_right _ _,
      List.subset_append_left _ _⟩
  have level : root.Level 0 (height values.length) := by
    rcases apart with level | apart
    · simpa [Node.Level] using level
    · exact level_of_agrees free agrees apart
  rw [← SortedMap.get?_eq_some_iff] at member
  have found := value_of_path free agrees
    ((get?_elements_eq_some_iff checked level (height_le_iff.mpr few)).mp member)
  exact ⟨(List.getElem?_eq_some_iff.mp found).1, found⟩

def twoOfThree : Node :=
  .branch (.branch (.element [1]) (.pruned (sha256 [2]))) (.lone (.element [3]))

theorem elements_are_values_twoOfThree :
    root? [[1], [2], [3]] = some twoOfThree.rootHash ∧
      check twoOfThree .default = .ok ⟨twoOfThree.rootHash, .ofList [(0, [1]), (2, [3])]⟩ ∧
      [[1], [2], [3]][(2 : UInt64).toNat]? = some ([3] : Bytes) := by
  have facts : root? [[1], [2], [3]] = some twoOfThree.rootHash ∧
      check twoOfThree .default = .ok ⟨twoOfThree.rootHash, .ofList [(0, [1]), (2, [3])]⟩ ∧
      Digest.CollisionFree
        (AuthenticatedList.hashed [[1], [2], [3]] ++ twoOfThree.hashed) := by
    decide +kernel
  obtain ⟨same, checked, free⟩ := facts
  obtain ⟨digest, root_eq, values⟩ := elements_are_values
    (show [[1], [2], [3]] ≠ ([] : List Bytes) by decide) (by decide)
  have third := values twoOfThree .default _ checked
    (Option.some.inj (same.symm.trans root_eq)) free (.inl (by decide +kernel)) 2 [3]
      (by decide +kernel)
  exact ⟨same, checked, third.2⟩

/-- A value of 64 bytes passes for a branch of two elements. -/
theorem not_forall_elements_are_values :
    ¬∀ (values : List Bytes) (root : Node) (config : Config) (contents : Contents),
      1 ≤ values.length → values.length ≤ 2 ^ 63 → check root config = .ok contents →
      root? values = some contents.rootHash →
      Digest.CollisionFree (AuthenticatedList.hashed values ++ root.hashed) →
      ∀ i v, (i, v) ∈ contents.elements.toList →
        i.toNat < values.length ∧ values[i.toNat]? = some v := by
  intro claim
  have values := claim [(sha256 [97]).toList ++ (sha256 [98]).toList]
    (.branch (.element [97]) (.element [98])) .default
    ⟨Node.rootHash (.branch (.element [97]) (.element [98])),
      .ofList [(0, [97]), (1, [98])]⟩
    (by decide) (by decide) (by decide +kernel) (by decide +kernel) (by decide +kernel)
    1 [98] (by decide +kernel)
  exact absurd values.1 (by decide)

end MerkleProof.ListProof
