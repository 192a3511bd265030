import MerkleProof.Proofs.ListProof.Accepted
import MerkleProof.Proofs.ListProof.Hashed

/-! Trees that nothing was pruned from.  Where right children are missing on the right edge
only, an element's index is the number of elements on its left; a child that is missing
elsewhere leaves a gap in the indices. -/

namespace MerkleProof.ListProof

namespace Node

def isFull : Node → Bool
  | .branch left right => left.isFull && right.isFull
  | .lone _ => false
  | _ => true

/-- Whether right children are missing on the right edge only: what stands on the left of a
branch with two children is full. -/
def isFilledFromLeft : Node → Bool
  | .branch left right => left.isFull && right.isFilledFromLeft
  | .lone child => child.isFilledFromLeft
  | _ => true

theorem isFilledFromLeft_of_isFull {n : Node} (full : n.isFull = true) :
    n.isFilledFromLeft = true := by
  induction n with
  | branch left right _ ih_right =>
      obtain ⟨full_left, full_right⟩ := Bool.and_eq_true_iff.mp full
      exact Bool.and_eq_true_iff.mpr ⟨full_left, ih_right full_right⟩
  | lone child => contradiction
  | _ => rfl

def numbers (n : Node) : List Nat := n.revealed.map fun e => e.1.number

theorem values_eq (n : Node) : n.values = n.revealed.map Prod.snd := by
  have below (right : Bool) (found : List (Path × Bytes)) :
      (Path.under right found).map Prod.snd = found.map Prod.snd := by
    rw [Path.under, List.map_map]
    rfl
  induction n with
  | branch left right ih_left ih_right =>
      rw [values, ih_left, ih_right, revealed_branch, List.map_append, below, below]
  | lone child ih => rw [values, ih, revealed_lone, below]
  | _ => rfl

@[simp] theorem length_numbers (n : Node) : n.numbers.length = n.values.length := by
  rw [numbers, values_eq, List.length_map, List.length_map]

theorem map_number_under {found : List (Path × Bytes)} {h : Nat} (right : Bool)
    (even : ∀ e ∈ found, e.1.length = h) :
    (Path.under right found).map (fun e => e.1.number) =
      (found.map fun e => e.1.number).map (right.toNat * 2 ^ h + ·) := by
  rw [Path.under, List.map_map, List.map_map]
  refine List.map_congr_left ?_
  intro e member
  exact congrArg (right.toNat * 2 ^ · + e.1.number) (even e member)

/-- Every path through the tree ends at an element, `h` steps below the root. -/
inductive Whole : Node → Nat → Prop
  | element (value : Bytes) : Whole (.element value) 0
  | branch {left right : Node} {h : Nat} (on_left : Whole left h)
      (on_right : Whole right h) : Whole (.branch left right) (h + 1)
  | lone {child : Node} {h : Nat} (below : Whole child h) : Whole (.lone child) (h + 1)

theorem Opened.whole {n : Node} (opened : n.Opened) {depth h : Nat}
    (level : n.Level depth h) (unpruned : ∀ p ∈ n.nodes, p.2.isPruned = false)
    (present : n.isAbsent = false) : n.Whole h := by
  induction n generalizing depth h with
  | element value =>
      obtain rfl := level_element_iff.mp level
      exact .element value
  | branch left right ih_left ih_right =>
      obtain ⟨h, rfl⟩ := Nat.exists_eq_add_one.mpr (opened.level_pos rfl level)
      obtain ⟨level_left, level_right⟩ := level_branch_iff.mp level
      obtain ⟨-, left_present, right_present, opened_left, opened_right⟩ :=
        branch_iff.mp opened
      have whole_left : left.Whole h := by
        refine ih_left opened_left level_left ?_ left_present
        intro p member
        exact unpruned (false :: p.1, p.2)
          (mem_nodes_branch_iff.mpr (.inr (.inl ⟨p, member, rfl⟩)))
      have whole_right : right.Whole h := by
        refine ih_right opened_right level_right ?_ right_present
        intro p member
        exact unpruned (true :: p.1, p.2)
          (mem_nodes_branch_iff.mpr (.inr (.inr ⟨p, member, rfl⟩)))
      exact .branch whole_left whole_right
  | lone child ih =>
      obtain ⟨h, rfl⟩ := Nat.exists_eq_add_one.mpr (opened.level_pos rfl level)
      obtain ⟨-, child_present, opened_child⟩ := lone_iff.mp opened
      refine .lone (ih opened_child (level_lone_iff.mp level) ?_ child_present)
      intro p member
      exact unpruned (false :: p.1, p.2) (mem_nodes_lone_iff.mpr (.inr ⟨p, member, rfl⟩))
  | pruned digest =>
      have known := unpruned ([], pruned digest) List.mem_cons_self
      contradiction
  | absent root => contradiction

namespace Whole

variable {n left right child : Node} {h : Nat}

theorem level (whole : n.Whole h) (depth : Nat) : n.Level depth h := by
  induction whole generalizing depth with
  | element value => exact level_element_iff.mpr rfl
  | branch _ _ ih_left ih_right =>
      exact level_branch_iff.mpr ⟨ih_left (depth + 1), ih_right (depth + 1)⟩
  | lone _ ih => exact level_lone_iff.mpr (ih (depth + 1))

theorem numbers_branch (on_left : left.Whole h) (on_right : right.Whole h) :
    (Node.branch left right).numbers = left.numbers ++ right.numbers.map (2 ^ h + ·) := by
  rw [numbers, revealed_branch, List.map_append,
    map_number_under _ (level_iff.mp (on_left.level 0)),
    map_number_under _ (level_iff.mp (on_right.level 0))]
  simp [numbers]

theorem numbers_lone (below : child.Whole h) :
    (Node.lone child).numbers = child.numbers := by
  rw [numbers, revealed_lone, map_number_under _ (level_iff.mp (below.level 0))]
  simp [numbers]

theorem length_pos (whole : n.Whole h) : 0 < n.values.length := by
  induction whole with
  | element value => exact Nat.one_pos
  | branch _ _ ih_left _ =>
      rw [values, List.length_append]
      exact Nat.add_pos_left ih_left _
  | lone _ ih => exact ih

/-- A tree holds as many elements as its height allows if it is full,
and fewer if it is not. -/
theorem length_le (whole : n.Whole h) :
    n.values.length ≤ 2 ^ h ∧ (n.values.length = 2 ^ h ↔ n.isFull = true) := by
  induction whole with
  | element value => exact ⟨Nat.le_refl 1, fun _ => rfl, fun _ => rfl⟩
  | branch _ _ ih_left ih_right =>
      obtain ⟨left_le, left_eq⟩ := ih_left
      obtain ⟨right_le, right_eq⟩ := ih_right
      rw [values, List.length_append, Nat.pow_succ, isFull, Bool.and_eq_true_iff,
        ← left_eq, ← right_eq]
      omega
  | @lone child h _ ih =>
      have positive := Nat.two_pow_pos h
      rw [values, Nat.pow_succ, isFull]
      simp only [Bool.false_eq_true, iff_false]
      omega

theorem numbers_eq_range_iff (whole : n.Whole h) :
    n.numbers = List.range n.values.length ↔ n.isFilledFromLeft = true := by
  induction whole with
  | element value => exact ⟨fun _ => rfl, fun _ => rfl⟩
  | @branch left right h on_left on_right ih_left ih_right =>
      obtain ⟨fits, full_iff⟩ := on_left.length_le
      rw [numbers_branch on_left on_right, values, List.length_append, List.range_add,
        isFilledFromLeft, Bool.and_eq_true_iff, ← ih_right, ← full_iff]
      constructor
      · intro counted
        obtain ⟨-, shifted⟩ := List.append_inj counted (by simp)
        -- the first element on the right has the index that comes after those on the left
        have next : left.values.length = 2 ^ h := by
          have first := congrArg List.head? shifted
          rw [List.head?_map, List.head?_map, List.head?_range,
            if_neg (Nat.ne_of_gt on_right.length_pos)] at first
          obtain ⟨k, -, index⟩ := Option.map_eq_some_iff.mp first
          have index : 2 ^ h + k = left.values.length + 0 := index
          omega
        rw [next] at shifted
        exact ⟨next, List.map_injective_iff.mpr (fun _ _ => Nat.add_left_cancel) shifted⟩
      · rintro ⟨next, counted⟩
        have left_counted := ih_left.mpr (isFilledFromLeft_of_isFull (full_iff.mp next))
        rw [left_counted, counted, next]
  | lone below ih =>
      rw [numbers_lone below]
      exact ih

end Whole

end Node

/-- An accepted tree that nothing was pruned from shows its elements from left to
right.  Their indices are those from zero on if and only if right children are missing
on the right edge only. -/
theorem unpruned_indices {root : Node} {config : Config} {contents : Contents}
    (checked : check root config = .ok contents)
    (unpruned : ∀ p ∈ root.nodes, p.2.isPruned = false) :
    contents.elements.toList.map Prod.snd = root.values ∧
      (contents.elements.keys.map UInt64.toNat = List.range root.values.length ↔
        root.isFilledFromLeft = true) := by
  obtain ⟨no_fault, rfl⟩ := check_eq_ok_iff.mp checked
  have kept := Node.fault?_eq_none_iff.mp no_fault
  obtain ⟨depth, within, regular⟩ := kept.exists_regular
  have shown := regular.map_toNat_elements (Nat.le_trans within (effectiveDepth_le config))
  have values := congrArg (List.map Prod.snd) shown
  have indices := congrArg (List.map Prod.fst) shown
  rw [List.map_map, List.map_map] at values indices
  constructor
  · rw [Node.values_eq]
    exact values
  · rw [SortedMap.keys, List.map_map]
    refine Iff.trans (Eq.congr_left indices) ?_
    cases absent : root.isAbsent with
    | false =>
        have level : root.Level 0 depth := Node.level_iff.mpr regular.length_eq
        have opened : root.Opened := ⟨kept.opened, kept.absence⟩
        exact (opened.whole level unpruned absent).numbers_eq_range_iff
    | true =>
        cases root with
        | absent digest => exact ⟨fun _ => rfl, fun _ => rfl⟩
        | _ => contradiction

/-- Five values; the right half has a child at each level and none on its right. -/
def allOfFive : Node :=
  .branch
    (.branch (.branch (.element [1]) (.element [2]))
      (.branch (.element [3]) (.element [4])))
    (.lone (.lone (.element [5])))

theorem unpruned_indices_allOfFive :
    check allOfFive .default = .ok ⟨allOfFive.rootHash,
        .ofList [(0, [1]), (1, [2]), (2, [3]), (3, [4]), (4, [5])]⟩ ∧
      (∀ p ∈ allOfFive.nodes, p.2.isPruned = false) ∧ allOfFive.isFilledFromLeft = true ∧
      (SortedMap.ofList [((0 : UInt64), ([1] : Bytes)), (1, [2]), (2, [3]), (3, [4]),
        (4, [5])]).keys.map UInt64.toNat = List.range allOfFive.values.length := by
  have kept : allOfFive.KeepsRules 63 :=
    ⟨by decide, by decide, by decide, by decide, by decide, by decide⟩
  have checked : check allOfFive .default = .ok ⟨allOfFive.rootHash,
      .ofList [(0, [1]), (1, [2]), (2, [3]), (3, [4]), (4, [5])]⟩ :=
    check_eq_ok_iff.mpr ⟨Node.fault?_eq_none_iff.mpr kept, rfl⟩
  have unpruned : ∀ p ∈ allOfFive.nodes, p.2.isPruned = false := by decide
  exact ⟨checked, unpruned, rfl, (unpruned_indices checked unpruned).2.mpr rfl⟩

/-- A right child that is missing on the left leaves out the index 1. -/
theorem not_forall_unpruned_indices :
    ¬∀ (root : Node) (config : Config) (contents : Contents),
      check root config = .ok contents → (∀ p ∈ root.nodes, p.2.isPruned = false) →
      contents.elements.keys.map UInt64.toNat = List.range root.values.length ∧
        contents.elements.toList.map Prod.snd = root.values := by
  intro claim
  let root : Node :=
    .branch (.lone (.element [97])) (.branch (.element [98]) (.element [99]))
  have kept : root.KeepsRules 63 :=
    ⟨by decide, by decide, by decide, by decide, by decide, by decide⟩
  have checked : check root .default =
      .ok ⟨root.rootHash, .ofList [(0, [97]), (2, [98]), (3, [99])]⟩ :=
    check_eq_ok_iff.mpr ⟨Node.fault?_eq_none_iff.mpr kept, rfl⟩
  have counted := (claim root .default _ checked (by decide)).1
  exact absurd counted (by decide)

end MerkleProof.ListProof
