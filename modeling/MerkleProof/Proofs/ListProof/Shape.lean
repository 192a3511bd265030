import MerkleProof.ListProof.Rules

/-! What the walk over a proof tree gathers, said by recursion on the tree, and
which trees it accepts. -/

namespace MerkleProof.ListProof

def Node.branches : Node → Nat
  | .element _ => 0
  | .branch left right => 1 + (left.branches + right.branches)
  | .lone child => 1 + child.branches
  | .pruned _ => 0
  | .absent _ => 0

theorem Node.branches_pos_iff {n : Node} : 0 < n.branches ↔ n.isBranch = true := by
  cases n <;> simp [Node.branches, Node.isBranch, Nat.one_add]

namespace Shape

def widen (spread : Option (Nat × Nat)) (depth : Nat) : Option (Nat × Nat) :=
  match spread with
  | some (least, greatest) => some (min least depth, max greatest depth)
  | none => some (depth, depth)

def deepen (greatest : Option Nat) (depth : Nat) : Option Nat :=
  some (max (greatest.getD 0) depth)

def addTree (s : Shape) (n : Node) (depth : Nat) : Shape where
  elementDepths := (n.elementDepths depth).foldl widen s.elementDepths
  prunedDepth := (n.prunedDepths depth).foldl deepen s.prunedDepth
  branches := s.branches + n.branches
  prunedBranch := s.prunedBranch || n.hasPrunedBranch
  nestedAbsence := s.nestedAbsence || n.hasNestedAbsence

variable (s : Shape) (depth : Nat)

theorem addTree_element (value : Bytes) :
    s.addTree (.element value) depth = s.addElement depth := by
  simp only [addTree, Node.elementDepths, Node.prunedDepths, Node.branches,
    Node.hasPrunedBranch, Node.hasNestedAbsence, List.foldl_cons, List.foldl_nil,
    Nat.add_zero, Bool.or_false]
  rfl

theorem addTree_pruned (digest : Digest) :
    s.addTree (.pruned digest) depth = s.addPruned depth := by
  simp [addTree, addPruned, deepen, Node.elementDepths, Node.prunedDepths, Node.branches,
    Node.hasPrunedBranch, Node.hasNestedAbsence]

theorem addTree_absent (root : Digest) : s.addTree (.absent root) depth = s := by
  simp [addTree, Node.elementDepths, Node.prunedDepths, Node.branches,
    Node.hasPrunedBranch, Node.hasNestedAbsence]

theorem addTree_lone (child : Node) :
    s.addTree (.lone child) depth = (s.addBranch [child]).addTree child (depth + 1) := by
  simp [addTree, addBranch, Node.elementDepths, Node.prunedDepths, Node.branches,
    Node.hasPrunedBranch, Node.hasNestedAbsence, Bool.or_assoc, Nat.add_assoc]

theorem addTree_branch (left right : Node) :
    s.addTree (.branch left right) depth =
      ((s.addBranch [left, right]).addTree left (depth + 1)).addTree right
        (depth + 1) := by
  simp [addTree, addBranch, Node.elementDepths, Node.prunedDepths, Node.branches,
    Node.hasPrunedBranch, Node.hasNestedAbsence, Bool.or_assoc, Nat.add_assoc]

/-- The walk adds the pending trees one after another. -/
theorem gather_eq_foldl (pending : List (Node × Nat)) :
    s.gather pending = pending.foldl (fun s p => s.addTree p.1 p.2) s := by
  fun_induction gather s pending with
  | case1 s => rfl
  | case2 s value depth rest ih => rw [ih, List.foldl_cons, addTree_element]
  | case3 s digest depth rest ih => rw [ih, List.foldl_cons, addTree_pruned]
  | case4 s root depth rest ih => rw [ih, List.foldl_cons, addTree_absent]
  | case5 s child depth rest ih => rw [ih, List.foldl_cons, List.foldl_cons, addTree_lone]
  | case6 s left right depth rest ih =>
      rw [ih, List.foldl_cons, List.foldl_cons, List.foldl_cons, addTree_branch]

theorem of_eq_addTree (root : Node) : Shape.of root = empty.addTree root 0 := by
  rw [Shape.of, gather_eq_foldl, List.foldl_cons, List.foldl_nil]

variable {depths : List Nat} {maxDepth : Nat}

theorem foldl_widen_some (depths : List Nat) (least greatest : Nat) :
    depths.foldl widen (some (least, greatest)) =
      some (depths.foldl min least, depths.foldl max greatest) := by
  induction depths generalizing least greatest with
  | nil => rfl
  | cons depth depths ih => exact ih (min least depth) (max greatest depth)

theorem foldl_widen_eq_some_iff {least greatest : Nat} :
    depths.foldl widen none = some (least, greatest) ↔
      depths.min? = some least ∧ depths.max? = some greatest := by
  cases depths with
  | nil => simp
  | cons depth depths =>
      rw [List.foldl_cons, widen, foldl_widen_some, List.min?_cons', List.max?_cons']
      simp

theorem foldl_deepen_some (depths : List Nat) (greatest : Nat) :
    depths.foldl deepen (some greatest) = some (depths.foldl max greatest) := by
  induction depths generalizing greatest with
  | nil => rfl
  | cons depth depths ih => exact ih (max greatest depth)

theorem foldl_deepen (depths : List Nat) : depths.foldl deepen none = depths.max? := by
  cases depths with
  | nil => rfl
  | cons depth depths =>
      rw [List.foldl_cons, deepen, foldl_deepen_some, List.max?_cons', Option.getD_none,
        Nat.zero_max]

theorem isNone_foldl_widen (depths : List Nat) :
    (depths.foldl widen none).isNone = depths.isEmpty := by
  cases depths with
  | nil => rfl
  | cons depth depths => rw [List.foldl_cons, widen, foldl_widen_some, Option.isNone_some,
      List.isEmpty_cons]

theorem any_max? (depths : List Nat) (maxDepth : Nat) :
    depths.max?.any (maxDepth < ·) = depths.any (maxDepth < ·) := by
  cases found : depths.max? with
  | none =>
      rw [List.max?_eq_none_iff.mp found]
      rfl
  | some greatest =>
      obtain ⟨member, above⟩ := List.max?_eq_some_iff.mp found
      apply Bool.eq_iff_iff.mpr
      simp only [Option.any_some, decide_eq_true_eq, List.any_eq_true]
      constructor
      · intro deep
        exact ⟨greatest, member, deep⟩
      · rintro ⟨d, inside, deep⟩
        exact Nat.lt_of_lt_of_le deep (above d inside)

theorem any_foldl_widen_deep (depths : List Nat) (maxDepth : Nat) :
    ((depths.foldl widen none).any fun d => maxDepth < d.2) =
      depths.any (maxDepth < ·) := by
  rw [← any_max?]
  cases found : depths.foldl widen none with
  | none =>
      rw [← Option.isNone_iff_eq_none, isNone_foldl_widen, List.isEmpty_iff] at found
      rw [found]
      rfl
  | some d => rw [(foldl_widen_eq_some_iff.mp found).2, Option.any_some, Option.any_some]

theorem any_foldl_widen_uneven (depths : List Nat) :
    ((depths.foldl widen none).any fun d => d.1 != d.2) =
      depths.any fun d => depths.any (d < ·) := by
  cases found : depths.foldl widen none with
  | none =>
      rw [← Option.isNone_iff_eq_none, isNone_foldl_widen, List.isEmpty_iff] at found
      rw [found]
      rfl
  | some d =>
      obtain ⟨least, greatest⟩ := foldl_widen_eq_some_iff.mp found
      obtain ⟨has_least, below⟩ := List.min?_eq_some_iff.mp least
      obtain ⟨has_greatest, above⟩ := List.max?_eq_some_iff.mp greatest
      apply Bool.eq_iff_iff.mpr
      simp only [Option.any_some, bne_iff_ne, List.any_eq_true, decide_eq_true_eq]
      constructor
      · intro differ
        exact ⟨d.1, has_least, d.2, has_greatest,
          Nat.lt_of_le_of_ne (below d.2 has_greatest) differ⟩
      · rintro ⟨a, has_a, b, has_b, less⟩ same
        have lower := below a has_a
        have upper := above b has_b
        omega

end Shape

theorem ite_some_eq_none_iff {α : Type} {c : Prop} [Decidable c] {a : α}
    {rest : Option α} :
    (if c then some a else rest) = none ↔ ¬c ∧ rest = none := by
  split <;> simp [*]

namespace Node

variable {root : Node} {maxDepth : Nat}

/-- The rules are kept, each of them on the whole tree. -/
structure KeepsRules (root : Node) (maxDepth : Nat) : Prop where
  elements_le : ∀ d ∈ root.elementDepths 0, d ≤ maxDepth
  pruned_le : ∀ d ∈ root.prunedDepths 0, d ≤ maxDepth
  elements_eq : ∀ d ∈ root.elementDepths 0, ∀ e ∈ root.elementDepths 0, d = e
  has_element : root.isBranch = true → root.elementDepths 0 ≠ []
  opened : root.hasPrunedBranch = false
  absence : root.hasNestedAbsence = false

theorem fault?_eq (root : Node) (maxDepth : Nat) :
    root.fault? maxDepth =
      (⟨(root.elementDepths 0).foldl Shape.widen none,
        (root.prunedDepths 0).foldl Shape.deepen none, root.branches, root.hasPrunedBranch,
        root.hasNestedAbsence⟩ : Shape).fault? maxDepth := by
  rw [fault?, Shape.of_eq_addTree]
  simp only [Shape.addTree, Shape.empty, Nat.zero_add, Bool.false_or]

theorem fault?_eq_none_iff : root.fault? maxDepth = none ↔ root.KeepsRules maxDepth := by
  rw [fault?_eq, Shape.fault?]
  simp only [Shape.any_foldl_widen_deep, Shape.any_foldl_widen_uneven,
    Shape.isNone_foldl_widen, Shape.foldl_deepen, Shape.any_max?, ite_some_eq_none_iff,
    List.any_eq_true, decide_eq_true_eq, Bool.and_eq_true, List.isEmpty_iff,
    branches_pos_iff, and_true, not_exists, not_and, Nat.not_lt, Bool.not_eq_true]
  constructor
  · rintro ⟨elements_le, pruned_le, even, has_element, opened, absence⟩
    refine ⟨elements_le, pruned_le, ?_, has_element, opened, absence⟩
    intro d has_d e has_e
    exact Nat.le_antisymm (even e has_e d has_d) (even d has_d e has_e)
  · rintro ⟨elements_le, pruned_le, elements_eq, has_element, opened, absence⟩
    refine ⟨elements_le, pruned_le, ?_, has_element, opened, absence⟩
    intro d has_d e has_e
    exact Nat.le_of_eq (elements_eq e has_e d has_d)

theorem fault?_of_deep_element {d : Nat} (member : d ∈ root.elementDepths 0)
    (deep : maxDepth < d) : root.fault? maxDepth = some .elementDepth := by
  rw [fault?_eq, Shape.fault?]
  apply if_pos
  rw [Shape.any_foldl_widen_deep, List.any_eq_true]
  exact ⟨d, member, decide_eq_true deep⟩

end Node

end MerkleProof.ListProof
