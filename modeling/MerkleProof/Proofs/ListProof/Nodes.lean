import MerkleProof.Proofs.ListProof.Shape

/-! The nodes of a proof tree with the paths to them, and the rules said of these nodes.
The walk over a tree finds the first rule that is broken somewhere in it. -/

namespace MerkleProof.ListProof

/-- The steps from the root of a tree to a node, `true` where the way goes right. -/
abbrev Path := List Bool

/-- What is found below a child, seen from the node above it. -/
def Path.under {α : Type} (right : Bool) (found : List (Path × α)) : List (Path × α) :=
  found.map fun p => (right :: p.1, p.2)

namespace Node

/-- All nodes with the paths to them, a node before those below it and
left before right. -/
def nodes : Node → List (Path × Node)
  | .element value => [([], .element value)]
  | .branch left right =>
      ([], .branch left right) ::
        (Path.under false left.nodes ++ Path.under true right.nodes)
  | .lone child => ([], .lone child) :: Path.under false child.nodes
  | .pruned digest => [([], .pruned digest)]
  | .absent root => [([], .absent root)]

def children : Node → List Node
  | .branch left right => [left, right]
  | .lone child => [child]
  | _ => []

def value? : Node → Option Bytes
  | .element value => some value
  | _ => none

def revealed (n : Node) : List (Path × Bytes) :=
  n.nodes.filterMap fun p => p.2.value?.map fun value => (p.1, value)

theorem mem_nodes_branch_iff {left right : Node} {p : Path × Node} :
    p ∈ (branch left right).nodes ↔
      p = ([], branch left right) ∨ (∃ q ∈ left.nodes, (false :: q.1, q.2) = p) ∨
        ∃ q ∈ right.nodes, (true :: q.1, q.2) = p := by
  rw [nodes, List.mem_cons, List.mem_append, Path.under, Path.under, List.mem_map,
    List.mem_map]

theorem mem_nodes_lone_iff {child : Node} {p : Path × Node} :
    p ∈ (lone child).nodes ↔
      p = ([], lone child) ∨ ∃ q ∈ child.nodes, (false :: q.1, q.2) = p := by
  rw [nodes, List.mem_cons, Path.under, List.mem_map]

theorem filterMap_under {α β : Type} (right : Bool) (found : List (Path × α))
    (f : α → Option β) :
    (Path.under right found).filterMap (fun p => (f p.2).map fun b => (p.1, b)) =
      Path.under right (found.filterMap fun p => (f p.2).map fun b => (p.1, b)) := by
  rw [Path.under, Path.under, List.filterMap_map, List.map_filterMap]
  congr 1
  funext p
  simp [Option.map_map, Function.comp_def]

@[simp] theorem revealed_element (value : Bytes) :
    (element value).revealed = [([], value)] := rfl

@[simp] theorem revealed_branch (left right : Node) :
    (branch left right).revealed =
      Path.under false left.revealed ++ Path.under true right.revealed := by
  rw [revealed, nodes, List.filterMap_cons_none rfl, List.filterMap_append,
    filterMap_under, filterMap_under]
  rfl

@[simp] theorem revealed_lone (child : Node) :
    (lone child).revealed = Path.under false child.revealed := by
  rw [revealed, nodes, List.filterMap_cons_none rfl, filterMap_under]
  rfl

@[simp] theorem revealed_pruned (digest : Digest) : (pruned digest).revealed = [] := rfl

@[simp] theorem revealed_absent (root : Digest) : (absent root).revealed = [] := rfl

/-! The rules read off the nodes. -/

@[simp] theorem any_under {α : Type} (right : Bool) (found : List (Path × α))
    (f : Path × α → Bool) :
    (Path.under right found).any f = found.any fun p => f (right :: p.1, p.2) := by
  rw [Path.under, List.any_map]
  rfl

theorem elementDepths_eq (n : Node) (depth : Nat) :
    n.elementDepths depth = n.revealed.map fun e => depth + e.1.length := by
  have deeper (right : Bool) (found : List (Path × Bytes)) (depth : Nat) :
      (Path.under right found).map (fun e => depth + e.1.length) =
        found.map fun e => depth + 1 + e.1.length := by
    simp [Path.under, Nat.add_assoc, Nat.add_comm 1]
  induction n generalizing depth with
  | element value => rfl
  | branch left right ih_left ih_right =>
      rw [elementDepths, ih_left, ih_right, revealed_branch, List.map_append,
        deeper, deeper]
  | lone child ih => rw [elementDepths, ih, revealed_lone, deeper]
  | pruned digest => rfl
  | absent root => rfl

theorem any_prunedDepths (n : Node) (depth maxDepth : Nat) :
    (n.prunedDepths depth).any (maxDepth < ·) =
      n.nodes.any fun p => p.2.isPruned && decide (maxDepth < depth + p.1.length) := by
  induction n generalizing depth with
  | branch left right ih_left ih_right =>
      simp [prunedDepths, nodes, ih_left, ih_right, isPruned, Nat.add_assoc,
        Nat.add_comm 1]
  | lone child ih =>
      simp [prunedDepths, nodes, ih, isPruned, Nat.add_assoc, Nat.add_comm 1]
  | _ => simp [prunedDepths, nodes, isPruned]

theorem any_isBranch (n : Node) : (n.nodes.any fun p => p.2.isBranch) = n.isBranch := by
  cases n <;> simp [nodes, isBranch]

theorem hasPrunedBranch_eq (n : Node) :
    n.hasPrunedBranch =
      n.nodes.any fun p => p.2.isBranch && p.2.children.all isPruned := by
  induction n with
  | branch left right ih_left ih_right =>
      simp [hasPrunedBranch, nodes, ih_left, ih_right, isBranch, children, Bool.or_assoc]
  | lone child ih => simp [hasPrunedBranch, nodes, ih, isBranch, children]
  | _ => rfl

theorem any_isAbsent (n : Node) :
    (n.nodes.any fun p => p.2.isAbsent) = (n.isAbsent || n.hasNestedAbsence) := by
  induction n with
  | branch left right ih_left ih_right =>
      have here : (branch left right).isAbsent = false := rfl
      simp [nodes, ih_left, ih_right, here, hasNestedAbsence, Bool.or_assoc,
        Bool.or_left_comm]
  | lone child ih =>
      have here : (lone child).isAbsent = false := rfl
      simp [nodes, ih, here, hasNestedAbsence]
  | _ => simp [nodes, hasNestedAbsence]

theorem hasNestedAbsence_eq (n : Node) :
    n.hasNestedAbsence = n.nodes.any fun p => !p.1.isEmpty && p.2.isAbsent := by
  cases n with
  | branch left right =>
      simp [nodes, any_isAbsent, hasNestedAbsence, Bool.or_assoc, Bool.or_left_comm]
  | lone child => simp [nodes, any_isAbsent, hasNestedAbsence]
  | _ => simp [nodes, hasNestedAbsence]

end Node

def Fault.inOrder : List Fault :=
  [.elementDepth, .prunedDepth, .unevenElements, .noElements, .prunedBranch,
    .nestedAbsence]

def Fault.isBrokenBy (root : Node) (maxDepth : Nat) : Fault → Bool
  | .elementDepth => root.revealed.any fun e => maxDepth < e.1.length
  | .prunedDepth => root.nodes.any fun p => p.2.isPruned && decide (maxDepth < p.1.length)
  | .unevenElements =>
      root.revealed.any fun e => root.revealed.any fun f => e.1.length != f.1.length
  | .noElements => (root.nodes.any fun p => p.2.isBranch) && root.revealed.isEmpty
  | .prunedBranch => root.nodes.any fun p => p.2.isBranch && p.2.children.all Node.isPruned
  | .nestedAbsence => root.nodes.any fun p => !p.1.isEmpty && p.2.isAbsent

namespace Node

section

variable (root : Node) (maxDepth : Nat)

theorem any_uneven :
    ((root.elementDepths 0).any fun d => (root.elementDepths 0).any (d < ·)) =
      Fault.unevenElements.isBrokenBy root maxDepth := by
  rw [Fault.isBrokenBy, elementDepths_eq]
  simp only [List.any_map, Function.comp_def, Nat.zero_add]
  apply Bool.eq_iff_iff.mpr
  simp only [List.any_eq_true, decide_eq_true_eq, bne_iff_ne]
  constructor
  · rintro ⟨e, has_e, f, has_f, less⟩
    exact ⟨e, has_e, f, has_f, Nat.ne_of_lt less⟩
  · rintro ⟨e, has_e, f, has_f, apart⟩
    rcases Nat.lt_or_gt_of_ne apart with less | greater
    · exact ⟨e, has_e, f, has_f, less⟩
    · exact ⟨f, has_f, e, has_e, greater⟩

theorem firstBroken?_eq_find? :
    root.firstBroken? maxDepth = Fault.inOrder.find? (Fault.isBrokenBy root maxDepth) := by
  have step (fault : Fault) (later : List Fault) :
      (fault :: later).find? (Fault.isBrokenBy root maxDepth) =
        if fault.isBrokenBy root maxDepth then some fault
        else later.find? (Fault.isBrokenBy root maxDepth) := by
    rw [List.find?_cons]
    cases fault.isBrokenBy root maxDepth <;> rfl
  have deep : (root.elementDepths 0).any (maxDepth < ·) =
      Fault.elementDepth.isBrokenBy root maxDepth := by
    simp [elementDepths_eq, Fault.isBrokenBy, Function.comp_def]
  have pruned : (root.prunedDepths 0).any (maxDepth < ·) =
      Fault.prunedDepth.isBrokenBy root maxDepth := by
    simp [any_prunedDepths, Fault.isBrokenBy]
  have bare : (root.isBranch && (root.elementDepths 0).isEmpty) =
      Fault.noElements.isBrokenBy root maxDepth := by
    simp [elementDepths_eq, any_isBranch, Fault.isBrokenBy]
  rw [firstBroken?, deep, pruned, any_uneven root maxDepth, bare, hasPrunedBranch_eq,
    hasNestedAbsence_eq]
  simp only [Fault.inOrder, step, List.find?_nil]
  rfl

theorem fault?_eq_firstBroken? : root.fault? maxDepth = root.firstBroken? maxDepth := by
  have branches : decide (0 < root.branches) = root.isBranch :=
    Bool.eq_iff_iff.mpr (decide_eq_true_iff.trans branches_pos_iff)
  rw [fault?_eq, Shape.fault?, firstBroken?]
  simp only [Shape.any_foldl_widen_deep, Shape.any_foldl_widen_uneven,
    Shape.isNone_foldl_widen, Shape.foldl_deepen, Shape.any_max?, branches]

end

end Node

/-- The walk finds the first broken rule, the rules said by recursion on the
tree or of its nodes. -/
theorem first_broken_rule (root : Node) (maxDepth : Nat) :
    root.fault? maxDepth = root.firstBroken? maxDepth ∧
      root.fault? maxDepth = Fault.inOrder.find? (Fault.isBrokenBy root maxDepth) := by
  have by_recursion := root.fault?_eq_firstBroken? maxDepth
  exact ⟨by_recursion, by_recursion.trans (root.firstBroken?_eq_find? maxDepth)⟩

end MerkleProof.ListProof
