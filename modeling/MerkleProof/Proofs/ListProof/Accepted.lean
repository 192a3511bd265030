import MerkleProof.Proofs.ListProof.Nodes
import MerkleProof.Proofs.ListProof.Position

/-! What an accepted tree looks like.  All its elements stand at one depth, below
every branch and no higher than any other node, so an element's index is the number
that the path to it writes. -/

namespace MerkleProof.ListProof

namespace Node

theorem level_iff {n : Node} {depth h : Nat} :
    n.Level depth h ↔ ∀ e ∈ n.revealed, e.1.length = h := by
  simp only [Level, elementDepths_eq, List.forall_mem_map, Nat.add_left_cancel_iff]

/-- No branch has pruned children only, and none has a statement of absence below it. -/
@[mk_iff opened_iff]
structure Opened (n : Node) : Prop where
  branches : n.hasPrunedBranch = false
  absence : n.hasNestedAbsence = false

namespace Opened

variable {n left right child : Node}

theorem branch_iff : (branch left right).Opened ↔
    (left.isPruned = false ∨ right.isPruned = false) ∧ left.isAbsent = false ∧
      right.isAbsent = false ∧ left.Opened ∧ right.Opened := by
  simp only [opened_iff, hasPrunedBranch, hasNestedAbsence, Bool.or_eq_false_iff,
    Bool.and_eq_false_iff]
  tauto

theorem lone_iff : (lone child).Opened ↔
    child.isPruned = false ∧ child.isAbsent = false ∧ child.Opened := by
  simp only [opened_iff, hasPrunedBranch, hasNestedAbsence, Bool.or_eq_false_iff]
  tauto

theorem of_mem (opened : n.Opened) {p : Path × Node} (member : p ∈ n.nodes) :
    p.2.Opened := by
  induction n generalizing p with
  | branch left right ih_left ih_right =>
      obtain ⟨-, -, -, opened_left, opened_right⟩ := branch_iff.mp opened
      obtain rfl | ⟨q, inside, rfl⟩ | ⟨q, inside, rfl⟩ := mem_nodes_branch_iff.mp member
      · exact opened
      · exact ih_left opened_left (p := q) inside
      · exact ih_right opened_right (p := q) inside
  | lone child ih =>
      obtain ⟨-, -, opened_child⟩ := lone_iff.mp opened
      obtain rfl | ⟨q, inside, rfl⟩ := mem_nodes_lone_iff.mp member
      · exact opened
      · exact ih opened_child (p := q) inside
  | _ =>
      cases List.mem_singleton.mp member
      exact opened

theorem revealed_ne_nil (opened : n.Opened) (known : n.isPruned = false)
    (present : n.isAbsent = false) : n.revealed ≠ [] := by
  induction n with
  | element value => simp
  | branch left right ih_left ih_right =>
      obtain ⟨one_known, left_present, right_present, opened_left, opened_right⟩ :=
        branch_iff.mp opened
      rcases one_known with left_known | right_known
      · have found := ih_left opened_left left_known left_present
        simp [Path.under, found]
      · have found := ih_right opened_right right_known right_present
        simp [Path.under, found]
  | lone child ih =>
      obtain ⟨child_known, child_present, opened_child⟩ := lone_iff.mp opened
      have found := ih opened_child child_known child_present
      simp [Path.under, found]
  | pruned digest => contradiction
  | absent root => contradiction

theorem revealed_ne_nil_of_isBranch (opened : n.Opened) (branch : n.isBranch = true) :
    n.revealed ≠ [] := by
  cases n with
  | branch left right => exact opened.revealed_ne_nil rfl rfl
  | lone child => exact opened.revealed_ne_nil rfl rfl
  | _ => contradiction

theorem level_pos (opened : n.Opened) (branch : n.isBranch = true) {depth h : Nat}
    (level : n.Level depth h) : 0 < h := by
  obtain ⟨e, found⟩ :=
    List.exists_mem_of_ne_nil _ (opened.revealed_ne_nil_of_isBranch branch)
  have listed : depth + e.1.length ∈ n.elementDepths depth := by
    rw [elementDepths_eq]
    exact List.mem_map_of_mem found
  have below := lt_elementDepths branch listed
  rw [level_iff.mp level e found] at below
  omega

theorem length_le (opened : n.Opened) {depth h : Nat} (level : n.Level depth h)
    {p : Path × Node} (member : p ∈ n.nodes) : p.1.length ≤ h := by
  induction n generalizing p depth h with
  | branch left right ih_left ih_right =>
      -- a branch has an element below it, so there is a level left for its children
      obtain ⟨h, rfl⟩ := Nat.exists_eq_add_one.mpr (opened.level_pos rfl level)
      obtain ⟨level_left, level_right⟩ := level_branch_iff.mp level
      obtain ⟨-, -, -, opened_left, opened_right⟩ := branch_iff.mp opened
      obtain rfl | ⟨q, inside, rfl⟩ | ⟨q, inside, rfl⟩ := mem_nodes_branch_iff.mp member
      · exact Nat.zero_le _
      · exact Nat.succ_le_succ (ih_left opened_left level_left (p := q) inside)
      · exact Nat.succ_le_succ (ih_right opened_right level_right (p := q) inside)
  | lone child ih =>
      obtain ⟨h, rfl⟩ := Nat.exists_eq_add_one.mpr (opened.level_pos rfl level)
      obtain ⟨-, -, opened_child⟩ := lone_iff.mp opened
      obtain rfl | ⟨q, inside, rfl⟩ := mem_nodes_lone_iff.mp member
      · exact Nat.zero_le _
      · exact Nat.succ_le_succ (ih opened_child (level_lone_iff.mp level) (p := q) inside)
  | _ =>
      cases List.mem_singleton.mp member
      exact Nat.zero_le _

end Opened

section

variable {found : List (Path × Bytes)} {right : Bool} {h : Nat}

theorem length_of_under (even : ∀ e ∈ Path.under right found, e.1.length = h) :
    ∀ e ∈ found, e.1.length = h - 1 := by
  intro e member
  exact Nat.eq_sub_of_add_eq (even _ (List.mem_map_of_mem member))

theorem ascending_under (even : ∀ e ∈ found, e.1.length = h)
    (ascending : found.Pairwise fun e f => e.1.number < f.1.number) :
    (Path.under right found).Pairwise fun e f => e.1.number < f.1.number := by
  rw [Path.under, List.pairwise_map]
  refine ascending.imp_of_mem ?_
  intro e f has_e has_f less
  rw [Path.number, Path.number, even e has_e, even f has_f]
  exact Nat.add_lt_add_left less _

end

theorem ascending_numbers {n : Node} {h : Nat} (even : ∀ e ∈ n.revealed, e.1.length = h) :
    n.revealed.Pairwise fun e f => e.1.number < f.1.number := by
  induction n generalizing h with
  | element value => exact List.pairwise_singleton _ _
  | branch left right ih_left ih_right =>
      rw [revealed_branch] at even ⊢
      obtain ⟨even_left, even_right⟩ := List.forall_mem_append.mp even
      have left_lengths := length_of_under even_left
      have right_lengths := length_of_under even_right
      refine List.pairwise_append.mpr ⟨ascending_under left_lengths (ih_left left_lengths),
        ascending_under right_lengths (ih_right right_lengths), ?_⟩
      -- the first step tells the paths on both sides apart
      intro e on_left f on_right
      obtain ⟨e, has_e, rfl⟩ := List.mem_map.mp on_left
      obtain ⟨f, has_f, rfl⟩ := List.mem_map.mp on_right
      have low := e.1.number_lt
      rw [left_lengths e has_e, ← right_lengths f has_f] at low
      simp only [Path.number, Bool.toNat_false, Bool.toNat_true]
      omega
  | lone child ih =>
      rw [revealed_lone] at even ⊢
      have lengths := length_of_under even
      exact ascending_under lengths (ih lengths)
  | pruned digest => exact .nil
  | absent root => exact .nil

/-- A tree is regular if it goes no deeper than its elements, which stand `depth` steps
below the root and below every branch. -/
structure Regular (root : Node) (depth : Nat) : Prop where
  depth_pos : root.isBranch = true → 1 ≤ depth
  length_le : ∀ p ∈ root.nodes, p.1.length ≤ depth
  branch_reveals : ∀ p ∈ root.nodes, p.2.isBranch = true → p.2.revealed ≠ []
  length_eq : ∀ e ∈ root.revealed, e.1.length = depth

theorem Opened.regular {root : Node} (opened : root.Opened) {depth : Nat}
    (level : root.Level 0 depth) : root.Regular depth where
  depth_pos branch := opened.level_pos branch level
  length_le _ member := opened.length_le level member
  branch_reveals _ member := (opened.of_mem member).revealed_ne_nil_of_isBranch
  length_eq := level_iff.mp level

theorem KeepsRules.exists_regular {root : Node} {maxDepth : Nat}
    (kept : root.KeepsRules maxDepth) :
    ∃ depth, depth ≤ maxDepth ∧ root.Regular depth := by
  have opened : root.Opened := ⟨kept.opened, kept.absence⟩
  cases listed : root.elementDepths 0 with
  | nil =>
      refine ⟨0, Nat.zero_le _, opened.regular ?_⟩
      intro d member
      rw [listed] at member
      contradiction
  | cons depth others =>
      have member : depth ∈ root.elementDepths 0 := listed ▸ List.mem_cons_self
      refine ⟨depth, kept.elements_le depth member, opened.regular ?_⟩
      intro d also
      rw [kept.elements_eq d also depth member, Nat.zero_add]

namespace Regular

variable {root : Node} {depth : Nat}

theorem toNat_position (regular : root.Regular depth) (low : depth ≤ 63) {p : Path × Node}
    (member : p ∈ root.nodes) : (p.1.position 0).toNat = p.1.number :=
  Path.toNat_position_zero (Nat.le_trans (regular.length_le p member) low)

theorem toList_elements (regular : root.Regular depth) (low : depth ≤ 63) :
    (SortedMap.ofList (root.elementsAt 0)).toList =
      root.revealed.map fun e => (e.1.position 0, e.2) := by
  rw [elementsAt_eq]
  apply SortedMap.toList_ofList
  rw [List.pairwise_map]
  refine (ascending_numbers regular.length_eq).imp_of_mem ?_
  intro e f has_e has_f less
  rw [← Path.toNat_position_zero (regular.length_eq e has_e ▸ low),
    ← Path.toNat_position_zero (regular.length_eq f has_f ▸ low)] at less
  exact compareOfLessAndEq_eq_lt.mpr less

theorem map_toNat_elements (regular : root.Regular depth) (low : depth ≤ 63) :
    ((SortedMap.ofList (root.elementsAt 0)).toList.map fun e => (e.1.toNat, e.2)) =
      root.revealed.map fun e => (e.1.number, e.2) := by
  rw [regular.toList_elements low, List.map_map]
  refine List.map_congr_left ?_
  intro e found
  exact Prod.ext (Path.toNat_position_zero (regular.length_eq e found ▸ low)) rfl

theorem number_lt (regular : root.Regular depth) {e : Path × Bytes}
    (found : e ∈ root.revealed) : e.1.number < 2 ^ depth :=
  regular.length_eq e found ▸ e.1.number_lt

end Regular

end Node

/-- An accepted tree is regular within the limit of depth.  Each element is shown once,
from left to right, at the index that the path to it writes, and no bit is lost in the
position of any node. -/
theorem accepted_tree {root : Node} {config : Config} {contents : Contents}
    (checked : check root config = .ok contents) :
    ∃ depth, depth ≤ min config.maxNodeDepth.toNat 63 ∧ root.Regular depth ∧
      root.elementsAt 0 = (root.revealed.map fun e => (e.1.position 0, e.2)) ∧
      (∀ p ∈ root.nodes, (p.1.position 0).toNat = p.1.number) ∧
      (∀ e ∈ root.revealed, e.1.number < 2 ^ depth) ∧
      (root.revealed.map fun e => e.1.number).Pairwise (· < ·) ∧
      (contents.elements.toList.map fun e => (e.1.toNat, e.2)) =
        root.revealed.map fun e => (e.1.number, e.2) := by
  obtain ⟨no_fault, rfl⟩ := check_eq_ok_iff.mp checked
  obtain ⟨depth, within, regular⟩ := (Node.fault?_eq_none_iff.mp no_fault).exists_regular
  have low : depth ≤ 63 := Nat.le_trans within (effectiveDepth_le config)
  exact ⟨depth, within, regular, root.elementsAt_eq 0,
    fun _ member => regular.toNat_position low member,
    fun _ found => regular.number_lt found,
    List.pairwise_map.mpr (Node.ascending_numbers regular.length_eq),
    regular.map_toNat_elements low⟩

def lastTwoOfThree : Node :=
  .branch (.branch (.pruned (sha256 [1])) (.element [2])) (.lone (.element [3]))

theorem accepted_tree_lastTwoOfThree :
    check lastTwoOfThree .default =
        .ok ⟨lastTwoOfThree.rootHash, .ofList [(1, [2]), (2, [3])]⟩ ∧
      ∃ depth, depth ≤ 63 ∧ lastTwoOfThree.Regular depth ∧
        (∀ e ∈ lastTwoOfThree.revealed, e.1.number < 2 ^ depth) ∧
        [((1 : Nat), ([2] : Bytes)), (2, [3])] =
          lastTwoOfThree.revealed.map fun e => (e.1.number, e.2) := by
  have kept : lastTwoOfThree.KeepsRules 63 :=
    ⟨by decide, by decide, by decide, by decide, by decide, by decide⟩
  have checked : check lastTwoOfThree .default =
      .ok ⟨lastTwoOfThree.rootHash, .ofList [(1, [2]), (2, [3])]⟩ :=
    check_eq_ok_iff.mpr ⟨Node.fault?_eq_none_iff.mpr kept, rfl⟩
  obtain ⟨depth, within, regular, -, -, small, -, listed⟩ := accepted_tree checked
  exact ⟨checked, depth, within, regular, small, listed⟩

end MerkleProof.ListProof
