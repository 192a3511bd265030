import MerkleProof.ListProof.Check
import MerkleProof.Proofs.Except
import MerkleProof.Proofs.ListProof.Nodes
import MerkleProof.Proofs.SortedMap

/-! Where the elements of a proof tree stand.  Positions are 64-bit words that are
doubled at each step down; while no bit is lost, an element's index is the number
that its path writes. -/

namespace MerkleProof.ListProof

theorem toNat_left {p : UInt64} (small : p.toNat < 2 ^ 63) :
    (p <<< 1).toNat = 2 * p.toNat := by
  have once : (1 : UInt64).toNat % 64 = 1 := rfl
  rw [UInt64.toNat_shiftLeft, once, Nat.shiftLeft_eq, Nat.pow_one]
  omega

theorem toNat_right {p : UInt64} (small : p.toNat < 2 ^ 63) :
    ((p <<< 1) ||| 1).toNat = 2 * p.toNat + 1 := by
  rw [UInt64.toNat_or, toNat_left small]
  exact (Nat.two_pow_add_eq_or_of_lt (i := 1) (b := 1) (by decide) p.toNat).symm

theorem small_children {p h : Nat} (small : (p + 1) * 2 ^ (h + 1) ≤ 2 ^ 63) :
    p < 2 ^ 63 ∧ (2 * p + 1) * 2 ^ h ≤ 2 ^ 63 ∧ (2 * p + 1 + 1) * 2 ^ h ≤ 2 ^ 63 := by
  have both : (2 * p + 1 + 1) * 2 ^ h = (p + 1) * 2 ^ (h + 1) := by
    rw [Nat.pow_succ', ← Nat.mul_assoc]
    congr 1
    omega
  have one : (2 * p + 1) * 2 ^ h ≤ (2 * p + 1 + 1) * 2 ^ h :=
    Nat.mul_le_mul_right _ (Nat.le_succ _)
  have positive : p + 1 ≤ (p + 1) * 2 ^ (h + 1) :=
    Nat.le_mul_of_pos_right _ (Nat.two_pow_pos _)
  omega

theorem double_mul_two_pow (p h : Nat) : 2 * p * 2 ^ h = p * 2 ^ (h + 1) := by
  rw [Nat.pow_succ', ← Nat.mul_assoc, Nat.mul_comm p 2]

namespace Path

/-- The number that a path writes in binary, its first step as the highest digit. -/
def number : Path → Nat
  | [] => 0
  | right :: path => right.toNat * 2 ^ path.length + number path

/-- The 64-bit position at the end of a path that starts at a given one. -/
def position (start : UInt64) : Path → UInt64
  | [] => start
  | false :: path => position (start <<< 1) path
  | true :: path => position ((start <<< 1) ||| 1) path

theorem number_lt (path : Path) : path.number < 2 ^ path.length := by
  induction path with
  | nil => exact Nat.one_pos
  | cons right path ih =>
      have digit : right.toNat ≤ 1 := Bool.toNat_le right
      have high : right.toNat * 2 ^ path.length ≤ 1 * 2 ^ path.length :=
        Nat.mul_le_mul_right _ digit
      rw [number, List.length_cons, Nat.pow_succ]
      omega

theorem toNat_position {start : UInt64} {path : Path}
    (small : (start.toNat + 1) * 2 ^ path.length ≤ 2 ^ 63) :
    (path.position start).toNat = start.toNat * 2 ^ path.length + path.number := by
  induction path generalizing start with
  | nil => simp [position, number]
  | cons right path ih =>
      obtain ⟨inside, small_left, small_right⟩ := small_children small
      rw [← toNat_left inside] at small_left
      rw [← toNat_right inside] at small_right
      cases right with
      | false =>
          rw [position, ih small_left, toNat_left inside, double_mul_two_pow, number]
          simp
      | true =>
          rw [position, ih small_right, toNat_right inside, Nat.add_mul,
            double_mul_two_pow, number]
          simp [Nat.add_assoc]

theorem toNat_position_zero {path : Path} (short : path.length ≤ 63) :
    (path.position 0).toNat = path.number := by
  have small : ((0 : UInt64).toNat + 1) * 2 ^ path.length ≤ 2 ^ 63 := by
    simpa using Nat.pow_le_pow_right (n := 2) (by decide) short
  rw [toNat_position small]
  simp

end Path

namespace Node

theorem elementsAt_eq (n : Node) (start : UInt64) :
    n.elementsAt start = n.revealed.map fun e => (e.1.position start, e.2) := by
  induction n generalizing start with
  | branch left right ih_left ih_right =>
      rw [elementsAt, ih_left, ih_right, revealed_branch, List.map_append,
        Path.under, Path.under, List.map_map, List.map_map]
      rfl
  | lone child ih =>
      rw [elementsAt, ih, revealed_lone, Path.under, List.map_map]
      rfl
  | _ => rfl

theorem le_elementDepths {n : Node} {depth d : Nat} (member : d ∈ n.elementDepths depth) :
    depth ≤ d := by
  rw [elementDepths_eq] at member
  obtain ⟨e, -, rfl⟩ := List.mem_map.mp member
  exact Nat.le_add_right depth _

theorem lt_elementDepths {n : Node} {depth d : Nat} (branch : n.isBranch = true)
    (member : d ∈ n.elementDepths depth) : depth < d := by
  cases n with
  | branch left right =>
      rcases List.mem_append.mp member with on_left | on_right
      · exact le_elementDepths on_left
      · exact le_elementDepths on_right
  | lone child => exact le_elementDepths (n := child) member
  | _ => contradiction

theorem exists_elementDepth {n : Node} {p i : UInt64} {v : Bytes} (depth : Nat)
    (member : (i, v) ∈ n.elementsAt p) : ∃ d, d ∈ n.elementDepths depth := by
  rw [elementsAt_eq] at member
  obtain ⟨e, found, -⟩ := List.mem_map.mp member
  exact ⟨depth + e.1.length, n.elementDepths_eq depth ▸ List.mem_map_of_mem found⟩

/-- The elements are `h` levels below a root at `depth`. -/
def Level (depth h : Nat) (n : Node) : Prop := ∀ d ∈ n.elementDepths depth, d = depth + h

/-- The element that the path to the index `j` leads to, `h` levels down: the highest bit
of `j` says which child holds it. -/
def valueAt : Node → (h j : Nat) → Option Bytes
  | .element value, 0, 0 => some value
  | .branch left right, h + 1, j =>
      if j < 2 ^ h then left.valueAt h j else right.valueAt h (j - 2 ^ h)
  | .lone child, h + 1, j => child.valueAt h j
  | _, _, _ => none

section

variable {left right child n : Node} {depth h j : Nat} {v : Bytes}

theorem level_element_iff {value : Bytes} : (element value).Level depth h ↔ h = 0 := by
  rw [Level, elementDepths, List.forall_mem_singleton]
  omega

theorem level_branch_iff : (branch left right).Level depth (h + 1) ↔
    left.Level (depth + 1) h ∧ right.Level (depth + 1) h := by
  simp only [Level, elementDepths, List.forall_mem_append, Nat.add_assoc, Nat.add_comm h]

theorem level_lone_iff : (lone child).Level depth (h + 1) ↔ child.Level (depth + 1) h := by
  simp only [Level, elementDepths, Nat.add_assoc, Nat.add_comm h]

theorem Level.not_branch_zero (level : n.Level depth 0) (branch : n.isBranch = true)
    {p i : UInt64} : (i, v) ∉ n.elementsAt p := by
  intro member
  obtain ⟨d, found⟩ := exists_elementDepth depth member
  exact absurd (level d found) (Nat.ne_of_gt (lt_elementDepths branch found))

theorem valueAt_left (inside : j < 2 ^ h) :
    (branch left right).valueAt (h + 1) j = left.valueAt h j :=
  if_pos inside

theorem valueAt_right :
    (branch left right).valueAt (h + 1) (2 ^ h + j) = right.valueAt h j := by
  rw [valueAt, if_neg (Nat.not_lt.mpr (Nat.le_add_right _ _)), Nat.add_sub_cancel_left]

theorem lt_of_valueAt (found : n.valueAt h j = some v) : j < 2 ^ h := by
  induction n generalizing h j with
  | element value =>
      match h, j, found with
      | 0, 0, _ => decide
  | branch left right ih_left ih_right =>
      cases h with
      | zero => contradiction
      | succ h =>
          rw [Nat.pow_succ]
          rw [valueAt] at found
          split at found
          · omega
          · have below := ih_right found
            omega
  | lone child ih =>
      cases h with
      | zero => contradiction
      | succ h => exact Nat.lt_trans (ih found) (Nat.pow_lt_pow_succ (by decide))
  | pruned digest => cases h <;> contradiction
  | absent root => cases h <;> contradiction

theorem mem_elementsAt_iff (level : n.Level depth h) {p i : UInt64}
    (small : (p.toNat + 1) * 2 ^ h ≤ 2 ^ 63) :
    (i, v) ∈ n.elementsAt p ↔
      ∃ j, i.toNat = p.toNat * 2 ^ h + j ∧ n.valueAt h j = some v := by
  induction n generalizing h depth p with
  | element value =>
      obtain rfl := level_element_iff.mp level
      rw [elementsAt, List.mem_singleton, Nat.pow_zero, Nat.mul_one]
      constructor
      · rintro ⟨⟩
        exact ⟨0, rfl, rfl⟩
      · rintro ⟨j, index, found⟩
        match j, found with
        | 0, rfl => rw [UInt64.toNat_inj.mp index]
  | branch left right ih_left ih_right =>
      cases h with
      | zero => simp [level.not_branch_zero rfl, valueAt]
      | succ h =>
          obtain ⟨inside, small_left, small_right⟩ := small_children small
          obtain ⟨level_left, level_right⟩ := level_branch_iff.mp level
          -- both children are at positions that 64 bits still hold,
          -- so the shifts lose nothing
          rw [← toNat_left inside] at small_left
          rw [← toNat_right inside] at small_right
          rw [elementsAt, List.mem_append, ih_left level_left small_left,
            ih_right level_right small_right, toNat_left inside, toNat_right inside,
            Nat.add_mul, double_mul_two_pow]
          constructor
          · rintro (⟨j, index, found⟩ | ⟨j, index, found⟩)
            · exact ⟨j, index, (valueAt_left (lt_of_valueAt found)).trans found⟩
            · exact ⟨2 ^ h + j, by omega, valueAt_right.trans found⟩
          · rintro ⟨j, index, found⟩
            by_cases near : j < 2 ^ h
            · exact .inl ⟨j, index, (valueAt_left near).symm.trans found⟩
            · obtain ⟨k, rfl⟩ := Nat.exists_eq_add_of_le (Nat.not_lt.mp near)
              exact .inr ⟨k, by omega, valueAt_right.symm.trans found⟩
  | lone child ih =>
      cases h with
      | zero => simp [level.not_branch_zero rfl, valueAt]
      | succ h =>
          obtain ⟨inside, small_left, -⟩ := small_children small
          rw [← toNat_left inside] at small_left
          rw [elementsAt, ih (level_lone_iff.mp level) small_left, toNat_left inside,
            double_mul_two_pow]
          rfl
  | pruned digest => simp [elementsAt, valueAt]
  | absent root => simp [elementsAt, valueAt]

end

end Node

theorem check_eq_ok_iff {root : Node} {config : Config} {contents : Contents} :
    check root config = .ok contents ↔ root.fault? config.effectiveDepth = none ∧
      contents = ⟨root.rootHash, .ofList (root.elementsAt 0)⟩ := by
  unfold check
  cases root.fault? config.effectiveDepth with
  | some fault => simp
  | none => simp [eq_comm]

theorem check_eq_error_iff {root : Node} {config : Config} {fault : Fault} :
    check root config = .error fault ↔ root.fault? config.effectiveDepth = some fault := by
  unfold check
  cases root.fault? config.effectiveDepth with
  | some broken => simp
  | none => simp

theorem effectiveDepth_le (config : Config) : config.effectiveDepth ≤ 63 :=
  Nat.min_le_right _ _

theorem exists_elementDepth_of_get? {root : Node} {config : Config} {contents : Contents}
    (checked : check root config = .ok contents) {i : UInt64} {v : Bytes}
    (found : contents.elements.get? i = some v) : ∃ d ∈ root.elementDepths 0, d ≤ 63 := by
  obtain ⟨no_fault, rfl⟩ := check_eq_ok_iff.mp checked
  obtain ⟨d, member⟩ := Node.exists_elementDepth 0 (SortedMap.mem_of_get?_ofList found)
  have shallow := (Node.fault?_eq_none_iff.mp no_fault).elements_le d member
  exact ⟨d, member, Nat.le_trans shallow (effectiveDepth_le config)⟩

theorem get?_elements_eq_some_iff {root : Node} {config : Config} {contents : Contents}
    {h : Nat} (checked : check root config = .ok contents) (level : root.Level 0 h)
    (low : h ≤ 63) {i : UInt64} {v : Bytes} :
    contents.elements.get? i = some v ↔ root.valueAt h i.toNat = some v := by
  obtain ⟨-, rfl⟩ := check_eq_ok_iff.mp checked
  have small : ((0 : UInt64).toNat + 1) * 2 ^ h ≤ 2 ^ 63 := by
    simpa using Nat.pow_le_pow_right (n := 2) (by decide) low
  have listed (j : UInt64) (w : Bytes) :
      (j, w) ∈ root.elementsAt 0 ↔ root.valueAt h j.toNat = some w := by
    simp [Node.mem_elementsAt_iff level small]
  rw [SortedMap.get?_ofList_eq_some_iff, listed]
  intro j w w' first second
  rw [listed] at first second
  exact Option.some.inj (first.symm.trans second)

end MerkleProof.ListProof
