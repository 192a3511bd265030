import MerkleProof.ListProof.Document
import MerkleProof.Proofs.Hex
import MerkleProof.Proofs.Json.Reader
import MerkleProof.Proofs.ListProof.Position

/-! Trees written as documents and read back.  A document may hold as many levels as a tree
of 63 nested branches needs, and trees that keep the rules have no more. -/

namespace MerkleProof.ListProof

namespace Node

def nesting : Node → Nat
  | .element _ => 0
  | .branch left right => 1 + max left.nesting right.nesting
  | .lone child => 1 + child.nesting
  | .pruned _ => 0
  | .absent _ => 0

theorem written_toJson (n : Node) : n.toJson.Written := by
  induction n with
  | element value => exact Json.written_tagged (Json.written_ofText _)
  | branch left right ih_left ih_right =>
      refine Json.written_tagged (Json.written_object ?_)
      exact List.forall_mem_cons.mpr
        ⟨⟨rfl, ih_left⟩, List.forall_mem_singleton.mpr ⟨rfl, ih_right⟩⟩
  | lone child ih =>
      exact Json.written_tagged
        (Json.written_object (List.forall_mem_singleton.mpr ⟨rfl, ih⟩))
  | pruned digest => exact Json.written_tagged (Json.written_ofText _)
  | absent root => exact Json.written_tagged (Json.written_ofText _)

/-! Reading a node takes one level, and the children of a branch are two
levels further in. -/

section

variable (levels : Nat)

theorem digestOfJson?_ofText (digest : Digest) :
    digestOfJson? (.ofText digest.text) = some digest := by
  simp [digestOfJson?, Json.ofText, Json.text?, Digest.parse_text, Except.toOption]

theorem ofJson?_element (value : Bytes) :
    ofJson? (levels + 1) (element value).toJson = some (.element value) := by
  rw [toJson, Json.tagged, ofJson?.eq_def]
  simp [Json.ofText, Json.text?, Hex.decode_encode, Except.toOption]

theorem ofJson?_pruned (digest : Digest) :
    ofJson? (levels + 1) (pruned digest).toJson = some (.pruned digest) := by
  rw [toJson, Json.tagged, ofJson?.eq_def]
  simp [digestOfJson?_ofText]

theorem ofJson?_absent (root : Digest) :
    ofJson? (levels + 1) (absent root).toJson = some (.absent root) := by
  rw [toJson, Json.tagged, ofJson?.eq_def]
  simp [digestOfJson?_ofText]

theorem ofJson?_lone (child : Node) :
    ofJson? (levels + 2) (lone child).toJson =
      (ofJson? levels child.toJson).map .lone := by
  rw [toJson, Json.tagged, ofJson?.eq_def]
  cases read : ofJson? levels child.toJson <;> simp [Json.parts?, Json.valuesOf, read]

theorem ofJson?_branch (left right : Node) :
    ofJson? (levels + 2) (branch left right).toJson =
      (ofJson? levels left.toJson).bind fun left =>
      (ofJson? levels right.toJson).map (.branch left) := by
  -- a right child that is `null` would count as none
  have present : right.toJson ≠ .null := by cases right <;> nofun
  rw [toJson, Json.tagged, ofJson?.eq_def]
  cases read : ofJson? levels left.toJson <;> simp [Json.parts?, Json.valuesOf, read]

end

theorem ofJson?_toJson (levels : Nat) (n : Node) :
    ofJson? levels n.toJson = if 2 * n.nesting < levels then some n else none := by
  induction n generalizing levels with
  | element value =>
      cases levels with
      | zero => rfl
      | succ levels => rw [ofJson?_element, nesting, if_pos (Nat.succ_pos _)]
  | pruned digest =>
      cases levels with
      | zero => rfl
      | succ levels => rw [ofJson?_pruned, nesting, if_pos (Nat.succ_pos _)]
  | absent root =>
      cases levels with
      | zero => rfl
      | succ levels => rw [ofJson?_absent, nesting, if_pos (Nat.succ_pos _)]
  | lone child ih =>
      match levels with
      | 0 => rfl
      | 1 => rw [if_neg (by rw [nesting]; omega)]; rfl
      | levels + 2 =>
          rw [ofJson?_lone, ih, nesting]
          by_cases fits : 2 * child.nesting < levels
          · rw [if_pos fits, if_pos (by omega)]
            rfl
          · rw [if_neg fits, if_neg (by omega)]
            rfl
  | branch left right ih_left ih_right =>
      match levels with
      | 0 => rfl
      | 1 => rw [if_neg (by rw [nesting]; omega)]; rfl
      | levels + 2 =>
          rw [ofJson?_branch, ih_left, ih_right, nesting]
          by_cases fits_left : 2 * left.nesting < levels
          · by_cases fits_right : 2 * right.nesting < levels
            · rw [if_pos fits_left, if_pos fits_right, if_pos (by omega)]
              rfl
            · rw [if_pos fits_left, if_neg fits_right, if_neg (by omega)]
              rfl
          · have deep : ¬2 * (1 + max left.nesting right.nesting) < levels + 2 := by omega
            rw [if_neg fits_left, if_neg deep]
            rfl

theorem ofText?_text (root : Node) :
    ofText? root.text = if root.nesting ≤ 63 then some root else none := by
  have limit : 2 * root.nesting < Json.maxNesting ↔ root.nesting ≤ 63 := by
    rw [Json.maxNesting]
    omega
  rw [ofText?, text, Json.ofText?_render root.written_toJson, Option.bind_some,
    ofJson?_toJson]
  simp only [limit]

/-! The rules bound the nesting. -/

theorem nesting_le {n : Node} {depth maxDepth : Nat} (present : n.isAbsent = false)
    (elements : ∀ d ∈ n.elementDepths depth, d ≤ maxDepth)
    (pruned : ∀ d ∈ n.prunedDepths depth, d ≤ maxDepth)
    (absence : n.hasNestedAbsence = false) :
    depth + n.nesting ≤ maxDepth := by
  induction n generalizing depth with
  | element value => exact elements depth List.mem_cons_self
  | pruned digest => exact pruned depth List.mem_cons_self
  | absent root => contradiction
  | lone child ih =>
      simp only [hasNestedAbsence, Bool.or_eq_false_iff] at absence
      have inner := ih absence.1 elements pruned absence.2
      rw [nesting]
      omega
  | branch left right ih_left ih_right =>
      simp only [hasNestedAbsence, Bool.or_eq_false_iff] at absence
      obtain ⟨⟨⟨left_present, right_present⟩, left_absence⟩, right_absence⟩ := absence
      obtain ⟨left_elements, right_elements⟩ := List.forall_mem_append.mp elements
      obtain ⟨left_pruned, right_pruned⟩ := List.forall_mem_append.mp pruned
      have on_left := ih_left left_present left_elements left_pruned left_absence
      have on_right := ih_right right_present right_elements right_pruned right_absence
      rw [nesting]
      omega

theorem KeepsRules.nesting_le {root : Node} {maxDepth : Nat}
    (kept : root.KeepsRules maxDepth) : root.nesting ≤ maxDepth := by
  cases present : root.isAbsent with
  | false =>
      have bound := Node.nesting_le present kept.elements_le kept.pruned_le kept.absence
      omega
  | true =>
      cases root with
      | absent root => exact Nat.zero_le _
      | _ => contradiction

end Node

theorem nesting_le_of_isValid {root : Node} {config : Config}
    (valid : (check root config).isValid = true) : root.nesting ≤ 63 := by
  cases checked : check root config with
  | error fault =>
      rw [checked] at valid
      contradiction
  | ok contents =>
      obtain ⟨no_fault, -⟩ := check_eq_ok_iff.mp checked
      exact Nat.le_trans (Node.fault?_eq_none_iff.mp no_fault).nesting_le
        (effectiveDepth_le config)

/-- What is written for a tree is read back exactly if no path has more than 63 branches,
and a proof that is accepted stays one. -/
theorem written_tree_read_back :
    (∀ root : Node, (root.nesting ≤ 63 → Node.ofText? root.text = some root) ∧
        (63 < root.nesting → Node.ofText? root.text = none)) ∧
      ∀ (root : Node) (config : Config), (check root config).isValid = true →
        ∃ decoded, Node.ofText? root.text = some decoded ∧
          ∀ other : Config, check decoded other = check root other := by
  have read_back (root : Node) (fits : root.nesting ≤ 63) :
      Node.ofText? root.text = some root := by
    rw [Node.ofText?_text, if_pos fits]
  refine ⟨fun root => ⟨read_back root, ?_⟩, ?_⟩
  · intro deep
    rw [Node.ofText?_text, if_neg (Nat.not_le.mpr deep)]
  · intro root config valid
    exact ⟨root, read_back root (nesting_le_of_isValid valid), fun _ => rfl⟩

def chain : Nat → Node
  | 0 => .element [7]
  | n + 1 => .lone (chain n)

theorem written_tree_read_back_chain :
    Node.ofText? (chain 63).text = some (chain 63) ∧ Node.ofText? (chain 64).text = none ∧
      ∃ decoded, Node.ofText? (chain 63).text = some decoded ∧
        ∀ other : Config, check decoded other = check (chain 63) other := by
  obtain ⟨read_back, keeps_verdict⟩ := written_tree_read_back
  have kept : (chain 63).KeepsRules 63 :=
    ⟨by decide, by decide, by decide, by decide, by decide, by decide⟩
  have valid : (check (chain 63) .default).isValid = true := by
    rw [check_eq_ok_iff.mpr ⟨Node.fault?_eq_none_iff.mpr kept, rfl⟩]
    rfl
  exact ⟨(read_back _).1 (by decide), (read_back _).2 (by decide),
    keeps_verdict _ .default valid⟩

end MerkleProof.ListProof
