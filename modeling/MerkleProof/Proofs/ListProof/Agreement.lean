import MerkleProof.Proofs.Digest
import MerkleProof.Proofs.ListProof.Hashed
import MerkleProof.Proofs.ListProof.Position

/-! Two list proofs with the same root.  However differently they are pruned, they agree on
every element that both reveal, unless a collision shows. -/

namespace MerkleProof.ListProof

namespace Node

section

variable {strings : List Bytes} {p q : Node} {children others : List Digest}

theorem children_eq (free : Digest.CollisionFree strings)
    (known : (branchPreimage children).bytes ∈ strings)
    (known' : (branchPreimage others).bytes ∈ strings)
    (same : (branchPreimage children).digest = (branchPreimage others).digest) :
    children = others :=
  branchPreimage_inj (free _ known _ known' same)

/-- The same path through two trees with the same root leads to the same element. -/
theorem valueAt_eq_of_rootHash_eq (free : Digest.CollisionFree strings)
    (known : p.hashed ⊆ strings) (known' : q.hashed ⊆ strings)
    (same : p.rootHash = q.rootHash) {h j : Nat} {v w : Bytes}
    (found : p.valueAt h j = some v) (found' : q.valueAt h j = some w) : v = w := by
  induction p generalizing q h j with
  | element value =>
      match h, j, found, q, found' with
      | 0, 0, rfl, .element other, rfl =>
          exact free _ (hashed_element_subset_iff.mp known) _
            (hashed_element_subset_iff.mp known') same
  | branch left right ih_left ih_right =>
      obtain ⟨here, known_left, known_right⟩ := hashed_branch_subset_iff.mp known
      match h, q, found' with
      | h + 1, .branch left' right', found' =>
          obtain ⟨here', known_left', known_right'⟩ := hashed_branch_subset_iff.mp known'
          have digests := children_eq free here here' same
          obtain ⟨left_eq, rest⟩ := List.cons.inj digests
          have right_eq := List.head_eq_of_cons_eq rest
          by_cases near : j < 2 ^ h
          · rw [valueAt_left near] at found found'
            exact ih_left known_left known_left' left_eq found found'
          · obtain ⟨k, rfl⟩ := Nat.exists_eq_add_of_le (Nat.not_lt.mp near)
            rw [valueAt_right] at found found'
            exact ih_right known_right known_right' right_eq found found'
      | h + 1, .lone child', found' =>
          -- one child is not hashed like two
          have digests := children_eq free here (hashed_lone_subset_iff.mp known').1 same
          simp at digests
  | lone child ih =>
      obtain ⟨here, known_child⟩ := hashed_lone_subset_iff.mp known
      match h, q, found' with
      | h + 1, .branch left' right', found' =>
          have digests := children_eq free here (hashed_branch_subset_iff.mp known').1 same
          simp at digests
      | h + 1, .lone child', found' =>
          obtain ⟨here', known_child'⟩ := hashed_lone_subset_iff.mp known'
          have digests := children_eq free here here' same
          exact ih known_child known_child' (List.head_eq_of_cons_eq digests) found found'
  | pruned digest => cases h <;> contradiction
  | absent root => cases h <;> contradiction

end

end Node

/-- Accepted proofs with the same root and with elements at the same depth reveal the same
value at every index that both reveal, or two strings that are hashed for them collide. -/
theorem elements_agree {p q : Node} {config config' : Config}
    {contents contents' : Contents} (checked : check p config = .ok contents)
    (checked' : check q config' = .ok contents')
    (same_root : contents.rootHash = contents'.rootHash)
    (same_depth : ∀ d ∈ p.elementDepths 0, ∀ e ∈ q.elementDepths 0, d = e)
    {i : UInt64} {v w : Bytes}
    (found : contents.elements.get? i = some v)
    (found' : contents'.elements.get? i = some w) :
    v = w ∨
      ∃ s ∈ p.hashed ++ q.hashed, ∃ t ∈ p.hashed ++ q.hashed,
        s ≠ t ∧ sha256 s = sha256 t := by
  by_cases free : Digest.CollisionFree (p.hashed ++ q.hashed)
  · left
    obtain ⟨d, in_p, low⟩ := exists_elementDepth_of_get? checked found
    obtain ⟨e, in_q, -⟩ := exists_elementDepth_of_get? checked' found'
    have level : p.Level 0 d := by
      intro d' member
      rw [same_depth d' member e in_q, same_depth d in_p e in_q, Nat.zero_add]
    have level' : q.Level 0 d := by
      intro e' member
      rw [← same_depth d in_p e' member, Nat.zero_add]
    rw [get?_elements_eq_some_iff checked level low] at found
    rw [get?_elements_eq_some_iff checked' level' low] at found'
    obtain ⟨-, rfl⟩ := check_eq_ok_iff.mp checked
    obtain ⟨-, rfl⟩ := check_eq_ok_iff.mp checked'
    exact Node.valueAt_eq_of_rootHash_eq free (List.subset_append_left _ _)
      (List.subset_append_right _ _) same_root found found'
  · exact .inr (Digest.not_collisionFree_iff.mp free)

def allOfThree : Node :=
  .branch (.branch (.element [1]) (.element [2])) (.lone (.element [3]))

def lastOfThree : Node :=
  .branch
    (.pruned (Node.branch (.element [1]) (.element [2])).rootHash) (.lone (.element [3]))

theorem elements_agree_lastOfThree :
    check allOfThree .default =
        .ok ⟨allOfThree.rootHash, .ofList [(0, [1]), (1, [2]), (2, [3])]⟩ ∧
      check lastOfThree .default = .ok ⟨allOfThree.rootHash, .ofList [(2, [3])]⟩ ∧
      (([3] : Bytes) = [3] ∨ ∃ s ∈ allOfThree.hashed ++ lastOfThree.hashed,
        ∃ t ∈ allOfThree.hashed ++ lastOfThree.hashed, s ≠ t ∧ sha256 s = sha256 t) := by
  have checks : check allOfThree .default =
        .ok ⟨allOfThree.rootHash, .ofList [(0, [1]), (1, [2]), (2, [3])]⟩ ∧
      check lastOfThree .default = .ok ⟨allOfThree.rootHash, .ofList [(2, [3])]⟩ := by
    decide +kernel
  obtain ⟨checked, checked'⟩ := checks
  have same_depth :
      ∀ d ∈ allOfThree.elementDepths 0, ∀ e ∈ lastOfThree.elementDepths 0, d = e := by
    decide
  have agree :=
    elements_agree checked checked' rfl same_depth (i := 2) (v := [3]) (w := [3])
      (by decide) (by decide)
  exact ⟨checked, checked', agree⟩

end MerkleProof.ListProof
