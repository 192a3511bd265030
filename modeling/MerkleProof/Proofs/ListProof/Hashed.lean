import MerkleProof.ListProof.Rules
import MerkleProof.Proofs.AuthenticatedList

/-! The byte strings that are hashed for a proof tree and for a list.  What is hashed for a
branch tells its children, and how many there are. -/

namespace MerkleProof

namespace ListProof

theorem bytes_branchPreimage_cons (child : Digest) (children : List Digest) :
    (branchPreimage (child :: children)).bytes =
      child.toList ++ (branchPreimage children).bytes := by
  simp [branchPreimage, Preimage.bytes]

@[simp] theorem length_bytes_branchPreimage (children : List Digest) :
    (branchPreimage children).bytes.length = 32 * children.length := by
  induction children with
  | nil => rfl
  | cons child children ih =>
      rw [bytes_branchPreimage_cons, List.length_append, child.length_toList, ih,
        List.length_cons]
      omega

theorem branchPreimage_inj {children others : List Digest}
    (same : (branchPreimage children).bytes = (branchPreimage others).bytes) :
    children = others := by
  induction children generalizing others with
  | nil =>
      have lengths := congrArg List.length same
      cases others with
      | nil => rfl
      | cons other others => simp at lengths
  | cons child children ih =>
      have lengths := congrArg List.length same
      cases others with
      | nil => simp at lengths
      | cons other others =>
          rw [bytes_branchPreimage_cons, bytes_branchPreimage_cons] at same
          obtain ⟨head, tail⟩ := List.append_inj same (by simp)
          rw [Bytes32.ext head, ih tail]

namespace Node

def values : Node → List Bytes
  | .element value => [value]
  | .branch left right => left.values ++ right.values
  | .lone child => child.values
  | .pruned _ => []
  | .absent _ => []

def branchStrings : Node → List Bytes
  | .element _ => []
  | .branch left right =>
      (branchPreimage [left.rootHash, right.rootHash]).bytes ::
        (left.branchStrings ++ right.branchStrings)
  | .lone child => (branchPreimage [child.rootHash]).bytes :: child.branchStrings
  | .pruned _ => []
  | .absent _ => []

/-- All that is hashed for the root of a proof tree. -/
def hashed (n : Node) : List Bytes := n.values ++ n.branchStrings

variable {strings : List Bytes}

theorem hashed_element_subset_iff {value : Bytes} :
    (element value).hashed ⊆ strings ↔ value ∈ strings := by
  simp [hashed, values, branchStrings]

theorem hashed_branch_subset_iff {left right : Node} :
    (branch left right).hashed ⊆ strings ↔
      (branchPreimage [left.rootHash, right.rootHash]).bytes ∈ strings ∧
        left.hashed ⊆ strings ∧ right.hashed ⊆ strings := by
  simp only [hashed, values, branchStrings, List.append_subset, List.cons_subset]
  constructor
  · rintro ⟨⟨left_values, right_values⟩, here, left_branches, right_branches⟩
    exact ⟨here, ⟨left_values, left_branches⟩, right_values, right_branches⟩
  · rintro ⟨here, ⟨left_values, left_branches⟩, right_values, right_branches⟩
    exact ⟨⟨left_values, right_values⟩, here, left_branches, right_branches⟩

theorem hashed_lone_subset_iff {child : Node} :
    (lone child).hashed ⊆ strings ↔
      (branchPreimage [child.rootHash]).bytes ∈ strings ∧ child.hashed ⊆ strings := by
  simp only [hashed, values, branchStrings, List.append_subset, List.cons_subset]
  exact and_left_comm

end Node

end ListProof

namespace AuthenticatedList

open ListProof

def branchStringsAt : (height : Nat) → (values : List Bytes) → List Bytes
  | 0, _ => []
  | h + 1, values =>
      match hashAt h (values.take (2 ^ h)) with
      | none => []
      | some left =>
          (left.toList ++ (hashAt h (values.drop (2 ^ h))).elim [] Bytes32.toList) ::
            (branchStringsAt h (values.take (2 ^ h)) ++
              branchStringsAt h (values.drop (2 ^ h)))

def branchStrings (values : List Bytes) : List Bytes :=
  branchStringsAt (height values.length) values

/-- All that is hashed for the root of a list. -/
def hashed (values : List Bytes) : List Bytes := values ++ branchStrings values

theorem branchStringsAt_succ {h : Nat} {values : List Bytes} {left : Digest}
    (left_eq : hashAt h (values.take (2 ^ h)) = some left) :
    branchStringsAt (h + 1) values =
      (branchPreimage (left :: (hashAt h (values.drop (2 ^ h))).toList)).bytes ::
        (branchStringsAt h (values.take (2 ^ h)) ++
          branchStringsAt h (values.drop (2 ^ h))) := by
  rw [branchStringsAt, left_eq, bytes_branchPreimage_toList]

end AuthenticatedList

end MerkleProof
