import MerkleProof.Digest

/-!
Proof trees for authenticated lists: the Merkle tree of a list with the subtrees that are
not revealed replaced by their digests. Trees may be very deep before they are checked, so
equality is decided with a list of the pairs that are still to be compared.
-/

namespace MerkleProof.ListProof

inductive Node
  | element (value : Bytes)
  | branch (left right : Node)
  /-- A branch without a right child. -/
  | lone (child : Node)
  | pruned (digest : Digest)
  /-- States that the index asked for is past the end of the list with this root. -/
  | absent (root : Digest)

namespace Node

instance : Inhabited Node := ⟨.pruned Digest.empty⟩

def size : Node → Nat
  | .element _ => 1
  | .branch left right => left.size + right.size + 1
  | .lone child => child.size + 1
  | .pruned _ => 1
  | .absent _ => 1

def isPruned : Node → Bool
  | .pruned _ => true
  | _ => false

def isAbsent : Node → Bool
  | .absent _ => true
  | _ => false

def agree (pairs : List (Node × Node)) : Bool :=
  match pairs with
  | [] => true
  | (.element v, .element w) :: rest => v = w && agree rest
  | (.branch l r, .branch l' r') :: rest => agree ((l, l') :: (r, r') :: rest)
  | (.lone c, .lone c') :: rest => agree ((c, c') :: rest)
  | (.pruned d, .pruned d') :: rest => d = d' && agree rest
  | (.absent d, .absent d') :: rest => d = d' && agree rest
  | _ :: _ => false
termination_by (pairs.map fun p => p.1.size).sum
decreasing_by all_goals simp only [List.map_cons, List.sum_cons, size]; omega

theorem agree_iff (pairs : List (Node × Node)) :
    agree pairs = true ↔ ∀ p ∈ pairs, p.1 = p.2 := by
  fun_induction agree pairs with
  | case1 => simp
  | case2 rest v w ih => simp [ih]
  | case3 rest l r l' r' ih => simp [ih, and_assoc]
  | case4 rest c c' ih => simp [ih]
  | case5 rest d d' ih => simp [ih]
  | case6 rest d d' ih => simp [ih]
  | case7 p rest h1 h2 h3 h4 h5 =>
      simp only [Bool.false_eq_true, false_iff]
      intro all
      obtain ⟨a, b⟩ := p
      have equal : a = b := all (a, b) List.mem_cons_self
      subst equal
      cases a with
      | element v => exact h1 v v rfl
      | branch l r => exact h2 l r l r rfl
      | lone c => exact h3 c c rfl
      | pruned d => exact h4 d d rfl
      | absent d => exact h5 d d rfl

instance : DecidableEq Node := fun a b =>
  decidable_of_iff (agree [(a, b)] = true) (by simp [agree_iff])

end Node

end MerkleProof.ListProof
