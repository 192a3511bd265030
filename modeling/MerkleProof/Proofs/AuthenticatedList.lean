import Mathlib.Data.Nat.Log
import MerkleProof.AuthenticatedList

/-! The Merkle tree of a list: its height, and its digests told by
recursion on the height. -/

namespace MerkleProof.AuthenticatedList

open ListProof

variable {values : List Bytes} {digest : Digest} {h n : Nat}

theorem height_le_iff : height n ≤ h ↔ n ≤ 2 ^ h := by
  unfold height
  split
  case isTrue single =>
    have positive := Nat.two_pow_pos h
    simp only [Nat.zero_le, true_iff]
    omega
  case isFalse more =>
    rw [Nat.succ_le_iff, Nat.log2_lt (by omega)]
    omega

theorem height_eq_clog (n : Nat) : height n = Nat.clog 2 n :=
  eq_of_forall_ge_iff fun h =>
    height_le_iff.trans (Nat.clog_le_iff_le_pow (by decide)).symm

theorem le_two_pow_height (n : Nat) : n ≤ 2 ^ height n := height_le_iff.mp (Nat.le_refl _)

theorem bytes_branchPreimage_toList (left : Digest) (right : Option Digest) :
    (branchPreimage (left :: right.toList)).bytes =
      left.toList ++ right.elim [] Bytes32.toList := by
  cases right with
  | none => simp [branchPreimage, Preimage.bytes]
  | some right => simp [branchPreimage, Preimage.bytes]

theorem hashAt_zero_eq_some_iff :
    hashAt 0 values = some digest ↔
      ∃ value, values.head? = some value ∧ digest = sha256 value := by
  rw [hashAt, Option.map_eq_some_iff]
  exact exists_congr fun value => and_congr_right fun _ => eq_comm

theorem hashAt_succ_eq_some_iff :
    hashAt (h + 1) values = some digest ↔
      ∃ left, hashAt h (values.take (2 ^ h)) = some left ∧
        digest = sha256
          (branchPreimage (left :: (hashAt h (values.drop (2 ^ h))).toList)).bytes := by
  simp only [hashAt, bytes_branchPreimage_toList]
  cases hashAt h (values.take (2 ^ h)) with
  | none => simp
  | some left =>
      cases hashAt h (values.drop (2 ^ h)) with
      | none => simp [eq_comm]
      | some right => simp [eq_comm]

theorem take_two_pow_ne_nil (nonempty : values ≠ []) (h : Nat) :
    values.take (2 ^ h) ≠ [] := by
  intro none
  rcases List.take_eq_nil_iff.mp none with zero | none
  · exact absurd zero (Nat.ne_of_gt (Nat.two_pow_pos h))
  · exact nonempty none

theorem exists_hashAt_eq (nonempty : values ≠ []) (h : Nat) :
    ∃ digest, hashAt h values = some digest := by
  induction h generalizing values with
  | zero =>
      obtain ⟨value, rest, rfl⟩ := List.exists_cons_of_ne_nil nonempty
      exact ⟨sha256 value, rfl⟩
  | succ h ih =>
      obtain ⟨left, left_eq⟩ := ih (take_two_pow_ne_nil nonempty h)
      exact ⟨_, hashAt_succ_eq_some_iff.mpr ⟨left, left_eq, rfl⟩⟩

theorem hashAt_nil (h : Nat) : hashAt h [] = none := by
  induction h with
  | zero => rfl
  | succ h ih => rw [hashAt, List.take_nil, ih]

end MerkleProof.AuthenticatedList
