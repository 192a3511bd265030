import MerkleProof.MapProof.Check
import MerkleProof.Proofs.Except
import MerkleProof.Proofs.SortedMap

/-! What a checked map proof answers about a key: whether one of its leaves reveals the
key, and otherwise, if the key was asked for, that it is missing. -/

namespace MerkleProof.MapProof

def reveals (p : MapProof) (k : MapKey) : Bool :=
  p.entries.any fun e => e.mapKey? == some k

theorem reveals_iff {p : MapProof} {k : MapKey} :
    p.reveals k = true ↔ ∃ digest value, Entry.leaf k digest value ∈ p.entries := by
  simp only [reveals, List.any_eq_true, beq_iff_eq]
  constructor
  · rintro ⟨e, member, key_eq⟩
    cases e with
    | leaf key digest value =>
        cases key_eq
        exact ⟨digest, value, member⟩
    | branch key digest => contradiction
  · rintro ⟨digest, value, member⟩
    exact ⟨_, member, rfl⟩

theorem leaf_of_present {p : MapProof} {k : MapKey} {v : Bytes}
    (found : p.present.get? k = some v) :
    p.requested.contains k = true ∧ ∃ digest, Entry.leaf k digest v ∈ p.entries := by
  obtain ⟨e, member, listed⟩ := List.mem_filterMap.mp (SortedMap.mem_of_get?_ofList found)
  cases e with
  | branch key digest => contradiction
  | leaf key digest value =>
      simp only at listed
      split at listed
      · rename_i requested
        cases listed
        exact ⟨requested, digest, member⟩
      · contradiction

theorem contains_present (p : MapProof) (k : MapKey) :
    p.present.contains k = (p.requested.contains k && p.reveals k) := by
  apply Bool.eq_iff_iff.mpr
  rw [Bool.and_eq_true, reveals_iff]
  constructor
  · intro held
    obtain ⟨value, found⟩ := SortedMap.contains_iff.mp held
    obtain ⟨requested, digest, member⟩ := leaf_of_present found
    exact ⟨requested, digest, value, member⟩
  · rintro ⟨requested, digest, value, member⟩
    exact SortedMap.contains_ofList_iff.mpr
      ⟨value, List.mem_filterMap.mpr ⟨_, member, if_pos requested⟩⟩

theorem contains_missing (p : MapProof) (k : MapKey) :
    p.missing.contains k = (p.requested.contains k && !p.reveals k) := by
  rw [missing, SortedMap.contains_filter, contains_present]
  cases p.requested.contains k <;> rfl

theorem check_eq_ok_iff {p : MapProof} {config : Config} {contents : Contents} :
    check p config = .ok contents ↔
      rootHash config.strictKeys p.entries = .ok contents.rootHash ∧
        contents.entries = p.present ∧ contents.missing = p.missing := by
  rw [check, map_eq_ok_iff]
  constructor
  · rintro ⟨joined, accepted, rfl⟩
    exact ⟨accepted, rfl, rfl⟩
  · rintro ⟨accepted, entries_eq, missing_eq⟩
    refine ⟨contents.rootHash, accepted, ?_⟩
    rw [← entries_eq, ← missing_eq]

theorem Checked.get_ok (contents : Contents) (k : MapKey) :
    Checked.get (.ok contents) k =
      match contents.entries.get? k with
      | some value => .ok (some value)
      | none =>
          if contents.missing.contains k then .ok none else .error (.keyNotRequested k) :=
  rfl

section

variable {p : MapProof} {config : Config} {contents : Contents} {k : MapKey} {v : Bytes}

theorem get_eq_some_iff (checked : check p config = .ok contents) :
    (check p config).get k = .ok (some v) ↔ contents.entries.get? k = some v := by
  rw [checked, Checked.get_ok]
  cases contents.entries.get? k with
  | some value => simp
  | none =>
      simp only [reduceCtorEq, iff_false]
      split <;> simp

theorem get_eq_none_iff (checked : check p config = .ok contents) :
    (check p config).get k = .ok none ↔ contents.missing.contains k = true := by
  obtain ⟨-, entries_eq, missing_eq⟩ := check_eq_ok_iff.mp checked
  have present := contains_present p k
  have absent := contains_missing p k
  rw [← entries_eq] at present
  rw [← missing_eq] at absent
  rw [checked, Checked.get_ok]
  cases found : contents.entries.get? k with
  | some value =>
      rw [SortedMap.contains, found, Option.isSome_some] at present
      obtain ⟨-, revealed⟩ := (Bool.and_eq_true _ _).mp present.symm
      simp [absent, revealed]
  | none => simp

theorem containsKey_eq_false_iff (checked : check p config = .ok contents) :
    (check p config).containsKey k = .ok false ↔ contents.missing.contains k = true := by
  rw [← get_eq_none_iff checked, Checked.containsKey]
  cases (check p config).get k with
  | error fault => simp [Except.map]
  | ok found => cases found <;> simp [Except.map]

end

end MerkleProof.MapProof
