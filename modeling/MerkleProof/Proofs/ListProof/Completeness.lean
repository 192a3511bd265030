import MerkleProof.Proofs.AuthenticatedList
import MerkleProof.Proofs.ListProof.Position

/-! Proofs that are cut from the tree of a list.  They are accepted wherever the list is
not too high, and reveal the values that were wanted. -/

namespace MerkleProof.AuthenticatedList

open ListProof

variable {wanted : List Nat} {start h : Nat} {values : List Bytes} {n : Node}

/-- Some index among the `2 ^ h` ones from `start` on is wanted. -/
def Asked (wanted : List Nat) (start h : Nat) : Prop :=
  ∃ i ∈ wanted, start ≤ i ∧ i < start + 2 ^ h

theorem add_two_pow_succ (start h : Nat) :
    start + 2 ^ (h + 1) = start + 2 ^ h + 2 ^ h := by
  rw [Nat.pow_succ]
  omega

theorem asked_succ_iff :
    Asked wanted start (h + 1) ↔
      Asked wanted start h ∨ Asked wanted (start + 2 ^ h) h := by
  rw [Asked, add_two_pow_succ]
  constructor
  · rintro ⟨i, member, above, below⟩
    by_cases near : i < start + 2 ^ h
    · exact .inl ⟨i, member, above, near⟩
    · exact .inr ⟨i, member, Nat.not_lt.mp near, below⟩
  · rintro (⟨i, member, above, below⟩ | ⟨i, member, above, below⟩)
    · exact ⟨i, member, above, Nat.lt_add_right _ below⟩
    · exact ⟨i, member, Nat.le_trans (Nat.le_add_right _ _) above, below⟩

/-- The tree over the given values, with what is not wanted pruned. -/
inductive Cut (wanted : List Nat) : (start h : Nat) → List Bytes → Node → Prop
  | element {start : Nat} {value : Bytes} {rest : List Bytes} (asked : start ∈ wanted) :
      Cut wanted start 0 (value :: rest) (.element value)
  | branch {start h : Nat} {values : List Bytes} {left right : Node}
      (asked : Asked wanted start (h + 1))
      (on_left : Cut wanted start h (values.take (2 ^ h)) left)
      (on_right : Cut wanted (start + 2 ^ h) h (values.drop (2 ^ h)) right) :
      Cut wanted start (h + 1) values (.branch left right)
  | lone {start h : Nat} {values : List Bytes} {child : Node}
      (asked : Asked wanted start h)
      (on_left : Cut wanted start h (values.take (2 ^ h)) child)
      (alone : values.drop (2 ^ h) = []) : Cut wanted start (h + 1) values (.lone child)
  | pruned {start h : Nat} {values : List Bytes} {digest : Digest}
      (unasked : ¬Asked wanted start h) (root : hashAt h values = some digest) :
      Cut wanted start h values (.pruned digest)

theorem any_eq_true_iff_asked :
    (wanted.any fun i => start ≤ i && i < start + 2 ^ h) = true ↔
      Asked wanted start h := by
  simp [Asked]

theorem cutAt_of_unasked (unasked : ¬Asked wanted start h) :
    cutAt wanted start h values = (hashAt h values).map .pruned := by
  rw [← any_eq_true_iff_asked] at unasked
  unfold cutAt
  exact if_neg unasked

theorem cutAt_eq_lone (asked : Asked wanted start (h + 1)) {left : Node}
    (left_eq : cutAt wanted start h (values.take (2 ^ h)) = some left)
    (right_eq : cutAt wanted (start + 2 ^ h) h (values.drop (2 ^ h)) = none) :
    cutAt wanted start (h + 1) values = some (.lone left) := by
  rw [← any_eq_true_iff_asked] at asked
  rw [cutAt, if_pos asked]
  simp only [left_eq, right_eq]

theorem cutAt_eq_branch (asked : Asked wanted start (h + 1)) {left right : Node}
    (left_eq : cutAt wanted start h (values.take (2 ^ h)) = some left)
    (right_eq : cutAt wanted (start + 2 ^ h) h (values.drop (2 ^ h)) = some right) :
    cutAt wanted start (h + 1) values = some (.branch left right) := by
  rw [← any_eq_true_iff_asked] at asked
  rw [cutAt, if_pos asked]
  simp only [left_eq, right_eq]

/-- Of the wanted indices, all that the tree has a place for are held. -/
def Held (wanted : List Nat) (start h length : Nat) : Prop :=
  ∀ i ∈ wanted, i < start + 2 ^ h → i < start + length

namespace Held

theorem left (held : Held wanted start (h + 1) values.length) :
    Held wanted start h (values.take (2 ^ h)).length := by
  rw [Held, add_two_pow_succ] at held
  intro i member below
  have inside := held i member (Nat.lt_add_right _ below)
  rw [List.length_take]
  omega

theorem right (held : Held wanted start (h + 1) values.length)
    (more : values.drop (2 ^ h) ≠ []) :
    Held wanted (start + 2 ^ h) h (values.drop (2 ^ h)).length := by
  rw [Held, add_two_pow_succ] at held
  rw [ne_eq, List.drop_eq_nil_iff, Nat.not_le] at more
  intro i member below
  have inside := held i member below
  rw [List.length_drop]
  omega

theorem not_asked_right (held : Held wanted start (h + 1) values.length)
    (alone : values.drop (2 ^ h) = []) : ¬Asked wanted (start + 2 ^ h) h := by
  rw [Held, add_two_pow_succ] at held
  rw [List.drop_eq_nil_iff] at alone
  rintro ⟨i, member, above, below⟩
  have inside := held i member below
  omega

end Held

theorem exists_cut (nonempty : values ≠ []) (held : Held wanted start h values.length) :
    ∃ n, cutAt wanted start h values = some n ∧ Cut wanted start h values n := by
  induction h generalizing start values with
  | zero =>
      by_cases asked : Asked wanted start 0
      · obtain ⟨value, rest, rfl⟩ := List.exists_cons_of_ne_nil nonempty
        refine ⟨.element value, ?_, .element ?_⟩
        · rw [← any_eq_true_iff_asked] at asked
          rw [cutAt, if_pos asked]
          rfl
        · obtain ⟨i, member, above, below⟩ := asked
          rwa [Nat.le_antisymm above (Nat.lt_succ_iff.mp below)]
      · obtain ⟨digest, root_eq⟩ := exists_hashAt_eq nonempty 0
        refine ⟨.pruned digest, ?_, .pruned asked root_eq⟩
        rw [cutAt_of_unasked asked, root_eq]
        rfl
  | succ h ih =>
      by_cases asked : Asked wanted start (h + 1)
      · obtain ⟨left, left_eq, cut_left⟩ := ih (take_two_pow_ne_nil nonempty h) held.left
        by_cases alone : values.drop (2 ^ h) = []
        · have unasked := held.not_asked_right alone
          refine ⟨.lone left, ?_,
            .lone ((asked_succ_iff.mp asked).resolve_right unasked) cut_left alone⟩
          apply cutAt_eq_lone asked left_eq
          rw [alone, cutAt_of_unasked unasked, hashAt_nil]
          rfl
        · obtain ⟨right, right_eq, cut_right⟩ := ih alone (held.right alone)
          exact ⟨.branch left right, cutAt_eq_branch asked left_eq right_eq,
            .branch asked cut_left cut_right⟩
      · obtain ⟨digest, root_eq⟩ := exists_hashAt_eq nonempty (h + 1)
        refine ⟨.pruned digest, ?_, .pruned asked root_eq⟩
        rw [cutAt_of_unasked asked, root_eq]
        rfl

namespace Cut

theorem rootHash (cut : Cut wanted start h values n) :
    hashAt h values = some n.rootHash := by
  induction cut with
  | element asked => rfl
  | branch asked on_left on_right ih_left ih_right =>
      refine hashAt_succ_eq_some_iff.mpr ⟨_, ih_left, ?_⟩
      rw [ih_right]
      rfl
  | lone asked on_left alone ih =>
      refine hashAt_succ_eq_some_iff.mpr ⟨_, ih, ?_⟩
      rw [alone, hashAt_nil]
      rfl
  | pruned unasked root => exact root

theorem level (cut : Cut wanted start h values n) (depth : Nat) : n.Level depth h := by
  induction cut generalizing depth with
  | element asked => exact Node.level_element_iff.mpr rfl
  | branch asked on_left on_right ih_left ih_right =>
      exact Node.level_branch_iff.mpr ⟨ih_left (depth + 1), ih_right (depth + 1)⟩
  | lone asked on_left alone ih => exact Node.level_lone_iff.mpr (ih (depth + 1))
  | pruned unasked root =>
      intro d member
      contradiction

theorem prunedDepths_le (cut : Cut wanted start h values n) (depth : Nat) :
    ∀ d ∈ n.prunedDepths depth, d ≤ depth + h := by
  induction cut generalizing depth with
  | element asked => simp [Node.prunedDepths]
  | branch asked on_left on_right ih_left ih_right =>
      intro d member
      rcases List.mem_append.mp member with inside | inside
      · have bound := ih_left (depth + 1) d inside
        omega
      · have bound := ih_right (depth + 1) d inside
        omega
  | lone asked on_left alone ih =>
      intro d member
      have bound := ih (depth + 1) d member
      omega
  | pruned unasked root => simp [Node.prunedDepths]

theorem isAbsent_eq_false (cut : Cut wanted start h values n) : n.isAbsent = false := by
  cases cut <;> rfl

theorem hasNestedAbsence_eq_false (cut : Cut wanted start h values n) :
    n.hasNestedAbsence = false := by
  induction cut with
  | element asked => rfl
  | branch asked on_left on_right ih_left ih_right =>
      rw [Node.hasNestedAbsence, on_left.isAbsent_eq_false, on_right.isAbsent_eq_false,
        ih_left, ih_right]
      rfl
  | lone asked on_left alone ih =>
      rw [Node.hasNestedAbsence, on_left.isAbsent_eq_false, ih]
      rfl
  | pruned unasked root => rfl

theorem isPruned_eq_false (cut : Cut wanted start h values n)
    (asked : Asked wanted start h) : n.isPruned = false := by
  cases cut with
  | pruned unasked root => exact absurd asked unasked
  | _ => rfl

theorem hasPrunedBranch_eq_false (cut : Cut wanted start h values n) :
    n.hasPrunedBranch = false := by
  induction cut with
  | element asked => rfl
  | branch asked on_left on_right ih_left ih_right =>
      rw [Node.hasPrunedBranch, ih_left, ih_right]
      rcases asked_succ_iff.mp asked with inside | inside
      · rw [on_left.isPruned_eq_false inside]
        rfl
      · rw [on_right.isPruned_eq_false inside, Bool.and_false]
        rfl
  | lone asked on_left alone ih =>
      rw [Node.hasPrunedBranch, on_left.isPruned_eq_false asked, ih]
      rfl
  | pruned unasked root => rfl

theorem elementDepths_ne_nil (cut : Cut wanted start h values n)
    (asked : Asked wanted start h) (depth : Nat) : n.elementDepths depth ≠ [] := by
  induction cut generalizing depth with
  | element asked' => exact List.cons_ne_nil _ _
  | branch asked' on_left on_right ih_left ih_right =>
      rcases asked_succ_iff.mp asked with inside | inside
      · exact List.append_ne_nil_of_left_ne_nil (ih_left inside (depth + 1)) _
      · exact List.append_ne_nil_of_right_ne_nil _ (ih_right inside (depth + 1))
  | lone asked' on_left alone ih => exact ih asked' (depth + 1)
  | pruned unasked root => exact absurd asked unasked

theorem asked_of_isBranch (cut : Cut wanted start h values n)
    (branch : n.isBranch = true) : Asked wanted start h := by
  cases cut with
  | branch asked on_left on_right => exact asked
  | lone asked on_left alone => exact asked_succ_iff.mpr (.inl asked)
  | _ => contradiction

theorem valueAt_eq_some_iff (cut : Cut wanted start h values n) {j : Nat} {v : Bytes} :
    n.valueAt h j = some v ↔ j < 2 ^ h ∧ start + j ∈ wanted ∧ values[j]? = some v := by
  induction cut generalizing j with
  | element asked =>
      cases j with
      | zero => simp [Node.valueAt, asked]
      | succ j => simp [Node.valueAt]
  | @branch start h values left right asked on_left on_right ih_left ih_right =>
      have twice : 2 ^ (h + 1) = 2 ^ h + 2 ^ h := by simpa using add_two_pow_succ 0 h
      by_cases near : j < 2 ^ h
      · have inside : j < 2 ^ (h + 1) := by omega
        rw [Node.valueAt_left near, ih_left, List.getElem?_take_of_lt near]
        simp only [near, inside]
      · obtain ⟨k, rfl⟩ := Nat.exists_eq_add_of_le (Nat.not_lt.mp near)
        rw [Node.valueAt_right, ih_right, List.getElem?_drop, Nat.add_assoc, twice,
          Nat.add_lt_add_iff_left]
  | @lone start h values child asked on_left alone ih =>
      have few := List.drop_eq_nil_iff.mp alone
      rw [List.take_of_length_le few] at ih
      rw [Node.valueAt, ih]
      constructor
      · rintro ⟨inside, member, found⟩
        exact ⟨Nat.lt_trans inside (Nat.pow_lt_pow_succ (by decide)), member, found⟩
      · rintro ⟨-, member, found⟩
        obtain ⟨below, -⟩ := List.getElem?_eq_some_iff.mp found
        exact ⟨Nat.lt_of_lt_of_le below few, member, found⟩
  | @pruned start h values digest unasked root =>
      have no_element : (Node.pruned digest).valueAt h j = none := by
        cases h <;> rfl
      rw [no_element]
      constructor
      · intro found
        contradiction
      · rintro ⟨inside, member, -⟩
        exact absurd
          ⟨start + j, member, Nat.le_add_right _ _, Nat.add_lt_add_left inside _⟩ unasked

theorem keepsRules {maxDepth : Nat} (cut : Cut wanted start h values n)
    (low : h ≤ maxDepth) : n.KeepsRules maxDepth where
  elements_le d member := by
    have depth_eq := cut.level 0 d member
    omega
  pruned_le d member := by
    have bound := cut.prunedDepths_le 0 d member
    omega
  elements_eq d member e member' :=
    (cut.level 0 d member).trans (cut.level 0 e member').symm
  has_element branch := cut.elementDepths_ne_nil (cut.asked_of_isBranch branch) 0
  opened := cut.hasPrunedBranch_eq_false
  absence := cut.hasNestedAbsence_eq_false

variable {config : Config}

theorem check_eq_ok (cut : Cut wanted 0 h values n) (low : h ≤ config.effectiveDepth) :
    check n config = .ok ⟨n.rootHash, .ofList (n.elementsAt 0)⟩ :=
  check_eq_ok_iff.mpr ⟨Node.fault?_eq_none_iff.mpr (cut.keepsRules low), rfl⟩

theorem get?_eq_some_iff (cut : Cut wanted 0 h values n) {contents : Contents}
    (checked : check n config = .ok contents) (low : h ≤ 63) {i : UInt64} {v : Bytes} :
    contents.elements.get? i = some v ↔
      i.toNat < 2 ^ h ∧ i.toNat ∈ wanted ∧ values[i.toNat]? = some v := by
  rw [get?_elements_eq_some_iff checked (cut.level 0) low, cut.valueAt_eq_some_iff,
    Nat.zero_add]

theorem check_eq_error (cut : Cut wanted 0 h values n) (asked : Asked wanted 0 h)
    (high : config.effectiveDepth < h) : check n config = .error .elementDepth := by
  obtain ⟨d, deepest⟩ := List.exists_mem_of_ne_nil _ (cut.elementDepths_ne_nil asked 0)
  have depth_eq := cut.level 0 d deepest
  exact check_eq_error_iff.mpr (Node.fault?_of_deep_element deepest (by omega))

end Cut

end MerkleProof.AuthenticatedList

namespace MerkleProof.ListProof

open AuthenticatedList

/-- The proof of wanted values has the root of the list.  Where the list is not higher than
the checker allows, it is accepted and reveals the wanted values and no other; where it is,
and some value is wanted, the depth of the elements is what is wrong with it. -/
theorem proof_reveals_wanted {values : List Bytes} {wanted : List Nat}
    (nonempty : values ≠ []) (few : values.length ≤ 2 ^ 63)
    (held : ∀ i ∈ wanted, i < values.length) :
    ∃ proof digest, proof? values wanted = some proof ∧ root? values = some digest ∧
      ∀ config : Config,
        (Nat.clog 2 values.length ≤ config.effectiveDepth →
          ∃ contents, check proof config = .ok contents ∧ contents.rootHash = digest ∧
            (∀ i ∈ wanted, contents.elements.get? (UInt64.ofNat i) = values[i]?) ∧
            ∀ k, contents.elements.contains k = true → k.toNat ∈ wanted) ∧
        (config.effectiveDepth < Nat.clog 2 values.length → wanted ≠ [] →
          check proof config = .error .elementDepth) := by
  rw [← height_eq_clog]
  have within := le_two_pow_height values.length
  have held' : Held wanted 0 (height values.length) values.length := by
    intro i member _
    rw [Nat.zero_add]
    exact held i member
  obtain ⟨proof, proof_eq, cut⟩ := exists_cut nonempty held'
  refine ⟨proof, proof.rootHash, proof_eq, cut.rootHash, ?_⟩
  intro config
  constructor
  · intro low
    have checked := cut.check_eq_ok low
    have revealed {k : UInt64} {v : Bytes} := cut.get?_eq_some_iff checked
      (Nat.le_trans low (effectiveDepth_le config)) (i := k) (v := v)
    refine ⟨_, checked, rfl, ?_, ?_⟩
    · intro i member
      have below := held i member
      have index : (UInt64.ofNat i).toNat = i :=
        UInt64.toNat_ofNat_of_lt' (Nat.lt_of_lt_of_le below (Nat.le_trans few (by decide)))
      ext v
      rw [revealed, index]
      simp [member, Nat.lt_of_lt_of_le below within]
    · intro k shown
      obtain ⟨v, found⟩ := SortedMap.contains_iff.mp shown
      exact (revealed.mp found).2.1
  · intro high some_wanted
    obtain ⟨i, member⟩ := List.exists_mem_of_ne_nil wanted some_wanted
    have inside : i < 0 + 2 ^ height values.length := by
      have below := held i member
      omega
    exact cut.check_eq_error ⟨i, member, Nat.zero_le i, inside⟩ high

def fiveValues : List Bytes := [[1], [2], [3], [4], [5]]

theorem proof_reveals_wanted_fiveValues :
    ∃ proof digest, proof? fiveValues [0, 4] = some proof ∧
      root? fiveValues = some digest ∧ check proof ⟨2, false⟩ = .error .elementDepth ∧
      ∃ contents, check proof .default = .ok contents ∧ contents.rootHash = digest ∧
        contents.elements.get? 4 = some [5] := by
  obtain ⟨proof, digest, proof_eq, root_eq, checks⟩ :=
    proof_reveals_wanted (show fiveValues ≠ [] by decide) (by decide)
      (show ∀ i ∈ [0, 4], i < 5 by decide)
  have low : Nat.clog 2 fiveValues.length ≤ Config.default.effectiveDepth :=
    Nat.clog_le_of_le_pow (by decide)
  have high : Config.effectiveDepth ⟨2, false⟩ < Nat.clog 2 fiveValues.length :=
    (Nat.lt_clog_iff_pow_lt (by decide)).mpr (by decide)
  obtain ⟨contents, checked, same, revealed, -⟩ := (checks .default).1 low
  exact ⟨proof, digest, proof_eq, root_eq, (checks ⟨2, false⟩).2 high (by decide),
    contents, checked, same, revealed 4 (by decide)⟩

end MerkleProof.ListProof
