import Mathlib.Data.List.Pairwise
import MerkleProof.Proofs.TrieKey.CommonPrefix

/-! Sorted keys and their prefixes.  The first and the last of sorted keys share what
all of them share, and the keys under a prefix stand together: no key comes between them
that is not under it too. -/

namespace MerkleProof.TrieKey

variable {a b c k p : TrieKey} {keys : List TrieKey}

def Sorted (keys : List TrieKey) : Prop :=
  keys.Pairwise fun a b => (compare a b).isLE = true

instance (keys : List TrieKey) : Decidable (Sorted keys) :=
  inferInstanceAs (Decidable (keys.Pairwise fun a b => (compare a b).isLE = true))

instance : Std.Refl fun a b : TrieKey => (compare a b).isLE = true :=
  ⟨fun _ => Std.ReflOrd.isLE_rfl⟩

theorem isLE_or_lt (a b : TrieKey) : (compare a b).isLE = true ∨ compare b a = .lt := by
  cases order : compare a b with
  | lt => exact .inl rfl
  | eq => exact .inl rfl
  | gt => exact .inr (Std.OrientedCmp.lt_of_gt order)

theorem not_lt_of_isLE (ab : (compare a b).isLE = true) : compare b a ≠ .lt := by
  intro less
  rw [Std.OrientedCmp.gt_of_lt less] at ab
  contradiction

theorem isPrefixOf_self (p : TrieKey) : p.isPrefixOf p = true :=
  isPrefixOf_iff.mpr (commonLength_self p)

theorem isLE_of_isPrefixOf (under : p.isPrefixOf a = true) :
    (compare p a).isLE = true := by
  rw [isPrefixOf_iff] at under
  apply isLE_iff.mpr
  intro short
  omega

theorem isPrefixOf_of_between (ab : (compare a b).isLE = true)
    (bc : (compare b c).isLE = true) (first : p.isPrefixOf a = true)
    (last : p.isPrefixOf c = true) : p.isPrefixOf b = true := by
  rw [isPrefixOf_iff] at first last ⊢
  have outer := min_commonLength_le a p c
  rw [commonLength_comm a p] at outer
  have inner := commonLength_le_of_isLE ab bc
  have least := min_commonLength_le p a b
  have most := commonLength_le_left p b
  omega

/-! The common prefix of sorted keys. -/

theorem Sorted.isPrefixOf_of_ends {first : TrieKey} {rest : List TrieKey}
    (sorted : Sorted (first :: rest)) (on_left : p.isPrefixOf first = true)
    (on_right : p.isPrefixOf ((first :: rest).getLast (List.cons_ne_nil _ _)) = true)
    (member : k ∈ first :: rest) : p.isPrefixOf k = true := by
  have above : (compare first k).isLE = true := List.Pairwise.rel_head sorted member
  have below : (compare k ((first :: rest).getLast (List.cons_ne_nil _ _))).isLE = true :=
    List.Pairwise.rel_getLast sorted member
  exact isPrefixOf_of_between above below on_left on_right

theorem Sorted.isPrefixOf_commonPrefix_iff {first : TrieKey} {rest : List TrieKey}
    (sorted : Sorted (first :: rest)) :
    p.isPrefixOf
        (first.commonPrefix ((first :: rest).getLast (List.cons_ne_nil _ _))) = true ↔
      ∀ k ∈ first :: rest, p.isPrefixOf k = true := by
  rw [TrieKey.isPrefixOf_commonPrefix_iff]
  constructor
  · intro ⟨on_left, on_right⟩ k member
    exact sorted.isPrefixOf_of_ends on_left on_right member
  · intro all
    exact ⟨all _ List.mem_cons_self, all _ (List.getLast_mem _)⟩

theorem Sorted.commonPrefix_beq_foldl {first : TrieKey} {rest : List TrieKey}
    (sorted : Sorted (first :: rest)) :
    (first.commonPrefix ((first :: rest).getLast (List.cons_ne_nil _ _)) ==
      rest.foldl commonPrefix first) = true := by
  apply beq_of_prefixes
  intro text
  rw [prefix_foldl_iff]
  constructor
  · intro starts k member
    have under := sorted.isPrefixOf_commonPrefix_iff.mp (isPrefixOf_self _) k member
    exact starts.trans (isPrefixOf_iff_bitString.mp under)
  · intro starts
    exact prefix_commonPrefix_iff.mpr
      ⟨starts _ List.mem_cons_self, starts _ (List.getLast_mem _)⟩

/-! The keys under a prefix. -/

/-- The key is greater than every key that starts with the prefix. -/
def IsPast (k p : TrieKey) : Prop := ∀ q, p.isPrefixOf q = true → compare q k = .lt

theorem place_cases (p k : TrieKey) :
    compare k p = .lt ∨ p.isPrefixOf k = true ∨ k.IsPast p := by
  rcases isLE_or_lt p k with above | below
  · by_cases under : p.isPrefixOf k = true
    · exact .inr (.inl under)
    · right
      right
      intro q q_under
      refine (isLE_or_lt k q).resolve_left ?_
      intro k_q
      exact under (isPrefixOf_of_between above k_q (isPrefixOf_self p) q_under)
  · exact .inl below

theorem not_under_of_lt (below : compare k p = .lt) : ¬p.isPrefixOf k = true := by
  intro under
  exact not_lt_of_isLE (isLE_of_isPrefixOf under) below

theorem IsPast.not_under (past : k.IsPast p) : ¬p.isPrefixOf k = true := by
  intro under
  have less := past k under
  rw [Std.ReflOrd.compare_self] at less
  contradiction

theorem IsPast.of_isLE (past : a.IsPast p) (ab : (compare a b).isLE = true) : b.IsPast p :=
  fun q under => Std.TransCmp.lt_of_lt_of_isLE (past q under) ab

/-- What comes before the keys under a prefix is less than the prefix, and what comes after
them is greater than any key that could be under it. -/
theorem Sorted.exists_run (sorted : Sorted keys) (p : TrieKey) :
    ∃ before after, keys = before ++ keys.filter p.isPrefixOf ++ after ∧
      (∀ k ∈ before, compare k p = .lt) ∧ ∀ k ∈ after, k.IsPast p := by
  induction keys with
  | nil => exact ⟨[], [], rfl, by simp, by simp⟩
  | cons k keys ih =>
      obtain ⟨least, later⟩ := List.pairwise_cons.mp sorted
      obtain ⟨before, after, same, smaller, greater⟩ := ih later
      rcases place_cases p k with below | under | past
      · refine ⟨k :: before, after, ?_, List.forall_mem_cons.mpr ⟨below, smaller⟩, greater⟩
        rw [List.filter_cons_of_neg (not_under_of_lt below), List.cons_append,
          List.cons_append, ← same]
      · -- no later key is below the prefix, as none is less than this one
        have none : before = [] := by
          apply List.eq_nil_iff_forall_not_mem.mpr
          intro j member
          have j_later : j ∈ keys := by
            rw [same, List.append_assoc]
            exact List.mem_append_left _ member
          have p_j := Std.TransOrd.isLE_trans (isLE_of_isPrefixOf under) (least j j_later)
          exact not_lt_of_isLE p_j (smaller j member)
        subst none
        refine ⟨[], after, ?_, by simp, greater⟩
        rw [List.filter_cons_of_pos under, List.nil_append, List.cons_append]
        exact congrArg (k :: ·) same
      · have all_past : ∀ j ∈ k :: keys, j.IsPast p := by
          intro j member
          exact past.of_isLE (List.Pairwise.rel_head sorted member)
        have none : (k :: keys).filter p.isPrefixOf = [] :=
          List.filter_eq_nil_iff.mpr fun j member => (all_past j member).not_under
        exact ⟨[], k :: keys, by rw [none]; rfl, by simp, all_past⟩

/-- Of ascending keys the outer two share what both neighbours share.  So the common prefix
of the first and the last of sorted keys is that of all of them, and the keys that start
with a prefix stand together, where the prefix is the least that could stand. -/
theorem prefixes_of_sorted_keys :
    (∀ a b c : TrieKey, (compare a b).isLE = true → (compare b c).isLE = true →
      commonLength a c = min (commonLength a b) (commonLength b c)) ∧
    (∀ (first : TrieKey) (rest : List TrieKey), Sorted (first :: rest) →
      (first.commonPrefix ((first :: rest).getLast (List.cons_ne_nil _ _)) ==
        rest.foldl commonPrefix first) = true ∧
      ∀ p : TrieKey,
        p.isPrefixOf
            (first.commonPrefix ((first :: rest).getLast (List.cons_ne_nil _ _))) = true ↔
          ∀ k ∈ first :: rest, p.isPrefixOf k = true) ∧
    ∀ keys : List TrieKey, Sorted keys → ∀ p : TrieKey,
      (∃ before after, keys = before ++ keys.filter p.isPrefixOf ++ after ∧
        (∀ k ∈ before, compare k p = .lt) ∧ ∀ k ∈ after, k.IsPast p) ∧
      p.isPrefixOf p = true ∧ ∀ q, p.isPrefixOf q = true → (compare p q).isLE = true := by
  refine ⟨fun a b c => commonLength_of_isLE, ?_, ?_⟩
  · intro first rest sorted
    exact ⟨sorted.commonPrefix_beq_foldl, fun p => sorted.isPrefixOf_commonPrefix_iff⟩
  · intro keys sorted p
    exact ⟨sorted.exists_run p, isPrefixOf_self p, fun q => isLE_of_isPrefixOf⟩

theorem prefixes_of_sorted_keys_untidy :
    ∃ first rest, first = ofBits [false] ∧
      rest = [untidy, ofBits [false, true], leaf (.ofBits [true])] ∧
      Sorted (first :: rest) ∧
      (first.commonPrefix (leaf (.ofBits [true])) ==
        rest.foldl commonPrefix first) = true ∧
      (compare first untidy).isLE = true ∧
      (compare untidy (leaf (.ofBits [true]))).isLE = true ∧
      commonLength first (leaf (.ofBits [true])) =
        min (commonLength first untidy) (commonLength untidy (leaf (.ofBits [true]))) ∧
      ∃ before after,
        first :: rest = before ++ (first :: rest).filter untidy.isPrefixOf ++ after ∧
          (∀ k ∈ before, compare k untidy = .lt) ∧ ∀ k ∈ after, k.IsPast untidy := by
  obtain ⟨outer, ends, runs⟩ := prefixes_of_sorted_keys
  have sorted :
      Sorted [ofBits [false], untidy, ofBits [false, true], leaf (.ofBits [true])] := by
    decide +kernel
  have first : (compare (ofBits [false]) untidy).isLE = true := by decide +kernel
  have second : (compare untidy (leaf (.ofBits [true]))).isLE = true := by decide +kernel
  exact ⟨_, _, rfl, rfl, sorted, (ends _ _ sorted).1, first, second,
    outer _ _ _ first second, (runs _ sorted untidy).1⟩

end MerkleProof.TrieKey
