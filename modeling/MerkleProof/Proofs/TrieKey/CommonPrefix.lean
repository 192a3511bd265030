import Mathlib.Order.Bounds.Defs
import MerkleProof.Proofs.TrieKey.Lexicographic

/-! The common prefix of two keys is their meet: what is a prefix of both bit
strings is a prefix of its bit string, and nothing else is.  The laws of the meet
follow from this alone. -/

namespace MerkleProof.TrieKey

variable {a b : TrieKey}

theorem toBits_commonPrefix (a b : TrieKey) :
    (commonPrefix a b).toBits = a.toBits.take (commonLength a b) := by
  apply List.ext_getElem?
  intro i
  rw [List.getElem?_take]
  split
  · rename_i below
    rw [getElem?_toBits _ (by rwa [size_commonPrefix]),
      getElem?_toBits a (Nat.lt_of_lt_of_le below (commonLength_le_left a b)),
      bit_commonPrefix, decide_eq_true below, Bool.true_and]
  · rename_i past
    rw [List.getElem?_eq_none]
    rwa [length_toBits, size_commonPrefix, ← Nat.not_lt]

theorem bit_of_start {bits : List Bool} {k : TrieKey} (start : bits <+: k.toBits) {i : Nat}
    (inside : i < bits.length) : k.bit i = bits[i] := by
  rw [start.getElem inside]
  simp [toBits]

theorem length_le_commonLength {bits : List Bool} (left : bits <+: a.toBits)
    (right : bits <+: b.toBits) : bits.length ≤ commonLength a b := by
  refine le_commonLength_iff.mpr
    ⟨a.length_toBits ▸ left.length_le, b.length_toBits ▸ right.length_le, ?_⟩
  intro i inside
  rw [bit_of_start left inside, bit_of_start right inside]

theorem prefix_toBits_commonPrefix_iff {bits : List Bool} :
    bits <+: (commonPrefix a b).toBits ↔ bits <+: a.toBits ∧ bits <+: b.toBits := by
  rw [toBits_commonPrefix, List.prefix_take_iff]
  constructor
  · rintro ⟨left, short⟩
    refine ⟨left, ?_⟩
    have right := List.prefix_take_iff.mpr ⟨left, short⟩
    rw [take_toBits_commonLength] at right
    exact (List.prefix_take_iff.mp right).1
  · rintro ⟨left, right⟩
    exact ⟨left, length_le_commonLength left right⟩

theorem isPrefixOf_iff_toBits : a.isPrefixOf b = true ↔ a.toBits <+: b.toBits := by
  rw [isPrefixOf_iff]
  constructor
  · intro whole
    have shared := take_toBits_commonLength a b
    rw [whole, List.take_of_length_le (by simp)] at shared
    rw [shared]
    exact List.take_prefix _ _
  · intro right
    have long := length_le_commonLength List.prefix_rfl right
    rw [length_toBits] at long
    exact Nat.le_antisymm (commonLength_le_left a b) long

/-! Prefixes of bit strings. -/

theorem prefix_bitString_iff {text : List Char} {k : TrieKey} :
    text <+: k.bitString.toList ↔ ∃ bits, bits <+: k.toBits ∧ text = bits.map digit := by
  rw [toList_bitString_eq, List.prefix_map_iff]

theorem isPrefixOf_iff_bitString :
    a.isPrefixOf b = true ↔ a.bitString.toList <+: b.bitString.toList := by
  rw [isPrefixOf_iff_toBits, toList_bitString_eq, toList_bitString_eq,
    List.prefix_map_iff_of_injective digit_injective]

theorem prefix_commonPrefix_iff {text : List Char} :
    text <+: (commonPrefix a b).bitString.toList ↔
      text <+: a.bitString.toList ∧ text <+: b.bitString.toList := by
  simp only [prefix_bitString_iff, prefix_toBits_commonPrefix_iff]
  constructor
  · rintro ⟨bits, ⟨left, right⟩, written⟩
    exact ⟨⟨bits, left, written⟩, bits, right, written⟩
  · rintro ⟨⟨bits, left, written⟩, others, right, written'⟩
    have same : bits = others :=
      (List.map_inj_right digit_injective).mp (written.symm.trans written')
    exact ⟨bits, ⟨left, same ▸ right⟩, written⟩

/-- Keys whose bit strings have the same prefixes are the same. -/
theorem beq_of_prefixes (same : ∀ text : List Char,
    text <+: a.bitString.toList ↔ text <+: b.bitString.toList) : (a == b) = true := by
  have left := (same _).mp List.prefix_rfl
  have right := (same _).mpr List.prefix_rfl
  have equal := left.eq_of_length (Nat.le_antisymm left.length_le right.length_le)
  exact beq_iff.mpr (bitString_eq_iff.mp (String.toList_inj.mp equal))

theorem prefix_foldl_iff {text : List Char} (first : TrieKey) (rest : List TrieKey) :
    text <+: (rest.foldl commonPrefix first).bitString.toList ↔
      ∀ k ∈ first :: rest, text <+: k.bitString.toList := by
  induction rest generalizing first with
  | nil => simp
  | cons next rest ih =>
      rw [List.foldl_cons, ih, List.forall_mem_cons, prefix_commonPrefix_iff,
        List.forall_mem_cons, List.forall_mem_cons, and_assoc]

theorem isGreatest_commonLength (a b : TrieKey) :
    IsGreatest {n | ∃ text : List Char, text.length = n ∧ text <+: a.bitString.toList ∧
      text <+: b.bitString.toList} (commonLength a b) := by
  have length : (commonPrefix a b).bitString.toList.length = commonLength a b := by
    rw [toList_bitString_eq, List.length_map, length_toBits, size_commonPrefix]
  constructor
  · exact ⟨_, length, prefix_commonPrefix_iff.mp List.prefix_rfl⟩
  · rintro n ⟨text, rfl, shared⟩
    rw [← length]
    exact (prefix_commonPrefix_iff.mpr shared).length_le

theorem isPrefixOf_commonPrefix_iff {p : TrieKey} :
    p.isPrefixOf (commonPrefix a b) = true ↔
      p.isPrefixOf a = true ∧ p.isPrefixOf b = true := by
  rw [isPrefixOf_iff_bitString, isPrefixOf_iff_bitString, isPrefixOf_iff_bitString,
    prefix_commonPrefix_iff]

theorem isLeaf_commonPrefix_iff :
    (commonPrefix a b).isLeaf = true ↔ ∃ slice, a = leaf slice ∧ b = leaf slice := by
  constructor
  · intro whole
    rw [isLeaf_iff_size, size_commonPrefix] at whole
    have left : a.isLeaf = true :=
      (isLeaf_iff_size a).mpr
        (Nat.le_antisymm a.size_le (whole ▸ commonLength_le_left a b))
    have right : b.isLeaf = true :=
      (isLeaf_iff_size b).mpr
        (Nat.le_antisymm b.size_le (whole ▸ commonLength_le_right a b))
    cases a with
    | branch slice length => contradiction
    | leaf slice =>
        cases b with
        | branch other length => contradiction
        | leaf other =>
            have same : compare (leaf slice) (leaf other) = .eq :=
              eq_iff.mpr ⟨rfl, fun _ inside => bit_eq_of_lt_commonLength (whole ▸ inside)⟩
            exact ⟨slice, rfl, congrArg leaf (eq_of_leaf same).symm⟩
  · rintro ⟨slice, rfl, rfl⟩
    rw [commonPrefix_leaf_self, isLeaf_leaf]

/-! Laws of the meet. -/

theorem commonPrefix_self (a : TrieKey) : (commonPrefix a a == a) = true := by
  apply beq_of_prefixes
  intro text
  rw [prefix_commonPrefix_iff, and_self]

theorem commonPrefix_comm (a b : TrieKey) :
    (commonPrefix a b == commonPrefix b a) = true := by
  apply beq_of_prefixes
  intro text
  rw [prefix_commonPrefix_iff, prefix_commonPrefix_iff, and_comm]

theorem commonPrefix_assoc (a b c : TrieKey) :
    (commonPrefix (commonPrefix a b) c == commonPrefix a (commonPrefix b c)) = true := by
  apply beq_of_prefixes
  intro text
  simp only [prefix_commonPrefix_iff, and_assoc]

theorem foldl_commonPrefix_perm {first first' : TrieKey} {rest rest' : List TrieKey}
    (perm : (first :: rest).Perm (first' :: rest')) :
    (rest.foldl commonPrefix first == rest'.foldl commonPrefix first') = true := by
  apply beq_of_prefixes
  intro text
  simp only [prefix_foldl_iff, perm.mem_iff]

/-- The common prefix of two keys is their meet in the order of prefixes, and its length is
that of the longest common prefix of their bit strings.  Taken over the keys of a list, in
any order, it gives the longest prefix that is common to all of them. -/
theorem common_prefix_is_meet :
    (∀ a b : TrieKey,
      IsGreatest {n | ∃ text : List Char, text.length = n ∧ text <+: a.bitString.toList ∧
        text <+: b.bitString.toList} (commonLength a b) ∧
      (a.isPrefixOf b = true ↔ a.bitString.toList <+: b.bitString.toList) ∧
      (commonPrefix a b).isCanonical = true ∧
      (commonPrefix a b).isPrefixOf a = true ∧ (commonPrefix a b).isPrefixOf b = true ∧
      (∀ p : TrieKey, p.isPrefixOf a = true → p.isPrefixOf b = true →
        p.isPrefixOf (commonPrefix a b) = true) ∧
      ((commonPrefix a b).isLeaf = true ↔ ∃ slice, a = leaf slice ∧ b = leaf slice)) ∧
    (∀ a b c : TrieKey, (commonPrefix a a == a) = true ∧
      (commonPrefix a b == commonPrefix b a) = true ∧
      (commonPrefix (commonPrefix a b) c == commonPrefix a (commonPrefix b c)) = true) ∧
    ∀ (first : TrieKey) (rest : List TrieKey),
      (∀ text : List Char, text <+: (rest.foldl commonPrefix first).bitString.toList ↔
        ∀ k ∈ first :: rest, text <+: k.bitString.toList) ∧
      ∀ (first' : TrieKey) (rest' : List TrieKey), (first :: rest).Perm (first' :: rest') →
        (rest.foldl commonPrefix first == rest'.foldl commonPrefix first') = true := by
  refine ⟨?_,
    fun a b c => ⟨commonPrefix_self a, commonPrefix_comm a b, commonPrefix_assoc a b c⟩,
    fun first rest =>
      ⟨fun _ => prefix_foldl_iff first rest, fun _ _ => foldl_commonPrefix_perm⟩⟩
  intro a b
  have below : (commonPrefix a b).isPrefixOf (commonPrefix a b) = true :=
    isPrefixOf_iff_toBits.mpr List.prefix_rfl
  obtain ⟨below_left, below_right⟩ := isPrefixOf_commonPrefix_iff.mp below
  exact ⟨isGreatest_commonLength a b, isPrefixOf_iff_bitString,
    isCanonical_commonPrefix a b, below_left, below_right,
    fun p left right => isPrefixOf_commonPrefix_iff.mpr ⟨left, right⟩,
    isLeaf_commonPrefix_iff⟩

theorem common_prefix_is_meet_untidy :
    (ofBits [false]).isPrefixOf untidy = true ∧
      (ofBits [false]).isPrefixOf (ofBits [false, false]) = true ∧
      (ofBits [false]).isPrefixOf (commonPrefix untidy (ofBits [false, false])) = true ∧
      [untidy, ofBits [false, false], ofBits [false]].Perm
        [ofBits [false], untidy, ofBits [false, false]] ∧
      ([ofBits [false, false], ofBits [false]].foldl commonPrefix untidy ==
        [untidy, ofBits [false, false]].foldl commonPrefix (ofBits [false])) = true := by
  obtain ⟨meet, -, folds⟩ := common_prefix_is_meet
  have left : (ofBits [false]).isPrefixOf untidy = true := by decide +kernel
  have right : (ofBits [false]).isPrefixOf (ofBits [false, false]) = true := by
    decide +kernel
  obtain ⟨-, -, -, -, -, greatest, -⟩ := meet untidy (ofBits [false, false])
  have perm : [untidy, ofBits [false, false], ofBits [false]].Perm
      [ofBits [false], untidy, ofBits [false, false]] :=
    List.perm_append_singleton (ofBits [false]) [untidy, ofBits [false, false]]
  exact ⟨left, right, greatest _ left right, perm, (folds untidy _).2 _ _ perm⟩

end MerkleProof.TrieKey
