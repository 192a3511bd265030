import MerkleProof.Proofs.TrieKey.Bits

/-! The order of keys is the lexicographic order of their bits, and it fits together with
common prefixes: between ascending keys the shared prefix never grows with the distance. -/

namespace MerkleProof.TrieKey

variable {a b c d : TrieKey}

theorem bit_eq_of_lt_commonLength {i : Nat} (below : i < commonLength a b) :
    a.bit i = b.bit i :=
  (le_commonLength_iff.mp (Nat.le_refl _)).2.2 i below

theorem lt_commonLength {n : Nat} (shared : n ≤ commonLength a b) (left : n < a.size)
    (right : n < b.size) (same : a.bit n = b.bit n) : n < commonLength a b := by
  refine le_commonLength_iff.mpr ⟨left, right, ?_⟩
  intro i below
  rcases Nat.lt_succ_iff_lt_or_eq.mp below with earlier | rfl
  · exact bit_eq_of_lt_commonLength (Nat.lt_of_lt_of_le earlier shared)
  · exact same

theorem bit_ne_commonLength (left : commonLength a b < a.size)
    (right : commonLength a b < b.size) :
    a.bit (commonLength a b) ≠ b.bit (commonLength a b) := by
  intro same
  exact Nat.lt_irrefl _ (lt_commonLength (Nat.le_refl _) left right same)

theorem commonLength_comm (a b : TrieKey) : commonLength a b = commonLength b a := by
  apply Nat.le_antisymm <;>
  · rw [le_commonLength_iff]
    exact ⟨commonLength_le_right _ _, commonLength_le_left _ _,
      fun i below => (bit_eq_of_lt_commonLength below).symm⟩

@[simp] theorem commonLength_self (a : TrieKey) : commonLength a a = a.size :=
  Nat.le_antisymm (commonLength_le_left a a)
    (le_commonLength_iff.mpr ⟨Nat.le_refl _, Nat.le_refl _, fun _ _ => rfl⟩)

theorem min_commonLength_le (a b c : TrieKey) :
    min (commonLength a b) (commonLength b c) ≤ commonLength a c := by
  have left := commonLength_le_left a b
  have right := commonLength_le_right b c
  refine le_commonLength_iff.mpr ⟨by omega, by omega, ?_⟩
  intro i below
  have first : a.bit i = b.bit i := bit_eq_of_lt_commonLength (by omega)
  have second : b.bit i = c.bit i := bit_eq_of_lt_commonLength (by omega)
  exact first.trans second

/-- Keys that share more with each other than with a third one share the
same with that one. -/
theorem commonLength_of_lt (longer : commonLength b c < commonLength a b) :
    commonLength a c = commonLength b c := by
  have least := min_commonLength_le a b c
  have back := min_commonLength_le b a c
  rw [commonLength_comm b a] at back
  omega

/-! Comparison. -/

theorem compare_of_bits (left : commonLength a b < a.size)
    (right : commonLength a b < b.size) :
    compare a b = compare (a.bit (commonLength a b)) (b.bit (commonLength a b)) :=
  if_pos (Nat.lt_min.mpr ⟨left, right⟩)

theorem compare_of_sizes (short : a.size ≤ commonLength a b ∨ b.size ≤ commonLength a b) :
    compare a b = compare a.size b.size :=
  if_neg (by omega)

theorem eq_iff :
    compare a b = .eq ↔ a.size = b.size ∧ ∀ i, i < a.size → a.bit i = b.bit i := by
  have left := commonLength_le_left a b
  have right := commonLength_le_right a b
  constructor
  · intro equal
    by_cases short : a.size ≤ commonLength a b ∨ b.size ≤ commonLength a b
    · rw [compare_of_sizes short, Nat.compare_eq_eq] at equal
      exact ⟨equal, fun i below => bit_eq_of_lt_commonLength (by omega)⟩
    · rw [compare_of_bits (by omega) (by omega)] at equal
      exact absurd (Std.LawfulEqOrd.eq_of_compare equal)
        (bit_ne_commonLength (by omega) (by omega))
  · rintro ⟨sizes, bits⟩
    have whole : a.size ≤ commonLength a b :=
      le_commonLength_iff.mpr ⟨Nat.le_refl _, Nat.le_of_eq sizes, bits⟩
    rw [compare_of_sizes (.inl whole), Nat.compare_eq_eq]
    exact sizes

theorem eq_of_leaf {j k : Bytes32} (same : compare (leaf j) (leaf k) = .eq) : j = k :=
  Bytes32.ext_bit (eq_iff.mp same).2

theorem lt_iff : compare a b = .lt ↔ commonLength a b < b.size ∧
    (commonLength a b < a.size → b.bit (commonLength a b) = true) := by
  have left := commonLength_le_left a b
  have right := commonLength_le_right a b
  by_cases short : a.size ≤ commonLength a b ∨ b.size ≤ commonLength a b
  · rw [compare_of_sizes short, Nat.compare_eq_lt]
    constructor
    · intro shorter
      exact ⟨by omega, fun inside => by omega⟩
    · rintro ⟨inside, -⟩
      omega
  · have apart := bit_ne_commonLength (a := a) (b := b) (by omega) (by omega)
    rw [compare_of_bits (by omega) (by omega)]
    cases x : a.bit (commonLength a b) with
    | false =>
        cases y : b.bit (commonLength a b) with
        | false => exact absurd (x.trans y.symm) apart
        | true => exact ⟨fun _ => ⟨by omega, fun _ => rfl⟩, fun _ => rfl⟩
    | true =>
        cases y : b.bit (commonLength a b) with
        | false =>
            exact ⟨fun h => by contradiction, fun h => by simpa using h.2 (by omega)⟩
        | true => exact absurd (x.trans y.symm) apart

theorem compare_drop (n : Nat) {x y : List Bool} (shared : x.take n = y.take n)
    (left : n ≤ x.length) (right : n ≤ y.length) :
    compare x y = compare (x.drop n) (y.drop n) := by
  induction n generalizing x y with
  | zero => rfl
  | succ n ih =>
      cases x with
      | nil => simp at left
      | cons p x =>
          cases y with
          | nil => simp at right
          | cons q y =>
              simp only [List.take_succ_cons, List.cons.injEq] at shared
              obtain ⟨rfl, shared⟩ := shared
              rw [List.compare_cons_cons, Std.ReflOrd.compare_self]
              exact ih shared (by simpa using left) (by simpa using right)

theorem take_toBits_commonLength (a b : TrieKey) :
    a.toBits.take (commonLength a b) = b.toBits.take (commonLength a b) := by
  apply List.ext_getElem?
  intro i
  rw [List.getElem?_take, List.getElem?_take]
  split
  · rename_i below
    have left := commonLength_le_left a b
    have right := commonLength_le_right a b
    rw [getElem?_toBits a (by omega), getElem?_toBits b (by omega),
      bit_eq_of_lt_commonLength below]
  · rfl

theorem drop_toBits (k : TrieKey) {n : Nat} (inside : n < k.size) :
    k.toBits.drop n = k.bit n :: k.toBits.drop (n + 1) := by
  have bound : n < k.toBits.length := by simpa using inside
  rw [List.drop_eq_getElem_cons bound]
  simp [toBits]

theorem compare_of_nil : ∀ {x y : List Bool}, x = [] ∨ y = [] →
    compare x y = compare x.length y.length
  | [], [], _ => rfl
  | [], _ :: y, _ => (Nat.compare_eq_lt.mpr (Nat.zero_lt_succ y.length)).symm
  | _ :: x, [], _ => (Nat.compare_eq_gt.mpr (Nat.zero_lt_succ x.length)).symm

theorem compare_cons_of_ne {p q : Bool} (apart : p ≠ q) (x y : List Bool) :
    compare (p :: x) (q :: y) = compare p q := by
  rw [List.compare_cons_cons]
  cases p with
  | false =>
      cases q with
      | false => contradiction
      | true => rfl
  | true =>
      cases q with
      | false => rfl
      | true => contradiction

/-- Keys compare as the lists of their significant bits do. -/
theorem compare_toBits (a b : TrieKey) : compare a.toBits b.toBits = compare a b := by
  have left := commonLength_le_left a b
  have right := commonLength_le_right a b
  rw [compare_drop (commonLength a b) (take_toBits_commonLength a b) (by simpa using left)
    (by simpa using right)]
  by_cases short : a.size ≤ commonLength a b ∨ b.size ≤ commonLength a b
  · rw [compare_of_sizes short, compare_of_nil, List.length_drop, List.length_drop,
      length_toBits, length_toBits]
    · have less :
          a.size - commonLength a b < b.size - commonLength a b ↔ a.size < b.size := by
        omega
      have more :
          b.size - commonLength a b < a.size - commonLength a b ↔ b.size < a.size := by
        omega
      rw [Nat.compare_eq_ite_lt, Nat.compare_eq_ite_lt]
      simp only [less, more]
    · exact short.imp (fun done => List.drop_eq_nil_of_le (by simpa using done))
        (fun done => List.drop_eq_nil_of_le (by simpa using done))
  · rw [compare_of_bits (by omega) (by omega), drop_toBits a (by omega),
      drop_toBits b (by omega)]
    exact compare_cons_of_ne (bit_ne_commonLength (by omega) (by omega)) _ _

instance : Std.TransOrd TrieKey where
  eq_swap {a b} := by
    rw [← compare_toBits, ← compare_toBits]
    exact Std.OrientedOrd.eq_swap
  isLE_trans {a b c} hab hbc := by
    rw [← compare_toBits] at *
    exact Std.TransOrd.isLE_trans hab hbc

theorem lt_trans (ab : compare a b = .lt) (bc : compare b c = .lt) : compare a c = .lt :=
  Std.TransCmp.lt_trans ab bc

theorem isLE_total (a b : TrieKey) :
    ((compare a b).isLE || (compare b a).isLE) = true := by
  rw [show compare b a = (compare a b).swap from Std.OrientedOrd.eq_swap]
  cases compare a b <;> rfl

/-! Prefixes of ascending keys. -/

theorem isLE_iff : (compare a b).isLE = true ↔ (commonLength a b < a.size →
    commonLength a b < b.size ∧ b.bit (commonLength a b) = true) := by
  have left := commonLength_le_left a b
  have right := commonLength_le_right a b
  rw [Ordering.isLE_iff_eq_lt_or_eq_eq, lt_iff, eq_iff]
  constructor
  · rintro (⟨inside, bit⟩ | ⟨sizes, bits⟩) short
    · exact ⟨inside, bit short⟩
    · have whole : a.size ≤ commonLength a b :=
        le_commonLength_iff.mpr ⟨Nat.le_refl _, Nat.le_of_eq sizes, bits⟩
      omega
  · intro h
    by_cases inside : commonLength a b < b.size
    · exact .inl ⟨inside, fun short => (h short).2⟩
    · have sizes : a.size = b.size := by omega
      exact .inr ⟨sizes, fun i below => bit_eq_of_lt_commonLength (by omega)⟩

theorem commonLength_le_of_isLE (ab : (compare a b).isLE = true)
    (bc : (compare b c).isLE = true) : commonLength a c ≤ commonLength a b := by
  apply Nat.le_of_not_lt
  intro longer
  have left := commonLength_le_left a c
  have right := commonLength_le_right a c
  obtain ⟨inside, one⟩ := isLE_iff.mp ab (by omega)
  have apart := bit_ne_commonLength (a := a) (b := b) (by omega) inside
  have same : a.bit (commonLength a b) = c.bit (commonLength a b) :=
    bit_eq_of_lt_commonLength longer
  -- the middle key has a set bit where the outer two have none
  have meet : commonLength b c = commonLength a b := by
    apply Nat.le_antisymm
    · apply Nat.le_of_not_lt
      intro further
      exact apart (same.trans (bit_eq_of_lt_commonLength further).symm)
    · have least := min_commonLength_le b a c
      rw [commonLength_comm b a] at least
      omega
  obtain ⟨-, other⟩ := isLE_iff.mp bc (by omega)
  rw [meet] at other
  exact apart (same.trans (other.trans one.symm))

/-- Between ascending keys the outer common prefix is the shorter one of the inner two. -/
theorem commonLength_of_isLE (ab : (compare a b).isLE = true)
    (bc : (compare b c).isLE = true) :
    commonLength a c = min (commonLength a b) (commonLength b c) := by
  have left := commonLength_le_of_isLE ab bc
  have least := min_commonLength_le a b c
  have right := min_commonLength_le b a c
  rw [commonLength_comm b a] at right
  omega

theorem commonLength_congr (same : compare a b = .eq) (c : TrieKey) :
    commonLength a c = commonLength b c := by
  obtain ⟨sizes, bits⟩ := eq_iff.mp same
  have whole : commonLength a b = a.size :=
    Nat.le_antisymm (commonLength_le_left a b)
      (le_commonLength_iff.mpr ⟨Nat.le_refl _, Nat.le_of_eq sizes, bits⟩)
  have left := commonLength_le_left a c
  have right := commonLength_le_left b c
  have on_left := min_commonLength_le a b c
  have on_right := min_commonLength_le b a c
  rw [commonLength_comm b a] at on_right
  omega

theorem compare_congr (left : compare a c = .eq) (right : compare b d = .eq) :
    compare a b = compare c d :=
  (Std.TransCmp.congr_left left).trans (Std.TransCmp.congr_right right)

theorem isPrefixOf_iff : a.isPrefixOf b = true ↔ commonLength a b = a.size := by
  unfold isPrefixOf
  have right := commonLength_le_right a b
  simp only [Bool.and_eq_true, decide_eq_true_eq, and_iff_right_iff_imp]
  intro whole
  omega

theorem isPrefixOf_eq_false_iff : a.isPrefixOf b = false ↔ commonLength a b < a.size := by
  have left := commonLength_le_left a b
  rw [← Bool.not_eq_true, isPrefixOf_iff]
  omega

/-! The key of a common prefix. -/

theorem bit_commonPrefix (a b : TrieKey) (i : Nat) :
    (commonPrefix a b).bit i = (decide (i < commonLength a b) && a.bit i) := by
  unfold commonPrefix
  split
  · exact Bytes32.bit_mask a.slice _ i
  · rename_i whole
    by_cases inside : i < 256
    · have below : i < commonLength a b := by omega
      simp [bit, below]
    · have past : 256 ≤ i := by omega
      rw [bit_of_le _ past, bit_of_le _ past, Bool.and_false]

theorem commonPrefix_congr (sizes : commonLength a b = commonLength c d)
    (bits : ∀ i, i < commonLength a b → a.bit i = c.bit i) :
    commonPrefix a b = commonPrefix c d := by
  unfold commonPrefix
  split
  · rename_i short
    have slices : a.slice.mask (commonLength c d) = c.slice.mask (commonLength c d) :=
      Bytes32.mask_congr (sizes ▸ bits)
    rw [dif_pos (sizes ▸ short)]
    simp only [sizes, slices]
  · rename_i whole
    rw [dif_neg (sizes ▸ whole)]
    congr 1
    apply Bytes32.ext_bit
    intro i inside
    exact bits i (by omega)

theorem commonPrefix_of_eq (left : compare a c = .eq) (right : compare b d = .eq) :
    commonPrefix a b = commonPrefix c d := by
  apply commonPrefix_congr
  · rw [commonLength_congr left, commonLength_comm c, commonLength_congr right,
      commonLength_comm d]
  · intro i below
    exact (eq_iff.mp left).2 i (Nat.lt_of_lt_of_le below (commonLength_le_left a b))

/-! Canonical keys. -/

theorem isCanonical_iff {k : TrieKey} :
    k.isCanonical = true ↔ ∀ i, k.size ≤ i → k.bit i = false := by
  rw [isCanonical, decide_eq_true_iff]
  constructor
  · intro clean i past
    rw [bit, ← clean, masked, Bytes32.bit_mask, decide_eq_false (Nat.not_lt.mpr past),
      Bool.false_and]
  · intro clear
    apply Bytes32.ext_bit
    intro i _
    rw [masked, Bytes32.bit_mask]
    by_cases inside : i < k.size
    · rw [decide_eq_true inside, Bool.true_and]
    · rw [decide_eq_false inside, Bool.false_and]
      exact (clear i (Nat.le_of_not_lt inside)).symm

theorem isCanonical_leaf (s : Bytes32) : (leaf s).isCanonical = true :=
  isCanonical_iff.mpr fun _ past => bit_of_le _ past

theorem isCanonical_commonPrefix (a b : TrieKey) :
    (commonPrefix a b).isCanonical = true := by
  apply isCanonical_iff.mpr
  intro i past
  rw [size_commonPrefix] at past
  rw [bit_commonPrefix, decide_eq_false (Nat.not_lt.mpr past), Bool.false_and]

theorem commonPrefix_leaf_self (s : Bytes32) :
    commonPrefix (leaf s) (leaf s) = leaf s := by
  rw [commonPrefix, dif_neg (by simp)]
  rfl

end MerkleProof.TrieKey
