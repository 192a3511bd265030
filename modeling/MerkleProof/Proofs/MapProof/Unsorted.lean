import MerkleProof.Proofs.MapProof.Answers
import MerkleProof.Proofs.MapProof.Status
import MerkleProof.Proofs.MapProof.TrailingBits

/-! Proofs of entries that come in any order.  Entries at different keys can be sorted in
one way only, and two entries at one key end up as neighbours, where they are found. -/

namespace MerkleProof.MapProof

open TrieKey Trie

def Distinct (entries : List Entry) : Prop :=
  entries.Pairwise fun a b => compare a.key b.key ≠ .eq

def Sorted (entries : List Entry) : Prop :=
  entries.Pairwise fun a b => (compare a.key b.key).isLE = true

variable {entries others : List Entry}

theorem Distinct.perm (perm : entries.Perm others) : Distinct entries ↔ Distinct others :=
  perm.pairwise_iff fun apart same => apart (Std.OrientedCmp.eq_comm.mp same)

theorem not_distinct_iff : ¬Distinct entries ↔
    ∃ i j : Fin entries.length, i ≠ j ∧ compare entries[i].key entries[j].key = .eq := by
  simp only [Distinct, List.pairwise_iff_getElem]
  constructor
  · intro repeated
    push Not at repeated
    obtain ⟨i, j, i_lt, j_lt, before, same⟩ := repeated
    exact ⟨⟨i, i_lt⟩, ⟨j, j_lt⟩,
      fun h => absurd (congrArg Fin.val h) (Nat.ne_of_lt before), same⟩
  · rintro ⟨i, j, apart, same⟩ distinct
    rcases Nat.lt_or_gt_of_ne (Fin.val_ne_of_ne apart) with before | after
    · exact distinct i j i.isLt j.isLt before same
    · exact distinct j i j.isLt i.isLt after (Std.OrientedCmp.eq_comm.mp same)

theorem ascending_iff :
    Ascending Entry.key entries ↔ Sorted entries ∧ Distinct entries := by
  rw [Ascending, Sorted, Distinct, ← List.pairwise_and_iff]
  have step (a b : Entry) : compare a.key b.key = .lt ↔
      (compare a.key b.key).isLE = true ∧ compare a.key b.key ≠ .eq := by
    cases compare a.key b.key <;> simp
  simp only [step]

/-- Ascending entries can be put in order in one way only. -/
theorem eq_of_perm (perm : entries.Perm others) (ascending : Ascending Entry.key entries)
    (ascending' : Ascending Entry.key others) : entries = others := by
  refine perm.eq_of_pairwise ?_ ascending ascending'
  intro a b _ _ less greater
  rw [Std.OrientedCmp.gt_of_lt less] at greater
  contradiction

section

variable (entries) (requested : SortedSet MapKey)

theorem perm_ofUnsorted : (ofUnsorted entries requested).entries.Perm entries :=
  List.mergeSort_perm entries _

theorem sorted_ofUnsorted : Sorted (ofUnsorted entries requested).entries :=
  List.pairwise_mergeSort (fun _ _ _ => Std.TransCmp.isLE_trans)
    (fun a b => isLE_total a.key b.key) entries

end

theorem ofUnsorted_of_ascending (ascending : Ascending Entry.key entries)
    (requested : SortedSet MapKey) :
    ofUnsorted entries requested = ⟨entries, requested⟩ := by
  rw [ofUnsorted, sorted, List.mergeSort_of_pairwise (ascending_iff.mp ascending).1]

/-! Faults of sorted entries. -/

/-- A key that occurs twice is the only fault that the order of sorted entries can have. -/
theorem orderFault?_of_sorted (in_order : Sorted entries) (repeated : ¬Distinct entries) :
    orderFault? entries = some .duplicatePath := by
  cases order : orderFault? entries with
  | none => exact absurd (ascending_iff.mp (orderFault?_eq_none_iff.mp order)).2 repeated
  | some fault =>
      rcases orderFault?_eq_some_iff.mp order with
        ⟨⟨before, a, b, after, rfl, _, falls⟩, _⟩ | ⟨_, rfl⟩
      · have onwards : Sorted (a :: b :: after) :=
          List.Pairwise.sublist (List.sublist_append_right before _) in_order
        have below := (List.pairwise_cons.mp onwards).1 b List.mem_cons_self
        rw [Std.OrientedCmp.gt_of_lt falls] at below
        contradiction
      · rfl

theorem orderFault?_of_sorted_cases (in_order : Sorted entries) {fault : Fault}
    (found : orderFault? entries = some fault) :
    fault = .duplicatePath ∧ ¬Distinct entries := by
  have repeated : ¬Distinct entries := by
    intro distinct
    rw [orderFault?_eq_none_iff.mpr (ascending_iff.mpr ⟨in_order, distinct⟩)] at found
    contradiction
  rw [orderFault?_of_sorted in_order repeated] at found
  exact ⟨(Option.some.inj found).symm, repeated⟩

theorem refusesKeys_iff {strict : Bool} :
    refusesKeys strict entries = true ↔
      strict = true ∧ ∃ e ∈ entries, e.HasTrailingBit := by
  simp only [refusesKeys, Bool.and_eq_true, Bool.not_eq_true', List.all_eq_false,
    Entry.hasTrailingBit_iff]

theorem refusesKeys_perm (perm : entries.Perm others) (strict : Bool) :
    refusesKeys strict entries = refusesKeys strict others := by
  rw [refusesKeys, refusesKeys, perm.all_eq]

theorem rootHash_of_sorted_cases {strict : Bool} {fault : Fault}
    (in_order : Sorted entries) (refused : rootHash strict entries = .error fault) :
    fault = .nonCanonicalKey ∧ refusesKeys strict entries = true ∨
      fault = .duplicatePath ∧ ¬Distinct entries ∨
        fault = .invalidLeafHash ∨ fault = .nonTerminalNode := by
  obtain ⟨_, _, _, present, _⟩ := rootHash_eq_error_iff.mp refused
  cases fault with
  | nonCanonicalKey => exact .inl ⟨rfl, Fault.nonCanonicalKey_isIn_iff.mp present⟩
  | invalidOrder =>
      have order := (Fault.order_isIn_iff (.inl rfl)).mp present
      exact .inr (.inl (orderFault?_of_sorted_cases in_order order))
  | duplicatePath =>
      have order := (Fault.order_isIn_iff (.inr rfl)).mp present
      exact .inr (.inl (orderFault?_of_sorted_cases in_order order))
  | invalidLeafHash => exact .inr (.inr (.inl rfl))
  | nonTerminalNode => exact .inr (.inr (.inr rfl))

theorem rootHash_of_repeated {strict : Bool} (in_order : Sorted entries)
    (repeated : ¬Distinct entries) :
    rootHash strict entries =
      .error
        (if refusesKeys strict entries then .nonCanonicalKey else .duplicatePath) := by
  split
  · rename_i keys
    exact rootHash_of_refusesKeys keys
  · rename_i keys
    rw [rootHash_of_acceptsKeys keys, orderFault?_of_sorted in_order repeated]

/-! Checks of entries in any order. -/

section

variable (requested : SortedSet MapKey) (config : Config)

theorem check_ofUnsorted_of_repeated (repeated : ¬Distinct entries) :
    check (ofUnsorted entries requested) config =
      .error (if refusesKeys config.strictKeys entries then .nonCanonicalKey
        else .duplicatePath) := by
  have perm := perm_ofUnsorted entries requested
  rw [check_eq_error_iff, rootHash_of_repeated (sorted_ofUnsorted entries requested)
    (mt (Distinct.perm perm).mp repeated), refusesKeys_perm perm]

theorem check_ofUnsorted_perm (perm : entries.Perm others) :
    check (ofUnsorted entries requested) config =
      check (ofUnsorted others requested) config := by
  by_cases distinct : Distinct entries
  · have ascending : Ascending Entry.key (ofUnsorted entries requested).entries :=
      ascending_iff.mpr ⟨sorted_ofUnsorted entries requested,
        (Distinct.perm (perm_ofUnsorted entries requested)).mpr distinct⟩
    have ascending' : Ascending Entry.key (ofUnsorted others requested).entries :=
      ascending_iff.mpr ⟨sorted_ofUnsorted others requested,
        (Distinct.perm ((perm_ofUnsorted others requested).trans perm.symm)).mpr distinct⟩
    have same := eq_of_perm ((perm_ofUnsorted entries requested).trans
      (perm.trans (perm_ofUnsorted others requested).symm)) ascending ascending'
    exact congrArg (fun sorted => check ⟨sorted, requested⟩ config) same
  · rw [check_ofUnsorted_of_repeated requested config distinct,
      check_ofUnsorted_of_repeated requested config (mt (Distinct.perm perm).mpr distinct),
      refusesKeys_perm perm]

end

section

variable {requested : SortedSet MapKey} {config : Config} {contents : Contents}

theorem get?_entries_ofUnsorted
    (accepted : check (ofUnsorted entries requested) config = .ok contents) {k : MapKey}
    {v : Bytes} :
    contents.entries.get? k = some v ↔
      requested.contains k = true ∧ ∃ digest, Entry.leaf k digest v ∈ entries := by
  rw [get?_entries_iff accepted]
  simp only [(perm_ofUnsorted entries requested).mem_iff]
  rfl

theorem contains_missing_ofUnsorted
    (accepted : check (ofUnsorted entries requested) config = .ok contents) {k : MapKey} :
    contents.missing.contains k = true ↔
      requested.contains k = true ∧ ¬∃ digest v, Entry.leaf k digest v ∈ entries := by
  rw [contains_missing_iff accepted]
  simp only [(perm_ofUnsorted entries requested).mem_iff]
  rfl

end

/-- What a check says about entries that are sorted first does not
depend on how they came. -/
theorem verdict_of_unsorted :
    (∀ (entries others : List Entry) (requested : SortedSet MapKey) (config : Config),
      entries.Perm others →
        check (ofUnsorted entries requested) config =
          check (ofUnsorted others requested) config) ∧
      (∀ (entries : List Entry) (requested : SortedSet MapKey) (config : Config),
        check (ofUnsorted entries requested) config ≠ .error .invalidOrder ∧
          (check (ofUnsorted entries requested) config = .error .duplicatePath ↔
            (∃ i j : Fin entries.length, i ≠ j ∧
              compare entries[i].key entries[j].key = .eq) ∧
                ¬(config.strictKeys = true ∧ ∃ e ∈ entries, e.HasTrailingBit))) ∧
      ∀ (entries : List Entry) (requested : SortedSet MapKey),
        Ascending Entry.key entries →
          (ofUnsorted entries requested).entries = entries := by
  refine ⟨fun _ _ requested config => check_ofUnsorted_perm requested config, ?_, ?_⟩
  · intro entries requested config
    have perm := perm_ofUnsorted entries requested
    have cases_of {fault : Fault}
        (refused : check (ofUnsorted entries requested) config = .error fault) :=
      rootHash_of_sorted_cases (sorted_ofUnsorted entries requested)
        (check_eq_error_iff.mp refused)
    rw [← not_distinct_iff, ← refusesKeys_iff]
    refine ⟨?_, ?_, ?_⟩
    · intro refused
      have faults := cases_of refused
      simp at faults
    · intro refused
      have repeated := cases_of refused
      simp only [reduceCtorEq, false_and, true_and, false_or, or_false, Distinct.perm perm]
        at repeated
      refine ⟨repeated, ?_⟩
      intro keys
      rw [check_ofUnsorted_of_repeated requested config repeated, if_pos keys] at refused
      contradiction
    · rintro ⟨repeated, keys⟩
      rw [check_ofUnsorted_of_repeated requested config repeated, if_neg keys]
  · intro entries requested ascending
    rw [ofUnsorted_of_ascending ascending]

def sameKey : List Entry :=
  [.branch (.ofBits [false]) (sha256 [1]), .branch strayBit.key (sha256 [2])]

theorem verdict_of_unsorted_sameKey :
    check (ofUnsorted (.ofValue (.ofBits [true]) [7] :: sameKey) ∅) .default =
        check (ofUnsorted (sameKey ++ [.ofValue (.ofBits [true]) [7]]) ∅) .default ∧
      check (ofUnsorted (.ofValue (.ofBits [true]) [7] :: sameKey) ∅) .default =
        .error .duplicatePath ∧
      (ofUnsorted [sameKey[1], .ofValue (.ofBits [true]) [7]] ∅).entries =
        [sameKey[1], .ofValue (.ofBits [true]) [7]] := by
  obtain ⟨permuted, faults, unchanged⟩ := verdict_of_unsorted
  have repeated :
      ∃ i j : Fin (Entry.ofValue (.ofBits [true]) [7] :: sameKey).length, i ≠ j ∧
        compare (Entry.ofValue (.ofBits [true]) [7] :: sameKey)[i].key
          (Entry.ofValue (.ofBits [true]) [7] :: sameKey)[j].key = .eq :=
    ⟨⟨1, by decide⟩, ⟨2, by decide⟩, by decide, by decide +kernel⟩
  exact ⟨permuted _ _ ∅ .default (List.perm_append_singleton _ sameKey).symm,
    (faults _ ∅ .default).2.mpr ⟨repeated, nofun⟩, unchanged _ ∅ (by decide +kernel)⟩

end MerkleProof.MapProof
