import Mathlib.Data.List.Sort
import MerkleProof.SortedMap

/-! What is found in maps that are read off a list or filtered, and that it tells a map. -/

namespace MerkleProof.SortedMap

variable {κ ν : Type} [Ord κ]

theorem contains_iff {m : SortedMap κ ν} {k : κ} :
    m.contains k = true ↔ ∃ v, m.get? k = some v :=
  Option.isSome_iff_exists

theorem size_eq_zero_iff {m : SortedMap κ ν} : m.size = 0 ↔ m = ∅ := by
  rw [size, List.length_eq_zero_iff]
  exact ⟨fun nothing => ext nothing, fun nothing => congrArg toList nothing⟩

variable [Std.LawfulEqOrd κ]

@[simp] theorem contains_filter (m : SortedMap κ ν) (keep : κ → Bool) (k : κ) :
    (m.filter keep).contains k = (m.contains k && keep k) := by
  apply Bool.eq_iff_iff.mpr
  rw [Bool.and_eq_true, contains_iff, contains_iff]
  simp only [get?_eq_some_iff, filter, List.mem_filter]
  constructor
  · rintro ⟨v, member, kept⟩
    exact ⟨⟨v, member⟩, kept⟩
  · rintro ⟨⟨v, member⟩, kept⟩
    exact ⟨v, member, kept⟩

theorem contains_of_mem {m : SortedMap κ ν} {p : κ × ν} (member : p ∈ m.toList) :
    m.contains p.1 = true :=
  contains_iff.mpr ⟨p.2, (get?_eq_some_iff m p.1 p.2).mpr member⟩

theorem get?_filter (m : SortedMap κ ν) (keep : κ → Bool) (k : κ) :
    (m.filter keep).get? k = if keep k then m.get? k else none := by
  ext v
  rw [get?_eq_some_iff, filter, List.mem_filter, ← get?_eq_some_iff]
  cases keep k <;> simp

theorem eq_empty_iff {m : SortedMap κ ν} : m = ∅ ↔ ∀ k, m.contains k = false := by
  constructor
  · rintro rfl k
    rfl
  · intro nothing
    refine ext (List.eq_nil_iff_forall_not_mem.mpr ?_)
    intro p member
    have found := contains_of_mem member
    rw [nothing] at found
    contradiction

theorem filter_congr {m : SortedMap κ ν} {keep keep' : κ → Bool}
    (same : ∀ k, m.contains k = true → keep k = keep' k) :
    m.filter keep = m.filter keep' :=
  ext (List.filter_congr fun p member => same p.1 (contains_of_mem member))

theorem mem_keys_iff {m : SortedMap κ ν} {k : κ} : k ∈ m.keys ↔ m.contains k = true := by
  rw [keys, List.mem_map, contains_iff]
  constructor
  · rintro ⟨p, member, rfl⟩
    exact ⟨p.2, (get?_eq_some_iff m p.1 p.2).mpr member⟩
  · rintro ⟨v, found⟩
    exact ⟨(k, v), (get?_eq_some_iff m k v).mp found, rfl⟩

variable [Std.TransOrd κ]

theorem ext_get? {m n : SortedMap κ ν} (same : ∀ k, m.get? k = n.get? k) : m = n := by
  have irreflexive : Std.Irrefl fun a b : κ × ν => compare a.1 b.1 = .lt :=
    ⟨fun a less => by simp [Std.ReflOrd.compare_self] at less⟩
  have antisymmetric : Std.Antisymm fun a b : κ × ν => compare a.1 b.1 = .lt :=
    ⟨fun a b less greater =>
      absurd (Std.TransCmp.lt_trans less greater) (irreflexive.irrefl a)⟩
  apply ext
  refine m.ascending.eq_of_mem_iff n.ascending ?_
  intro p
  rw [← get?_eq_some_iff m p.1 p.2, ← get?_eq_some_iff n p.1 p.2, same]

theorem get?_foldl_insert {pairs : List (κ × ν)} {m : SortedMap κ ν} {k : κ} {v : ν}
    (found : (pairs.foldl (fun m p => m.insert p.1 p.2) m).get? k = some v) :
    (k, v) ∈ pairs ∨ m.get? k = some v := by
  induction pairs generalizing m with
  | nil => exact .inr found
  | cons p pairs ih =>
      rcases ih found with later | earlier
      · exact .inl (List.mem_cons_of_mem p later)
      · rw [get?_insert] at earlier
        split at earlier
        · rename_i same
          cases Std.LawfulEqOrd.eq_of_compare same
          cases earlier
          exact .inl List.mem_cons_self
        · exact .inr earlier

theorem mem_of_get?_ofList {pairs : List (κ × ν)} {k : κ} {v : ν}
    (found : (ofList pairs).get? k = some v) : (k, v) ∈ pairs :=
  (get?_foldl_insert found).resolve_right (by simp)

theorem contains_foldl_insert {pairs : List (κ × ν)} {m : SortedMap κ ν} {k : κ}
    (held : m.contains k = true ∨ ∃ v, (k, v) ∈ pairs) :
    (pairs.foldl (fun m p => m.insert p.1 p.2) m).contains k = true := by
  induction pairs generalizing m with
  | nil => exact held.resolve_right (by simp)
  | cons p pairs ih =>
      apply ih
      rw [contains, get?_insert]
      rcases held with before | ⟨v, member⟩
      · left
        split
        · rfl
        · exact before
      · rcases List.mem_cons.mp member with same | later
        · left
          rw [← same, if_pos Std.ReflOrd.compare_self]
          rfl
        · exact .inr ⟨v, later⟩

theorem contains_ofList_iff {pairs : List (κ × ν)} {k : κ} :
    (ofList pairs).contains k = true ↔ ∃ v, (k, v) ∈ pairs := by
  constructor
  · intro held
    obtain ⟨v, found⟩ := contains_iff.mp held
    exact ⟨v, mem_of_get?_ofList found⟩
  · intro listed
    exact contains_foldl_insert (.inr listed)

/-- In a map that is read off a list without contradictions, all of the list is found. -/
theorem get?_ofList_eq_some_iff {pairs : List (κ × ν)}
    (single : ∀ k v w, (k, v) ∈ pairs → (k, w) ∈ pairs → v = w) {k : κ} {v : ν} :
    (ofList pairs).get? k = some v ↔ (k, v) ∈ pairs := by
  constructor
  · exact mem_of_get?_ofList
  · intro listed
    obtain ⟨w, found⟩ := contains_iff.mp (contains_ofList_iff.mpr ⟨v, listed⟩)
    rw [found, single k v w listed (mem_of_get?_ofList found)]

theorem toList_ofList {pairs : List (κ × ν)}
    (ascending : pairs.Pairwise fun a b => compare a.1 b.1 = .lt) :
    (ofList pairs).toList = pairs := by
  have held (k : κ) (v : ν) : get? ⟨pairs, ascending⟩ k = some v ↔ (k, v) ∈ pairs :=
    get?_eq_some_iff ⟨pairs, ascending⟩ k v
  have same : ofList pairs = ⟨pairs, ascending⟩ := by
    refine ext_get? ?_
    intro k
    ext v
    rw [held, get?_ofList_eq_some_iff]
    intro k v w first second
    rw [← held] at first second
    exact Option.some.inj (first.symm.trans second)
  rw [same]

end MerkleProof.SortedMap

namespace MerkleProof.SortedSet

variable {κ : Type} [Ord κ] [Std.TransOrd κ] [Std.LawfulEqOrd κ]

theorem contains_insert_iff {s : SortedSet κ} {j k : κ} :
    SortedMap.contains (s.insert j) k = true ↔ j = k ∨ s.contains k = true := by
  rw [SortedMap.contains, insert, SortedMap.get?_insert]
  split
  · rename_i same
    simp [Std.LawfulEqOrd.eq_of_compare same]
  · rename_i apart
    have other : j ≠ k := by
      rintro rfl
      exact apart Std.ReflOrd.compare_self
    simp [other, SortedMap.contains]

theorem contains_union_iff {s : SortedSet κ} {keys : List κ} {k : κ} :
    (s.union keys).contains k = true ↔ s.contains k = true ∨ k ∈ keys := by
  induction keys generalizing s with
  | nil => simp [union]
  | cons j keys ih =>
      refine (ih (s := s.insert j)).trans ?_
      rw [contains_insert_iff, List.mem_cons]
      grind

theorem contains_ofList_iff {keys : List κ} {k : κ} :
    (ofList keys).contains k = true ↔ k ∈ keys :=
  contains_union_iff.trans (by simp [SortedMap.contains])

theorem ext_contains {s t : SortedSet κ}
    (same : ∀ k, s.contains k = true ↔ t.contains k = true) : s = t := by
  refine SortedMap.ext_get? ?_
  intro k
  have both := Bool.eq_iff_iff.mpr (same k)
  rw [SortedMap.contains, SortedMap.contains] at both
  cases here : s.get? k <;> cases there : t.get? k <;> simp_all

theorem ofList_toList (s : SortedSet κ) : ofList s.toList = s := by
  refine ext_contains ?_
  intro k
  rw [contains_ofList_iff, toList, SortedMap.mem_keys_iff]

end MerkleProof.SortedSet
