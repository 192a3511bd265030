/-!
Finite maps kept as lists in ascending key order, and finite sets as maps to nothing. The
order is part of the type, so two maps with the same content are equal.
-/

namespace MerkleProof

structure SortedMap (κ ν : Type) [Ord κ] where
  toList : List (κ × ν)
  ascending : toList.Pairwise (fun a b => compare a.1 b.1 = .lt)

namespace SortedMap

variable {κ ν : Type} [Ord κ]

@[ext] theorem ext {m n : SortedMap κ ν} (h : m.toList = n.toList) : m = n := by
  cases m
  cases n
  cases h
  rfl

instance [DecidableEq κ] [DecidableEq ν] : DecidableEq (SortedMap κ ν) := fun m n =>
  decidable_of_iff (m.toList = n.toList) ⟨ext, congrArg toList⟩

def empty : SortedMap κ ν := ⟨[], .nil⟩

instance : EmptyCollection (SortedMap κ ν) := ⟨empty⟩

instance : Inhabited (SortedMap κ ν) := ⟨empty⟩

@[simp] theorem toList_empty : (∅ : SortedMap κ ν).toList = [] := rfl

def size (m : SortedMap κ ν) : Nat := m.toList.length

def keys (m : SortedMap κ ν) : List κ := m.toList.map Prod.fst

def get? (m : SortedMap κ ν) (k : κ) : Option ν :=
  (m.toList.find? fun p => compare p.1 k == .eq).map Prod.snd

@[simp] theorem get?_empty (k : κ) : (∅ : SortedMap κ ν).get? k = none := rfl

theorem get?_eq_some_iff [Std.LawfulEqOrd κ] (m : SortedMap κ ν) (k : κ) (v : ν) :
    m.get? k = some v ↔ (k, v) ∈ m.toList := by
  unfold get?
  obtain ⟨l, ascending⟩ := m
  induction l with
  | nil => simp
  | cons p rest ih =>
      rw [List.pairwise_cons] at ascending
      rw [List.find?_cons, List.mem_cons]
      by_cases h : compare p.1 k = .eq
      · cases Std.LawfulEqOrd.eq_of_compare h
        have absent : (p.1, v) ∉ rest := fun member => by
          have below := ascending.1 _ member
          rw [h] at below
          contradiction
        simp [absent, Prod.ext_iff, eq_comm]
      · have apart : (k, v) ≠ p := by
          rintro rfl
          exact h Std.ReflOrd.compare_self
        rw [beq_eq_false_iff_ne.mpr h]
        simpa [apart] using ih ascending.2

def contains (m : SortedMap κ ν) (k : κ) : Bool := (m.get? k).isSome

/-- Puts a pair at its place, over an earlier pair of the same key. -/
def insertPair (k : κ) (v : ν) : List (κ × ν) → List (κ × ν)
  | [] => [(k, v)]
  | p :: rest =>
      match compare k p.1 with
      | .lt => (k, v) :: p :: rest
      | .eq => (k, v) :: rest
      | .gt => p :: insertPair k v rest

theorem mem_insertPair {k : κ} {v : ν} {q : κ × ν} {l : List (κ × ν)}
    (h : q ∈ insertPair k v l) : q = (k, v) ∨ q ∈ l := by
  induction l with
  | nil => simpa [insertPair] using h
  | cons p rest ih =>
      unfold insertPair at h
      split at h
      · simpa using h
      · rcases List.mem_cons.mp h with h | h
        · exact .inl h
        · exact .inr (List.mem_cons_of_mem _ h)
      · rcases List.mem_cons.mp h with h | h
        · exact .inr (by simp [h])
        · exact (ih h).imp_right (List.mem_cons_of_mem _)

theorem pairwise_insertPair [Std.TransOrd κ] [Std.LawfulEqOrd κ] (k : κ) (v : ν)
    {l : List (κ × ν)} (h : l.Pairwise (fun a b => compare a.1 b.1 = .lt)) :
    (insertPair k v l).Pairwise (fun a b => compare a.1 b.1 = .lt) := by
  induction l with
  | nil => simp [insertPair]
  | cons p rest ih =>
      rw [List.pairwise_cons] at h
      unfold insertPair
      split
      case h_1 hlt =>
        refine List.pairwise_cons.mpr ⟨?_, List.pairwise_cons.mpr h⟩
        intro q hq
        rcases List.mem_cons.mp hq with rfl | hq
        · exact hlt
        · exact Std.TransCmp.lt_trans hlt (h.1 q hq)
      case h_2 heq =>
        refine List.pairwise_cons.mpr ⟨?_, h.2⟩
        intro q hq
        rw [Std.LawfulEqOrd.eq_of_compare heq]
        exact h.1 q hq
      case h_3 hgt =>
        refine List.pairwise_cons.mpr ⟨?_, ih h.2⟩
        intro q hq
        rcases mem_insertPair hq with rfl | hq
        · exact Std.OrientedCmp.lt_of_gt hgt
        · exact h.1 q hq

variable [Std.TransOrd κ] [Std.LawfulEqOrd κ]

def insert (m : SortedMap κ ν) (k : κ) (v : ν) : SortedMap κ ν :=
  ⟨insertPair k v m.toList, pairwise_insertPair k v m.ascending⟩

theorem find?_insertPair (k j : κ) (v : ν) (l : List (κ × ν)) :
    (insertPair k v l).find? (fun p => compare p.1 j == .eq) =
      if compare k j = .eq then some (k, v)
      else l.find? fun p => compare p.1 j == .eq := by
  induction l with
  | nil => by_cases h : compare k j = .eq <;> simp [insertPair, h]
  | cons p rest ih =>
      unfold insertPair
      split
      case h_1 => by_cases h : compare k j = .eq <;> simp [h]
      case h_2 heq =>
        cases Std.LawfulEqOrd.eq_of_compare heq
        by_cases h : compare p.1 j = .eq <;> simp [h]
      case h_3 hgt =>
        rw [List.find?_cons, ih, List.find?_cons]
        by_cases h : compare k j = .eq
        · cases Std.LawfulEqOrd.eq_of_compare h
          have apart : compare p.1 k = .lt := Std.OrientedCmp.lt_of_gt hgt
          simp [apart]
        · simp [h]

theorem get?_insert (m : SortedMap κ ν) (k j : κ) (v : ν) :
    (m.insert k v).get? j = if compare k j = .eq then some v else m.get? j := by
  unfold get? insert
  rw [find?_insertPair]
  split <;> rfl

/-- The map of the given pairs, where a later pair overrides an earlier
one of the same key. -/
def ofList (pairs : List (κ × ν)) : SortedMap κ ν :=
  pairs.foldl (fun m p => m.insert p.1 p.2) ∅

def filter (m : SortedMap κ ν) (p : κ → Bool) : SortedMap κ ν :=
  ⟨m.toList.filter fun q => p q.1, m.ascending.sublist List.filter_sublist⟩

end SortedMap

abbrev SortedSet (κ : Type) [Ord κ] := SortedMap κ Unit

namespace SortedSet

variable {κ : Type} [Ord κ]

def toList (s : SortedSet κ) : List κ := s.keys

variable [Std.TransOrd κ] [Std.LawfulEqOrd κ]

def insert (s : SortedSet κ) (k : κ) : SortedSet κ := SortedMap.insert s k ()

def ofList (keys : List κ) : SortedSet κ := keys.foldl insert ∅

def union (s : SortedSet κ) (keys : List κ) : SortedSet κ := keys.foldl insert s

end SortedSet

end MerkleProof
