import Mathlib.Data.List.Pairwise
import MerkleProof.Proofs.MapProof.Check
import MerkleProof.Proofs.MapProof.Root

/-! What an accepted map proof answers about every key, and that a
rejected one answers nothing. -/

namespace MerkleProof.MapProof

open TrieKey Trie

variable {p : MapProof} {config : Config} {contents : Contents} {k : MapKey} {v : Bytes}

theorem ascending_of_check (accepted : check p config = .ok contents) :
    Ascending Entry.key p.entries :=
  (rootHash_eq_ok_iff.mp (check_eq_ok_iff.mp accepted).1).2.1

theorem leaf_unique {entries : List Entry} (ascending : Ascending Entry.key entries)
    {d d' : Digest} {v' : Bytes} (first : Entry.leaf k d v ∈ entries)
    (second : Entry.leaf k d' v' ∈ entries) : v = v' := by
  have single : entries.Pairwise fun a b => a.key = b.key → a = b := by
    refine ascending.imp ?_
    intro a b less same
    rw [same, Std.ReflOrd.compare_self] at less
    contradiction
  have symmetric : Std.Symm fun a b : Entry => a.key = b.key → a = b :=
    ⟨fun a b same key_eq => (same key_eq.symm).symm⟩
  have same := single.forall_of_forall (fun _ _ _ => rfl) first second rfl
  cases same
  rfl

/-! What is shown of a key. -/

theorem get?_entries_iff (accepted : check p config = .ok contents) :
    contents.entries.get? k = some v ↔
      p.requested.contains k = true ∧ ∃ digest, Entry.leaf k digest v ∈ p.entries := by
  rw [(check_eq_ok_iff.mp accepted).2.1]
  constructor
  · exact leaf_of_present
  · intro ⟨asked, digest, member⟩
    have shown : p.present.contains k = true := by
      rw [contains_present, asked, reveals_iff.mpr ⟨digest, v, member⟩]
      rfl
    obtain ⟨w, found⟩ := SortedMap.contains_iff.mp shown
    obtain ⟨_, digest', member'⟩ := leaf_of_present found
    rw [found, leaf_unique (ascending_of_check accepted) member' member]

theorem contains_missing_iff (accepted : check p config = .ok contents) :
    contents.missing.contains k = true ↔
      p.requested.contains k = true ∧ ¬∃ digest v, Entry.leaf k digest v ∈ p.entries := by
  rw [(check_eq_ok_iff.mp accepted).2.2, contains_missing, Bool.and_eq_true,
    Bool.not_eq_true', ← Bool.not_eq_true, reveals_iff]

theorem listed_cases (accepted : check p config = .ok contents) (k : MapKey) :
    ¬(contents.entries.contains k = true ∧ contents.missing.contains k = true) ∧
      (p.requested.contains k = true ↔
        contents.entries.contains k = true ∨ contents.missing.contains k = true) := by
  obtain ⟨_, entries_eq, missing_eq⟩ := check_eq_ok_iff.mp accepted
  rw [entries_eq, missing_eq, contains_present, contains_missing]
  cases p.requested.contains k <;> cases p.reveals k <;> decide

theorem get_eq_error_iff (accepted : check p config = .ok contents) {error : AccessError} :
    (check p config).get k = .error error ↔
      p.requested.contains k = false ∧ error = .keyNotRequested k := by
  rw [← Bool.not_eq_true, (listed_cases accepted k).2, accepted, Checked.get_ok]
  cases found : contents.entries.get? k with
  | some value => simp [SortedMap.contains_iff.mpr ⟨value, found⟩]
  | none =>
      have not_found : contents.entries.contains k = false := by
        rw [SortedMap.contains, found]
        rfl
      rw [not_found]
      cases contents.missing.contains k with
      | true => simp
      | false => simpa using eq_comm

namespace Checked

variable {checked : Checked} {error : AccessError}

theorem status_eq_correct_iff :
    checked.status = "CORRECT" ↔ ∃ contents, checked = .ok contents := by
  cases checked with
  | ok contents => exact ⟨fun _ => ⟨contents, rfl⟩, fun _ => rfl⟩
  | error fault =>
      have rejected : status (.error fault) ≠ "CORRECT" := by cases fault <;> decide
      exact ⟨fun correct => absurd correct rejected, nofun⟩

theorem containsKey_eq_ok_iff {held : Bool} :
    checked.containsKey k = .ok held ↔
      ∃ found, checked.get k = .ok found ∧ found.isSome = held :=
  map_eq_ok_iff

theorem containsKey_eq_error_iff :
    checked.containsKey k = .error error ↔ checked.get k = .error error := by
  rw [containsKey]
  cases checked.get k <;> simp [Except.map]

/-- The answers of a checked proof: every requested key is listed once, with the value of
its leaves or as missing, and nothing is said about the other keys. -/
structure Answers (checked : Checked) (p : MapProof) : Prop where
  listed : ∃ entries missing,
    checked.entries = .ok entries ∧ checked.missing = .ok missing ∧ ∀ k,
      ¬(entries.contains k = true ∧ missing.contains k = true) ∧
        (p.requested.contains k = true ↔
          entries.contains k = true ∨ missing.contains k = true)
  found : ∀ k v, checked.get k = .ok (some v) ↔
    p.requested.contains k = true ∧ ∃ digest, Entry.leaf k digest v ∈ p.entries
  single : ∀ k v, checked.get k = .ok (some v) →
    ∀ digest v', Entry.leaf k digest v' ∈ p.entries → v' = v
  missing : ∀ k, checked.get k = .ok none ↔
    p.requested.contains k = true ∧ ¬∃ digest v, Entry.leaf k digest v ∈ p.entries
  unasked : ∀ k error, checked.get k = .error error ↔
    p.requested.contains k = false ∧ error = .keyNotRequested k

/-- Whatever is asked, the answer is the error. -/
structure Refuses (checked : Checked) (error : AccessError) : Prop where
  rootHash : checked.rootHash = .error error
  entries : checked.entries = .error error
  missing : checked.missing = .error error
  get : ∀ k, checked.get k = .error error
  containsKey : ∀ k, checked.containsKey k = .error error
  hasRoot : ∀ root, checked.hasRoot root = .error error

theorem refuses_error (fault : Fault) :
    Refuses (.error fault) (.invalidProof (status (.error fault))) :=
  ⟨rfl, rfl, rfl, fun _ => rfl, fun _ => rfl, fun _ => rfl⟩

end Checked

theorem answers_check (accepted : check p config = .ok contents) :
    (check p config).Answers p where
  listed := by
    refine ⟨contents.entries, contents.missing, ?_, ?_, listed_cases accepted⟩
    · rw [accepted]
      rfl
    · rw [accepted]
      rfl
  found k v := (get_eq_some_iff accepted).trans (get?_entries_iff accepted)
  single k v answer digest v' member := by
    obtain ⟨_, _, member'⟩ :=
      (get?_entries_iff accepted).mp ((get_eq_some_iff accepted).mp answer)
    exact leaf_unique (ascending_of_check accepted) member member'
  missing k := (get_eq_none_iff accepted).trans (contains_missing_iff accepted)
  unasked k error := get_eq_error_iff accepted

/-- An accepted proof answers for the requested keys and for no others; a rejected one
answers every question with its status.  Whether a key is held is told as its value is. -/
theorem answers_by_status (p : MapProof) (config : Config) :
    ((check p config).status = "CORRECT" → (check p config).Answers p) ∧
      ((check p config).status ≠ "CORRECT" →
        (check p config).Refuses (.invalidProof (check p config).status)) ∧
      ∀ k,
        (∀ held, (check p config).containsKey k = .ok held ↔
          ∃ found, (check p config).get k = .ok found ∧ found.isSome = held) ∧
        ∀ error, (check p config).containsKey k = .error error ↔
          (check p config).get k = .error error := by
  refine ⟨?correct, ?refused, ?held⟩
  case correct =>
      intro correct
      obtain ⟨contents, accepted⟩ := Checked.status_eq_correct_iff.mp correct
      exact answers_check accepted
  case refused =>
      intro refused
      cases outcome : check p config with
      | ok contents =>
          exact absurd (Checked.status_eq_correct_iff.mpr ⟨contents, outcome⟩) refused
      | error fault => exact Checked.refuses_error fault
  case held =>
      intro k
      exact ⟨fun _ => Checked.containsKey_eq_ok_iff,
        fun _ => Checked.containsKey_eq_error_iff⟩

/-- Two leaves, of which the first is requested, and a requested key without a leaf. -/
def halfAsked : MapProof :=
  ⟨[.ofValue .zero [1], .ofValue (.ofBits [true]) [2]],
    .ofList [.zero, .ofBits [false, true]]⟩

theorem answers_by_status_halfAsked :
    (check halfAsked .default).get .zero = .ok (some [1]) ∧
      (check halfAsked .default).containsKey (.ofBits [false, true]) = .ok false ∧
      (check halfAsked .default).get (.ofBits [true]) =
        .error (.keyNotRequested (.ofBits [true])) ∧
      (check ⟨halfAsked.entries.reverse, halfAsked.requested⟩ .default).get .zero =
        .error (.invalidProof "INVALID_ORDER") := by
  obtain ⟨correct, _, held⟩ := answers_by_status halfAsked .default
  obtain ⟨_, refused, _⟩ :=
    answers_by_status ⟨halfAsked.entries.reverse, halfAsked.requested⟩ .default
  have answers := correct (by decide +kernel)
  have absent : ¬∃ digest v,
      Entry.leaf (.ofBits [false, true]) digest v ∈ halfAsked.entries := by
    rw [← reveals_iff]
    decide +kernel
  refine ⟨?_, ?_, ?_, ?_⟩
  · exact (answers.found _ _).mpr ⟨by decide +kernel, _, List.mem_cons_self⟩
  · have missing := (answers.missing _).mpr ⟨by decide +kernel, absent⟩
    exact ((held _).1 false).mpr ⟨none, missing, rfl⟩
  · exact (answers.unasked _ _).mpr ⟨by decide +kernel, rfl⟩
  · have status :
        (check ⟨halfAsked.entries.reverse, halfAsked.requested⟩ .default).status =
          "INVALID_ORDER" := by decide +kernel
    rw [status] at refused
    exact (refused (by decide)).get .zero

end MerkleProof.MapProof
