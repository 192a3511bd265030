import MerkleProof.MapProof.Document
import MerkleProof.Proofs.MapM

/-! Documents of map proofs whose entries are shuffled.  If one of them is a proof, then so
is the other, and only the order of the entries differs. -/

namespace MerkleProof.MapProof

/-- Documents that are alike but for the order of the entries. -/
inductive Shuffled : Json → Json → Prop
  | object (before after : List (Option String × Json)) {items items' : List Json} :
      items.Perm items' →
        Shuffled (.object (before ++ (some "entries", .array items) :: after))
          (.object (before ++ (some "entries", .array items') :: after))
  | array (rest : List Json) {items items' : List Json} :
      items.Perm items' →
        Shuffled (.array (.array items :: rest)) (.array (.array items' :: rest))

theorem valuesOf_append (before after : List (Option String × Json)) (v : Json)
    (name : String) :
    Json.valuesOf (before ++ (some "entries", v) :: after) name =
      Json.valuesOf before name ++
        ((if name = "entries" then [v] else []) ++ Json.valuesOf after name) := by
  by_cases same : name = "entries"
  · simp [Json.valuesOf, same]
  · have other : ¬(some "entries" == some name) = true := by simpa using Ne.symm same
    simp [Json.valuesOf, other, same]

theorem parts?_object (before after : List (Option String × Json)) :
    ∃ requested? : Option (Option Json), ∀ v,
      (Json.object (before ++ (some "entries", v) :: after)).parts?
          ["entries", "requested"] =
        requested?.map fun requested => [some v, requested] := by
  let requested := Json.valuesOf before "requested" ++ Json.valuesOf after "requested"
  have single (as bs : List Json) :
      as.length + (1 + bs.length) ≤ 1 ↔ as = [] ∧ bs = [] := by
    rw [← List.length_eq_zero_iff, ← List.length_eq_zero_iff]
    omega
  -- Whether the record is well formed does not depend on the value.
  by_cases formed : (∀ m ∈ before ++ after, m.1.isSome = true) ∧
      (Json.valuesOf before "entries" = [] ∧ Json.valuesOf after "entries" = []) ∧
        requested.length ≤ 1
  · refine ⟨some requested.head?, ?_⟩
    intro v
    rw [Json.parts?, if_pos]
    · simp [valuesOf_append, formed.2.1, requested]
    · simpa [valuesOf_append, single, requested, or_imp, forall_and] using formed
  · refine ⟨none, ?_⟩
    intro v
    rw [Json.parts?, if_neg]
    · rfl
    · simpa [valuesOf_append, single, requested, or_imp, forall_and] using formed

theorem Shuffled.parts {v v' : Json} (shuffled : Shuffled v v') :
    ∃ items items' requested?, items.Perm items' ∧
      v.parts? ["entries", "requested"] =
        (requested? : Option (Option Json)).map
          (fun requested => [some (.array items), requested]) ∧
      v'.parts? ["entries", "requested"] =
        requested?.map fun requested => [some (.array items'), requested] := by
  cases shuffled with
  | object before after perm =>
      obtain ⟨requested?, parts⟩ := parts?_object before after
      exact ⟨_, _, requested?, perm, parts _, parts _⟩
  | array rest perm =>
      match rest with
      | [] => exact ⟨_, _, some none, perm, rfl, rfl⟩
      | [requested] => exact ⟨_, _, some (some requested), perm, rfl, rfl⟩
      | _ :: _ :: _ =>
          exact ⟨_, _, none, perm, by simp [Json.parts?], by simp [Json.parts?]⟩

theorem rel_ofJson?_of_shuffled {v v' : Json} (shuffled : Shuffled v v') :
    Option.Rel (fun p p' => p.entries.Perm p'.entries ∧ p.requested = p'.requested)
      (ofJson? v) (ofJson? v') := by
  obtain ⟨items, items', requested?, perm, parts, parts'⟩ := shuffled.parts
  rw [ofJson?, ofJson?, parts, parts']
  cases requested? with
  | none => exact .none
  | some part =>
      dsimp only [Option.map_some]
      rw [entriesOfJson?, entriesOfJson?]
      have read := rel_mapM_of_perm (f := Entry.ofJson?) perm
      generalize items.mapM Entry.ofJson? = entries,
        items'.mapM Entry.ofJson? = entries' at read ⊢
      cases read with
      | none => exact .none
      | some entries_perm =>
          cases requestedOfJson? part with
          | none => exact .none
          | some requested => exact .some ⟨entries_perm, rfl⟩

end MerkleProof.MapProof
