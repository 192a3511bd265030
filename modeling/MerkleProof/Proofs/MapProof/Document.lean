import MerkleProof.MapProof.Document
import MerkleProof.Proofs.Hex
import MerkleProof.Proofs.Json.Reader
import MerkleProof.Proofs.MapM
import MerkleProof.Proofs.MapProof.TrailingBits
import MerkleProof.Proofs.SortedMap
import MerkleProof.Proofs.TrieKey.BitString

/-! Map proofs written as documents and read back.  Only the trailing bits of keys
are lost, and no document has any, so that it makes no difference to a document
whether they are looked for. -/

namespace MerkleProof

open List (Forall₂)

namespace MapProof

namespace Entry

def clean : Entry → Entry
  | .leaf key digest value => .leaf key digest value
  | .branch key digest => .branch (.ofBits key.toBits) digest

theorem clean_alike (e : Entry) : e.clean.Alike e := by
  cases e with
  | leaf key digest value => exact .leaf key digest value
  | branch key digest =>
      obtain ⟨size, bits⟩ := TrieKey.sameBits_ofBits_toBits key
      exact .branch digest size bits

theorem Alike.beq {e f : Entry} (alike : e.Alike f) : (e == f) = true := by
  cases alike with
  | leaf key digest value =>
      change instBEqEntry.beq _ _ = true
      simp [instBEqEntry.beq]
  | @branch key key' digest sizes bits =>
      have same : (key == key') = true :=
        beq_iff_eq (a := compare key key').mpr (TrieKey.eq_iff.mpr ⟨sizes, bits⟩)
      change instBEqEntry.beq _ _ = true
      simp [instBEqEntry.beq, same]

theorem written_toJson (e : Entry) : e.toJson.Written := by
  cases e with
  | leaf key digest value =>
      refine Json.written_tagged (Json.written_object ?_)
      simp [Json.written_ofText]
  | branch key digest =>
      refine Json.written_tagged (Json.written_object ?_)
      simp [Json.written_ofText]

theorem read?_ofText {ε α : Type} (read : String → Except ε α) (text : String) :
    read? read (.ofText text) = (read text).toOption := rfl

theorem ofJson?_toJson (e : Entry) : ofJson? e.toJson = some e.clean := by
  cases e with
  | leaf key digest value =>
      simp [toJson, Json.tagged, ofJson?, Json.parts?, Json.valuesOf, leafOfParts?,
        mapKeyOfJson?, read?_ofText, Hex.decode32_encode, Hex.decode_encode,
        Digest.parse_text, Except.toOption, clean]
  | branch key digest =>
      simp [toJson, Json.tagged, ofJson?, Json.parts?, Json.valuesOf, branchOfParts?,
        read?_ofText, TrieKey.ofBitString_bitString, Digest.parse_text, Except.toOption,
        clean]

theorem key_of_leafOfParts? {parts : List (Option Json)} {e : Entry}
    (read : leafOfParts? parts = some e) : ∃ key, e.key = .leaf key := by
  unfold leafOfParts? at read
  split at read
  · obtain ⟨key, -, read⟩ := Option.bind_eq_some_iff.mp read
    obtain ⟨digest, -, read⟩ := Option.bind_eq_some_iff.mp read
    obtain ⟨value, -, read⟩ := Option.bind_eq_some_iff.mp read
    cases read
    exact ⟨key, rfl⟩
  · contradiction

theorem key_of_branchOfParts? {parts : List (Option Json)} {e : Entry}
    (read : branchOfParts? parts = some e) :
    ∃ text, TrieKey.ofBitString text = .ok e.key := by
  unfold branchOfParts? at read
  split at read
  · obtain ⟨key, key_read, read⟩ := Option.bind_eq_some_iff.mp read
    obtain ⟨digest, -, read⟩ := Option.bind_eq_some_iff.mp read
    cases read
    obtain ⟨text, -, key_read⟩ := Option.bind_eq_some_iff.mp key_read
    refine ⟨text, ?_⟩
    cases outcome : TrieKey.ofBitString text with
    | error e =>
        rw [outcome] at key_read
        contradiction
    | ok k =>
        rw [outcome] at key_read
        cases key_read
        rfl
  · contradiction

theorem isCanonical_of_ofJson? {v : Json} {e : Entry} (read : ofJson? v = some e) :
    e.key.isCanonical = true := by
  unfold ofJson? at read
  split at read
  · split at read
    · obtain ⟨parts, -, read⟩ := Option.bind_eq_some_iff.mp read
      obtain ⟨key, key_eq⟩ := key_of_leafOfParts? read
      rw [key_eq]
      exact TrieKey.isCanonical_leaf key
    · split at read
      · obtain ⟨parts, -, read⟩ := Option.bind_eq_some_iff.mp read
        obtain ⟨text, key_read⟩ := key_of_branchOfParts? read
        exact TrieKey.isCanonical_of_ofBitString key_read
      · contradiction
  · contradiction

end Entry

/-! Whole proofs. -/

theorem written_toJson (p : MapProof) : p.toJson.Written := by
  refine Json.written_object ?_
  have entries : (Json.array (p.entries.map Entry.toJson)).Written := by
    refine Json.written_array ?_
    simp [Entry.written_toJson]
  have requested : (Json.array (p.requested.toList.map fun key =>
      .ofText (Hex.text key.toList))).Written := by
    refine Json.written_array ?_
    simp [Json.written_ofText]
  simp [entries, requested]

theorem entriesOfJson?_toJson (entries : List Entry) :
    entriesOfJson? (.array (entries.map Entry.toJson)) =
      some (entries.map Entry.clean) := by
  rw [entriesOfJson?, mapM_eq_some_iff, List.forall₂_map_left_iff,
    List.forall₂_map_right_iff, List.forall₂_same]
  exact fun e _ => e.ofJson?_toJson

theorem requestedOfJson?_toJson (requested : SortedSet MapKey) :
    requestedOfJson? (some (.array (requested.toList.map fun key =>
      .ofText (Hex.text key.toList)))) = some requested := by
  have keys : (requested.toList.map fun key => Json.ofText (Hex.text key.toList)).mapM
      Entry.mapKeyOfJson? = some requested.toList := by
    rw [mapM_eq_some_iff, List.forall₂_map_left_iff, List.forall₂_same]
    intro key _
    rw [Entry.mapKeyOfJson?, Entry.read?_ofText, Hex.toList_text, Hex.decode32_encode]
    rfl
  rw [requestedOfJson?, keys, Option.map_some, SortedSet.ofList_toList]

theorem ofText?_text (p : MapProof) :
    ofText? p.text = some ⟨p.entries.map Entry.clean, p.requested⟩ := by
  have parts : p.toJson.parts? ["entries", "requested"] =
      some [some (.array (p.entries.map Entry.toJson)),
        some (.array
          (p.requested.toList.map fun key => .ofText (Hex.text key.toList)))] := by
    simp [toJson, Json.parts?, Json.valuesOf]
  rw [ofText?, text, Json.ofText?_render p.written_toJson, Option.bind_some, ofJson?,
    parts]
  dsimp only
  rw [entriesOfJson?_toJson, requestedOfJson?_toJson]
  rfl

theorem clean_alike (entries : List Entry) :
    Forall₂ Entry.Alike (entries.map Entry.clean) entries := by
  rw [List.forall₂_map_left_iff, List.forall₂_same]
  exact fun e _ => e.clean_alike

theorem beq_of_alike {entries others : List Entry}
    (alike : Forall₂ Entry.Alike entries others) (requested : SortedSet MapKey) :
    ((⟨entries, requested⟩ : MapProof) == ⟨others, requested⟩) = true := by
  have same : (entries == others) = true := by
    induction alike with
    | nil => rfl
    | cons first _ ih => rw [List.cons_beq_cons, first.beq, ih]; rfl
  change instBEqMapProof.beq _ _ = true
  simp [instBEqMapProof.beq, same]

theorem isCanonical_of_entriesOfJson? {v : Json} {entries : List Entry}
    (read : entriesOfJson? v = some entries) :
    ∀ e ∈ entries, e.key.isCanonical = true := by
  cases v with
  | array items =>
      induction mapM_eq_some_iff.mp read with
      | nil => exact List.forall_mem_nil _
      | cons first rest ih =>
          exact List.forall_mem_cons.mpr
            ⟨Entry.isCanonical_of_ofJson? first, ih (mapM_eq_some_iff.mpr rest)⟩
  | _ => contradiction

theorem isCanonical_of_ofJson? {v : Json} {p : MapProof} (read : ofJson? v = some p) :
    ∀ e ∈ p.entries, e.key.isCanonical = true := by
  unfold ofJson? at read
  split at read
  · obtain ⟨entries, entries_read, read⟩ := Option.bind_eq_some_iff.mp read
    obtain ⟨requested, -, read⟩ := Option.bind_eq_some_iff.mp read
    cases read
    exact isCanonical_of_entriesOfJson? entries_read
  · contradiction

/-- A proof is read back from what is written for it, and no document gives
keys with trailing bits. -/
theorem written_proof_read_back :
    (∀ p : MapProof, ∃ decoded, ofText? p.text = some decoded ∧ (decoded == p) = true ∧
        check decoded .default = check p .default) ∧
      ∀ decoded : MapProof,
        ((∃ text, ofText? text = some decoded) ∨ ∃ bytes, ofBytes? bytes = some decoded) →
          (∀ e ∈ decoded.entries, e.key.isCanonical = true) ∧
            ∀ depth depth' : UInt8,
              check decoded ⟨depth, true⟩ = check decoded ⟨depth', false⟩ := by
  constructor
  · intro p
    have alike := clean_alike p.entries
    exact ⟨_, p.ofText?_text, beq_of_alike alike p.requested,
      check_congr alike p.requested _⟩
  · intro decoded given
    have canonical : ∀ e ∈ decoded.entries, e.key.isCanonical = true := by
      rcases given with ⟨text, read⟩ | ⟨bytes, read⟩
      · obtain ⟨v, -, read⟩ := Option.bind_eq_some_iff.mp read
        exact isCanonical_of_ofJson? read
      · obtain ⟨v, -, read⟩ := Option.bind_eq_some_iff.mp read
        exact isCanonical_of_ofJson? read
    refine ⟨canonical, ?_⟩
    intro depth depth'
    exact check_of_canonical decoded depth depth' (List.all_eq_true.mpr canonical)

/-- A branch key with a trailing bit, and a branch at a key of 256 bits. -/
def untidy : MapProof where
  entries := [strayBit, .branch (.leaf (.ofBits [true])) (sha256 [2])]
  requested := .ofList [.ofBits [true]]

theorem written_proof_read_back_untidy :
    ∃ decoded, ofText? untidy.text = some decoded ∧ (decoded == untidy) = true ∧
      check decoded .default = check untidy .default ∧
      check decoded ⟨63, true⟩ = check decoded ⟨63, false⟩ ∧
      check untidy ⟨63, true⟩ = .error .nonCanonicalKey := by
  obtain ⟨read_back, canonical⟩ := written_proof_read_back
  obtain ⟨decoded, read, same, verdict⟩ := read_back untidy
  have dirty : untidy.entries.all (fun e => e.key.isCanonical) = false := by decide +kernel
  exact ⟨decoded, read, same, verdict, (canonical decoded (.inl ⟨_, read⟩)).2 63 63,
    check_of_not_canonical untidy 63 dirty⟩

end MapProof

end MerkleProof
