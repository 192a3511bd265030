import MerkleProof.CommandLine.Run
import MerkleProof.Proofs.CommandLine.Request
import MerkleProof.Proofs.MapProof.Document
import MerkleProof.Proofs.MapProof.Shuffled
import MerkleProof.Proofs.MapProof.Unsorted
import MerkleProof.Proofs.Text.Utf8

/-! What the commands exit with and print.  Nothing that a proof shows is printed before
its root has been found to be the trusted one, and for map proofs neither the order of the
entries nor the way in which the keys are given plays a part. -/

namespace MerkleProof.CommandLine

/-! Reports. -/

namespace Outcome

variable {ε : Type} {status : String} {root : Except ε Digest} {trusted : Option Digest}
  {digest : Digest} {findings : List String}

theorem exitCode_cases (o : Outcome) : o.exitCode = 0 ∨ o.exitCode = 1 := by
  rw [exitCode]
  cases o.failure.isSome
  · exact .inl rfl
  · exact .inr rfl

theorem exitCode_report_eq_zero_iff :
    (report status root trusted findings).exitCode = 0 ↔
      ∃ digest, root = .ok digest ∧
        ∀ expected, trusted = some expected → expected = digest := by
  cases root with
  | error e => simp [report, exitCode]
  | ok digest =>
      cases trusted with
      | none => simp [report, exitCode]
      | some expected =>
          by_cases same : expected = digest <;> simp [report, exitCode, same]

theorem lines_report_of_eq
    (same : ∀ expected, trusted = some expected → expected = digest) :
    (report status (.ok digest : Except ε Digest) trusted findings).lines =
      s!"status: {status}" :: s!"root hash: {digest.text}" :: findings := by
  cases trusted with
  | none => rfl
  | some expected =>
      rw [same expected rfl, report, if_pos rfl]
      rfl

theorem lines_report_of_ne {expected : Digest} (apart : expected ≠ digest) :
    (report status (.ok digest : Except ε Digest) (some expected) findings).lines =
      [s!"status: {status}", s!"root hash: {digest.text}"] := by
  rw [report, if_neg apart]

end Outcome

section

variable {α ε γ : Type} {document : Option α} {check : α → Except ε γ}
  {status : Except ε γ → String} {root : γ → Digest} {trusted : Option Digest}
  {Shown : α → γ → List String → Prop} {o : Outcome}

/-- What a command may come to, given the document in its file, if there is one, the
check of the document and the trusted root.  What an accepted proof shows follows
its status and its root. -/
structure Verdict (document : Option α) (check : α → Except ε γ)
    (status : Except ε γ → String) (root : γ → Digest) (trusted : Option Digest)
    (Shown : α → γ → List String → Prop) (o : Outcome) : Prop where
  exit : o.exitCode = 0 ∨ o.exitCode = 1
  accepted : o.exitCode = 0 ↔
    ∃ proof contents, document = some proof ∧ check proof = .ok contents ∧
      ∀ expected, trusted = some expected → expected = root contents
  unread : document = none → o.lines = []
  invalid : ∀ proof fault, document = some proof → check proof = .error fault →
    o.lines = [s!"status: {status (check proof)}"]
  untrusted : ∀ proof contents expected, document = some proof →
    check proof = .ok contents → trusted = some expected → expected ≠ root contents →
      o.lines = [s!"status: {status (check proof)}", s!"root hash: {(root contents).text}"]
  shown : ∀ proof contents, document = some proof → check proof = .ok contents →
    o.exitCode = 0 → ∃ findings,
      o.lines =
          s!"status: {status (check proof)}" :: s!"root hash: {(root contents).text}" ::
            findings ∧
        Shown proof contents findings

theorem verdict_of_failed {failure : Failure} :
    Verdict none check status root trusted Shown (.failed failure) := by
  refine ⟨.inr rfl, ?_, fun _ => rfl, nofun, nofun, nofun⟩
  simp [Outcome.exitCode, Outcome.failed]

theorem verdict_of_error {proof : α} {fault : ε} {findings : List String}
    (refused : check proof = .error fault) :
    Verdict (some proof) check status root trusted Shown
      (.report (status (.error fault)) (.error fault : Except ε Digest) trusted
        findings) := by
  rw [← refused]
  have no_contents {contents : γ} : check proof ≠ .ok contents := by simp [refused]
  refine ⟨.inr rfl, ?_, nofun, ?_, ?_, ?_⟩
  · simp [Outcome.exitCode, Outcome.report, refused]
  · rintro _ _ ⟨⟩ _
    rfl
  · rintro _ _ _ ⟨⟩ valid
    exact absurd valid no_contents
  · rintro _ _ ⟨⟩ valid
    exact absurd valid no_contents

theorem verdict_of_ok {proof : α} {contents : γ} {findings : List String}
    (valid : check proof = .ok contents) (shows : Shown proof contents findings) :
    Verdict (some proof) check status root trusted Shown
      (.report (status (.ok contents)) (.ok (root contents) : Except ε Digest) trusted
        findings) := by
  rw [← valid]
  refine ⟨Outcome.exitCode_cases _, ?_, nofun, ?_, ?_, ?_⟩
  · rw [Outcome.exitCode_report_eq_zero_iff]
    simp [valid]
  · rintro _ _ ⟨⟩ refused
    rw [valid] at refused
    contradiction
  · rintro _ _ expected ⟨⟩ valid' rfl apart
    cases valid.symm.trans valid'
    exact Outcome.lines_report_of_ne apart
  · rintro _ _ ⟨⟩ valid' accepted
    cases valid.symm.trans valid'
    obtain ⟨_, ⟨⟩, same⟩ := Outcome.exitCode_report_eq_zero_iff.mp accepted
    exact ⟨findings, Outcome.lines_report_of_eq same, shows⟩

theorem verdict_of_report {proof : α} {findings : List String}
    (shows : ∀ contents, check proof = .ok contents → Shown proof contents findings) :
    Verdict (some proof) check status root trusted Shown
      (.report (status (check proof)) ((check proof).map root) trusted findings) := by
  cases outcome : check proof with
  | error fault => exact verdict_of_error outcome
  | ok contents => exact verdict_of_ok outcome (shows contents outcome)

end

def Source.document? {α : Type} (read : Bytes → Option α) : Source → Option α
  | .content bytes => read bytes
  | _ => none

/-! Lists. -/

def ListOptions.checked (options : ListOptions) (root : ListProof.Node) :
    ListProof.Checked :=
  ListProof.check root { Config.default with maxNodeDepth := options.maxDepth }

def elementLines (contents : ListProof.Contents) : List String :=
  contents.elements.toList.map fun e => s!"{e.1.toNat}: {Hex.text e.2}"

theorem ListOptions.check_eq_report (options : ListOptions) (root : ListProof.Node) :
    options.check root = .report (options.checked root).status
      ((options.checked root).map ListProof.Contents.rootHash) options.root
      (listFindings (options.checked root)) := by
  rw [ListOptions.check, ← checked]
  cases options.checked root <;> rfl

theorem list_verdict (options : ListOptions) (source : Source) :
    Verdict (source.document? ListProof.Node.ofBytes?) options.checked
      ListProof.Checked.status ListProof.Contents.rootHash options.root
      (fun _ contents findings => findings = elementLines contents)
      ((Command.list options).run source) := by
  cases source with
  | missing => exact verdict_of_failed
  | unreadable => exact verdict_of_failed
  | content bytes =>
      rw [Command.run, Source.document?]
      cases ListProof.Node.ofBytes? bytes with
      | none => exact verdict_of_failed
      | some root =>
          dsimp only
          rw [ListOptions.check_eq_report]
          refine verdict_of_report ?_
          intro contents valid
          rw [valid]
          rfl

/-! Maps. -/

def MapOptions.checked (options : MapOptions) (proof : MapProof) : MapProof.Checked :=
  MapProof.check (MapProof.ofUnsorted proof.entries (options.requested proof))
    { Config.default with strictKeys := options.strictKeys }

theorem MapOptions.check_eq_report (options : MapOptions) (proof : MapProof) :
    options.check proof = .report (options.checked proof).status
      ((options.checked proof).map MapProof.Contents.rootHash) options.root
      (mapFindings (options.checked proof)) := by
  rw [MapOptions.check, ← checked]
  cases options.checked proof <;> rfl

/-- Whether a key is to be reported on: a key of the document or of the options, or, if
there are none, the key of a leaf. -/
def MapOptions.Requests (options : MapOptions) (proof : MapProof) (key : MapKey) : Prop :=
  proof.requested.contains key = true ∨ key ∈ options.keys ∨
    proof.requested = ∅ ∧ options.keys = [] ∧
      ∃ digest value, MapProof.Entry.leaf key digest value ∈ proof.entries

def presentLine (e : MapKey × Bytes) : String :=
  s!"present {Hex.text e.1.toList}: {Hex.text e.2}"

def missingLine (key : MapKey) : String := s!"missing {Hex.text key.toList}"

/-- The lines on the leaves of the requested keys and on the requested keys without a leaf,
both in ascending order of the keys. -/
def MapOptions.Shows (options : MapOptions) (proof : MapProof)
    (findings : List String) : Prop :=
  ∃ (present : List (MapKey × Bytes)) (missing : List MapKey),
    findings = present.map presentLine ++ missing.map missingLine ∧
      present.Pairwise (fun a b => compare a.1 b.1 = .lt) ∧
      missing.Pairwise (fun a b => compare a b = .lt) ∧
      (∀ key value, (key, value) ∈ present ↔ options.Requests proof key ∧
        ∃ digest, MapProof.Entry.leaf key digest value ∈ proof.entries) ∧
      ∀ key, key ∈ missing ↔ options.Requests proof key ∧
        ¬∃ digest value, MapProof.Entry.leaf key digest value ∈ proof.entries

theorem MapOptions.contains_requested_iff {options : MapOptions} {proof : MapProof}
    {key : MapKey} :
    (options.requested proof).contains key = true ↔ options.Requests proof key := by
  have none_iff : (proof.requested.union options.keys).size = 0 ↔
      proof.requested = ∅ ∧ options.keys = [] := by
    simp only [SortedMap.size_eq_zero_iff, SortedMap.eq_empty_iff, ← Bool.not_eq_true,
      SortedSet.contains_union_iff, not_or, forall_and, List.eq_nil_iff_forall_not_mem]
  have leaf_iff : key ∈ proof.entries.filterMap MapProof.Entry.mapKey? ↔
      ∃ digest value, MapProof.Entry.leaf key digest value ∈ proof.entries := by
    rw [← MapProof.reveals_iff, List.mem_filterMap]
    simp [MapProof.reveals]
  rw [requested]
  split
  · rename_i nothing
    obtain ⟨no_keys, no_options⟩ := none_iff.mp nothing
    rw [SortedSet.contains_ofList_iff, leaf_iff, Requests, no_keys, no_options]
    simp [SortedMap.contains]
  · rename_i some_key
    have apart := mt none_iff.mpr some_key
    rw [SortedSet.contains_union_iff, Requests]
    simp only [← and_assoc, apart, false_and, or_false]

theorem MapOptions.shows_of_checked {options : MapOptions} {proof : MapProof}
    {contents : MapProof.Contents} (valid : options.checked proof = .ok contents) :
    options.Shows proof (mapFindings (options.checked proof)) := by
  rw [valid]
  refine ⟨contents.entries.toList, contents.missing.toList, rfl,
    contents.entries.ascending, List.pairwise_map.mpr contents.missing.ascending, ?_, ?_⟩
  · intro key value
    rw [← SortedMap.get?_eq_some_iff, MapProof.get?_entries_ofUnsorted valid,
      contains_requested_iff]
  · intro key
    rw [SortedSet.toList, SortedMap.mem_keys_iff,
      MapProof.contains_missing_ofUnsorted valid, contains_requested_iff]

theorem map_verdict (options : MapOptions) (source : Source) :
    Verdict (source.document? MapProof.ofBytes?) options.checked MapProof.Checked.status
      MapProof.Contents.rootHash options.root (fun proof _ => options.Shows proof)
      ((Command.map options).run source) := by
  cases source with
  | missing => exact verdict_of_failed
  | unreadable => exact verdict_of_failed
  | content bytes =>
      rw [Command.run, Source.document?]
      cases MapProof.ofBytes? bytes with
      | none => exact verdict_of_failed
      | some proof =>
          dsimp only
          rw [MapOptions.check_eq_report]
          exact verdict_of_report fun contents valid => MapOptions.shows_of_checked valid

/-! Keys and entries in another order. -/

section

variable {options : MapOptions} {keys : List MapKey} {p p' : MapProof}

theorem requested_congr (same : ∀ key, key ∈ keys ↔ key ∈ options.keys)
    (perm : p.entries.Perm p'.entries) (requested_eq : p.requested = p'.requested) :
    ({ options with keys := keys } : MapOptions).requested p' = options.requested p := by
  have none_iff : keys = [] ↔ options.keys = [] := by
    simp only [List.eq_nil_iff_forall_not_mem, same]
  refine SortedSet.ext_contains ?_
  intro key
  rw [MapOptions.contains_requested_iff, MapOptions.contains_requested_iff]
  simp only [MapOptions.Requests, same, none_iff, requested_eq, perm.mem_iff]

theorem check_congr (same : ∀ key, key ∈ keys ↔ key ∈ options.keys)
    (perm : p.entries.Perm p'.entries) (requested_eq : p.requested = p'.requested) :
    ({ options with keys := keys } : MapOptions).check p' = options.check p := by
  rw [MapOptions.check, MapOptions.check, requested_congr same perm requested_eq,
    MapProof.check_ofUnsorted_perm _ _ perm.symm]

end

inductive Source.Shuffled : Source → Source → Prop
  | same (source : Source) : Shuffled source source
  | content {bytes bytes' : Bytes} {v v' : Json} :
      Json.ofBytes? bytes = some v → Json.ofBytes? bytes' = some v' →
        MapProof.Shuffled v v' → Shuffled (.content bytes) (.content bytes')

theorem run_congr {options : MapOptions} {keys : List MapKey} {source source' : Source}
    (same : ∀ key, key ∈ keys ↔ key ∈ options.keys) (shuffled : source.Shuffled source') :
    (Command.map { options with keys := keys }).run source' =
      (Command.map options).run source := by
  cases shuffled with
  | same source =>
      cases source with
      | missing => rfl
      | unreadable => rfl
      | content bytes =>
          rw [Command.run, Command.run]
          cases MapProof.ofBytes? bytes with
          | none => rfl
          | some p => exact check_congr same (.refl _) rfl
  | @content bytes bytes' v v' read read' shuffled =>
      have documents := MapProof.rel_ofJson?_of_shuffled shuffled
      rw [Command.run, Command.run, MapProof.ofBytes?, MapProof.ofBytes?, read, read',
        Option.bind_some, Option.bind_some]
      generalize MapProof.ofJson? v = document,
        MapProof.ofJson? v' = document' at documents ⊢
      cases documents with
      | none => rfl
      | some alike => exact check_congr same alike.1 alike.2

/-- The verdicts of the commands on any file, and that the verdict on a map proof
is the same when its entries are shuffled and when the same keys are given in
another order or more often. -/
theorem command_verdict :
    (∀ (options : ListOptions) (source : Source),
      Verdict (source.document? ListProof.Node.ofBytes?) options.checked
        ListProof.Checked.status ListProof.Contents.rootHash options.root
        (fun _ contents findings => findings = elementLines contents)
        ((Command.list options).run source)) ∧
      (∀ (options : MapOptions) (source : Source),
        Verdict (source.document? MapProof.ofBytes?) options.checked
          MapProof.Checked.status MapProof.Contents.rootHash options.root
          (fun proof _ => options.Shows proof)
          ((Command.map options).run source)) ∧
      ∀ (arguments : List String) (options : MapOptions),
        parse arguments = .ok (.run (.map options)) → ∃ front rest,
          arguments = front ++ "map" :: rest ∧ parseMap rest = .ok (.run (.map options)) ∧
            ∀ others, SameKeys rest others → ∃ options',
              parse (front ++ "map" :: others) = .ok (.run (.map options')) ∧
                ∀ source source', source.Shuffled source' →
                  (Command.map options').run source' =
                    (Command.map options).run source := by
  refine ⟨list_verdict, map_verdict, ?_⟩
  intro arguments options read
  obtain ⟨front, rest, rfl, rest_read, introduces⟩ := parseFrom_map read
  refine ⟨front, rest, rfl, rest_read, ?_⟩
  intro others same
  obtain ⟨keys, others_read, same_keys⟩ := same.parseMap_ok rest_read
  exact ⟨_, introduces others _ others_read,
    fun _ _ shuffled => run_congr same_keys shuffled⟩

def zeros : String := "0000000000000000000000000000000000000000000000000000000000000000"

def ones : String := "0101010101010101010101010101010101010101010101010101010101010101"

def askedOnce : List String := ["--key", zeros, "--key", ones, "proof.json"]

def askedAgain : List String :=
  ["--key", ones, "proof.json", "--key", zeros, "--key", ones]

def askedOptions : MapOptions :=
  ⟨"proof.json", none, [.zero, ⟨List.replicate 32 1, rfl⟩], false⟩

def twoLeaves : List MapProof.Entry := [.ofValue .zero [1], .ofValue (.ofBits [true]) [2]]

def fileOf (entries : List MapProof.Entry) : Source :=
  .content (Text.utf8 (MapProof.mk entries ∅).text)

theorem occurrences_askedOnce : mapTable.occurrences askedOnce =
    [.option "key" zeros, .option "key" ones, .operand "proof.json"] := by
  simp [OptionTable.occurrences, OptionTable.classify, OptionTable.classifyLong,
    OptionTable.takeNext, mapTable, askedOnce, zeros, ones]

theorem occurrences_askedAgain : mapTable.occurrences askedAgain =
    [.option "key" ones, .operand "proof.json", .option "key" zeros,
      .option "key" ones] := by
  simp [OptionTable.occurrences, OptionTable.classify, OptionTable.classifyLong,
    OptionTable.takeNext, mapTable, askedAgain, zeros, ones]

theorem parse_askedOnce : parse ("map" :: askedOnce) = .ok (.run (.map askedOptions)) := by
  refine (parseFrom_operand (by decide) (fun _ => rfl) askedOnce).trans ?_
  refine bind_eq_ok_iff.mpr ⟨_, ?_, LogLevel.finish_eq_run_iff.mpr ⟨rfl, _, rfl⟩⟩
  change parseMap askedOnce = _
  rw [parseMap_eq_run_iff, occurrences_askedOnce]
  exact ⟨by decide +kernel, _, rfl, rfl, rfl, rfl⟩

theorem sameKeys_askedAgain : SameKeys askedOnce askedAgain := by
  constructor
  · rw [occurrences_askedOnce, occurrences_askedAgain]
    intro text
    simp [Occurrence.keyTexts, Occurrence.key?]
    grind
  · rw [occurrences_askedOnce, occurrences_askedAgain]
    rfl

theorem shuffled_fileOf {entries entries' : List MapProof.Entry}
    (perm : entries.Perm entries') : (fileOf entries).Shuffled (fileOf entries') := by
  have read (entries : List MapProof.Entry) :
      Json.ofBytes? (Text.utf8 (MapProof.mk entries ∅).text) =
        some (MapProof.mk entries ∅).toJson := by
    rw [Json.ofBytes?_utf8, MapProof.text, Json.ofText?_render (MapProof.written_toJson _)]
  exact .content (read entries) (read entries')
    (.object [] [(some "requested", .array [])] (perm.map MapProof.Entry.toJson))

theorem checked_twoLeaves :
    ∃ contents, askedOptions.checked ⟨twoLeaves, ∅⟩ = .ok contents := by
  have ascending : MapProof.Trie.Ascending MapProof.Entry.key twoLeaves := by
    decide +kernel
  have isValid : (askedOptions.checked ⟨twoLeaves, ∅⟩).isValid = true := by
    rw [MapOptions.checked, MapProof.ofUnsorted_of_ascending ascending]
    decide +kernel
  cases outcome : askedOptions.checked ⟨twoLeaves, ∅⟩ with
  | error fault => simp [outcome, MapProof.Checked.isValid] at isValid
  | ok contents => exact ⟨contents, rfl⟩

theorem command_verdict_askedAgain :
    ((Command.map askedOptions).run (fileOf twoLeaves)).exitCode = 0 ∧
      ∃ options', parse ("map" :: askedAgain) = .ok (.run (.map options')) ∧
        (Command.map options').run (fileOf twoLeaves.reverse) =
          (Command.map askedOptions).run (fileOf twoLeaves) := by
  obtain ⟨-, verdict, reordered⟩ := command_verdict
  constructor
  · have read : (fileOf twoLeaves).document? MapProof.ofBytes? = some ⟨twoLeaves, ∅⟩ := by
      rw [fileOf, Source.document?, MapProof.ofBytes?, Json.ofBytes?_utf8]
      exact MapProof.ofText?_text ⟨twoLeaves, ∅⟩
    obtain ⟨contents, valid⟩ := checked_twoLeaves
    exact (verdict askedOptions (fileOf twoLeaves)).accepted.mpr
      ⟨⟨twoLeaves, ∅⟩, contents, read, valid, nofun⟩
  · obtain ⟨front, rest, split, -, others⟩ := reordered _ _ parse_askedOnce
    have front_nil : front = [] := by
      cases front with
      | nil => rfl
      | cons first front =>
          have again : "map" ∈ askedOnce := by
            rw [(List.cons.inj split).2]
            simp
          simp [askedOnce, zeros, ones] at again
    subst front_nil
    cases split
    obtain ⟨options', read, same⟩ := others askedAgain sameKeys_askedAgain
    exact ⟨options', read, same _ _ (shuffled_fileOf (List.reverse_perm _).symm)⟩

end MerkleProof.CommandLine
