import MerkleProof.CommandLine.Request
import MerkleProof.Proofs.Except
import MerkleProof.Proofs.MapM

/-! Command lines of the map command.  Each key that is asked for may be given at any place
and any number of times; nothing but the set of keys is left of where they stood. -/

namespace MerkleProof.CommandLine

namespace Occurrence

def key? : Occurrence → Option String
  | .option name text => if name = "key" then some text else none
  | _ => none

def keyTexts (os : List Occurrence) : List String := os.filterMap key?

def withoutKeys (os : List Occurrence) : List Occurrence :=
  os.filter fun o => o.key?.isNone

end Occurrence

open Occurrence

namespace Given

def withKeys (a : Given) (keys : List Bytes32) : Given := { a with keys := keys }

/-- What has been read after one more occurrence, unless it settles the matter. -/
def add? (a : Given) : Occurrence → Option Given
  | .option name text => (a.addOption name text).toOption
  | .flag name => (a.addFlag name).toOption
  | .operand value => (a.addOperand value).toOption
  | _ => none

theorem finish_eq_run_iff {program : String} {command : String → Given → Command}
    {a : Given} {os : List Occurrence} {c : Command} :
    finish program command a os = .ok (.run c) ↔
      ∃ b file, os.foldlM add? a = some b ∧ b.file = some file ∧ command file b = c := by
  induction os generalizing a with
  | nil => cases file : a.file <;> simp [finish, file]
  | cons o os ih =>
      rw [List.foldlM_cons]
      cases o with
      | option name text =>
          rw [finish, add?]
          cases a.addOption name text with
          | error e => simp [Except.bind, Except.toOption]
          | ok b => exact ih
      | flag name =>
          rw [finish, add?]
          cases a.addFlag name with
          | error e => simp [Except.bind, Except.toOption]
          | ok b => exact ih
      | operand value =>
          rw [finish, add?]
          cases a.addOperand value with
          | error e => simp [Except.bind, Except.toOption]
          | ok b => exact ih
      | version => simp [finish, add?]
      | help => simp [finish, add?]
      | invalid e => simp [finish, add?]

def key? (text : String) : Option Bytes32 := (Hex.parse32 text).toOption

theorem addOption_key (a : Given) (text : String) :
    (a.addOption "key" text).toOption =
      (key? text).map fun key => a.withKeys (key :: a.keys) := by
  rw [addOption, if_neg (by decide), if_neg (by decide), if_pos (by decide), key?]
  cases Hex.parse32 text <;> rfl

theorem addOption_withKeys {name : String} (other : name ≠ "key") (a : Given)
    (text : String) (keys : List Bytes32) :
    ((a.withKeys keys).addOption name text).toOption =
      (a.addOption name text).toOption.map fun b => b.withKeys keys := by
  have not_key : ¬(name == "key") = true := by simpa using other
  rw [addOption, addOption, if_neg not_key, if_neg not_key]
  dsimp only [withKeys]
  split
  · cases (Digest.parse text).toOption with
    | none => rfl
    | some digest => cases a.root <;> rfl
  · split
    · cases depth? text with
      | none => rfl
      | some depth => cases a.maxDepth <;> rfl
    · rfl

theorem add?_key {o : Occurrence} {text : String} (given : o.key? = some text)
    (a : Given) :
    a.add? o = (key? text).map fun key => a.withKeys (key :: a.keys) := by
  cases o with
  | option name value =>
      simp only [Occurrence.key?, Option.ite_none_right_eq_some,
        Option.some.injEq] at given
      obtain ⟨rfl, rfl⟩ := given
      exact a.addOption_key value
  | _ => contradiction

theorem add?_withKeys {o : Occurrence} (other : o.key? = none) (a : Given)
    (keys : List Bytes32) :
    (a.withKeys keys).add? o = (a.add? o).map fun b => b.withKeys keys := by
  cases o with
  | option name text =>
      have not_key : name ≠ "key" := by simpa [Occurrence.key?] using other
      exact addOption_withKeys not_key a text keys
  | flag name =>
      rw [add?, add?, addFlag, addFlag, withKeys]
      cases a.strictKeys <;> rfl
  | operand value =>
      rw [add?, add?, addOperand, addOperand, withKeys]
      cases a.file with
      | some file => rfl
      | none => cases value == "" <;> rfl
  | _ => rfl

theorem keys_of_add? {o : Occurrence} (other : o.key? = none) {a b : Given}
    (read : a.add? o = some b) : b.keys = a.keys := by
  have unchanged : a.add? o = (a.add? o).map fun b => b.withKeys a.keys :=
    add?_withKeys other a a.keys
  rw [read] at unchanged
  have same : b = b.withKeys a.keys := Option.some.inj unchanged
  rw [same]
  rfl

theorem foldlM_add?_withKeys (os : List Occurrence) (a : Given) (keys : List Bytes32) :
    (withoutKeys os).foldlM add? (a.withKeys keys) =
      ((withoutKeys os).foldlM add? a).map fun b => b.withKeys keys := by
  induction os generalizing a with
  | nil => rfl
  | cons o os ih =>
      cases kind : o.key? with
      | some text => simpa [withoutKeys, kind] using ih a
      | none =>
          have first : withoutKeys (o :: os) = o :: withoutKeys os := by
            simp [withoutKeys, kind]
          rw [first, List.foldlM_cons, List.foldlM_cons, add?_withKeys kind]
          cases a.add? o with
          | none => rfl
          | some b => exact ih b

theorem foldlM_add? (os : List Occurrence) (a : Given) :
    os.foldlM add? a = ((keyTexts os).mapM key?).bind fun keys =>
      ((withoutKeys os).foldlM add? a).map
        fun b => b.withKeys (keys.reverse ++ a.keys) := by
  induction os generalizing a with
  | nil => rfl
  | cons o os ih =>
      rw [List.foldlM_cons]
      cases kind : o.key? with
      | some text =>
          have first : keyTexts (o :: os) = text :: keyTexts os := by simp [keyTexts, kind]
          have rest : withoutKeys (o :: os) = withoutKeys os := by simp [withoutKeys, kind]
          rw [first, rest, List.mapM_cons, add?_key kind]
          cases key? text with
          | none => rfl
          | some key =>
              refine (ih _).trans ?_
              rw [foldlM_add?_withKeys]
              cases (keyTexts os).mapM key? with
              | none => rfl
              | some keys =>
                  cases (withoutKeys os).foldlM add? a <;> simp [withKeys]
      | none =>
          have first : keyTexts (o :: os) = keyTexts os := by simp [keyTexts, kind]
          have rest : withoutKeys (o :: os) = o :: withoutKeys os := by
            simp [withoutKeys, kind]
          rw [first, rest, List.foldlM_cons]
          cases read : a.add? o with
          | none => cases (keyTexts os).mapM key? <;> rfl
          | some b =>
              rw [← keys_of_add? kind read]
              exact ih b

end Given

/-- Arguments of the map command that give the same keys, in any order and number,
and otherwise the same. -/
structure SameKeys (arguments others : List String) : Prop where
  keys : ∀ text, text ∈ keyTexts (mapTable.occurrences arguments) ↔
    text ∈ keyTexts (mapTable.occurrences others)
  rest : withoutKeys (mapTable.occurrences arguments) =
    withoutKeys (mapTable.occurrences others)

theorem parseMap_eq_run_iff {arguments : List String} {options : MapOptions} :
    parseMap arguments = .ok (.run (.map options)) ↔
      (keyTexts (mapTable.occurrences arguments)).mapM Given.key? = some options.keys ∧
        ∃ a, (withoutKeys (mapTable.occurrences arguments)).foldlM Given.add? .empty
            = some a ∧
          a.file = some options.file ∧ a.root = options.root ∧
            a.strictKeys = options.strictKeys := by
  rw [parseMap, Given.finish_eq_run_iff, Given.foldlM_add?]
  constructor
  · rintro ⟨b, file, read, file_eq, made⟩
    obtain ⟨keys, keys_read, read⟩ := Option.bind_eq_some_iff.mp read
    obtain ⟨a, rest_read, rfl⟩ := Option.map_eq_some_iff.mp read
    cases made
    refine ⟨?_, a, rest_read, file_eq, rfl, rfl⟩
    simpa [Given.withKeys, Given.empty] using keys_read
  · rintro ⟨keys_read, a, rest_read, file_eq, root_eq, strict_eq⟩
    refine ⟨a.withKeys (options.keys.reverse ++ []), options.file, ?_, file_eq, ?_⟩
    · rw [keys_read, rest_read]
      rfl
    · simp [Given.withKeys, root_eq, strict_eq]

theorem SameKeys.parseMap_ok {arguments others : List String}
    (same : SameKeys arguments others) {options : MapOptions}
    (read : parseMap arguments = .ok (.run (.map options))) :
    ∃ keys, parseMap others = .ok (.run (.map { options with keys := keys })) ∧
      ∀ key, key ∈ keys ↔ key ∈ options.keys := by
  obtain ⟨given_read, rest⟩ := parseMap_eq_run_iff.mp read
  have each := exists_mapM_iff.mp ⟨_, given_read⟩
  simp only [same.keys] at each
  obtain ⟨keys, keys_read⟩ := exists_mapM_iff.mpr each
  refine ⟨keys, parseMap_eq_run_iff.mpr ⟨keys_read, ?_⟩, ?_⟩
  · rw [← same.rest]
    exact rest
  · intro key
    rw [mem_mapM_iff keys_read, mem_mapM_iff given_read]
    simp only [same.keys]

/-! The program's own arguments, up to the command. -/

theorem takeNext_ne_operand (name value : String) (next : Option String) :
    (OptionTable.takeNext name next).1 ≠ .operand value := by
  unfold OptionTable.takeNext
  split
  · nofun
  · split <;> nofun

theorem classifyLong_ne_operand (t : OptionTable) (name value : String)
    (attached next : Option String) :
    (t.classifyLong name attached next).1 ≠ .operand value := by
  unfold OptionTable.classifyLong
  split
  · split
    · nofun
    · exact takeNext_ne_operand name value next
  · repeat' split
    all_goals nofun

theorem classifyLetters_ne_operand (t : OptionTable) (letter : Char) (rest : List Char)
    (value : String) (next : Option String) :
    (t.classifyLetters letter rest next).1 ≠ .operand value := by
  unfold OptionTable.classifyLetters
  split
  · split
    · exact takeNext_ne_operand _ value next
    · nofun
    · nofun
  · repeat' split
    all_goals nofun

theorem operand_of_classify {t : OptionTable} {argument name : String}
    {next : Option String} (operand : (t.classify argument next).1 = .operand name) :
    name = argument ∧ ∀ next', t.classify argument next' = (.operand argument, false) := by
  unfold OptionTable.classify at operand ⊢
  split at operand
  · dsimp only at operand
    split at operand
    · exact (classifyLong_ne_operand _ _ _ _ _ operand).elim
    · exact (classifyLong_ne_operand _ _ _ _ _ operand).elim
  · exact (classifyLetters_ne_operand _ _ _ _ _ operand).elim
  · cases operand
    exact ⟨rfl, fun _ => rfl⟩

theorem parseHelp_ne_run (arguments : List String) (command : Command) :
    parseHelp arguments ≠ .ok (.run command) := by
  fun_cases parseHelp arguments <;> simp [*]

theorem parseCommand_map {name : String} {arguments : List String} {options : MapOptions}
    (read : parseCommand name arguments = .ok (.run (.map options))) :
    name = "map" ∧ parseMap arguments = .ok (.run (.map options)) := by
  unfold parseCommand at read
  split at read
  · obtain ⟨_, _, _, _, made⟩ := Given.finish_eq_run_iff.mp read
    contradiction
  · split at read
    · rename_i name_eq
      exact ⟨by simpa using name_eq, read⟩
    · split at read
      · exact (parseHelp_ne_run _ _ read).elim
      · contradiction

theorem LogLevel.finish_eq_run_iff {l : LogLevel} {request : Request} {command : Command} :
    l.finish request = .ok (.run command) ↔
      request = .run command ∧ ∃ l', l.settle = .ok l' := by
  cases request with
  | run other =>
      rw [finish, settled, map_eq_ok_iff]
      simp [and_comm]
  | version program => simp [finish]
  | help => simp [finish]

theorem parseFrom_operand {l : LogLevel} {argument : String} (not_end : argument ≠ "--")
    (operand : ∀ next, topTable.classify argument next = (.operand argument, false))
    (rest : List String) :
    parseFrom l (argument :: rest) = (parseCommand argument rest).bind l.finish := by
  cases rest <;> simp [parseFrom, not_end, operand]

/-- Arguments after which the map command may be called. -/
def Introduces (l : LogLevel) (front : List String) : Prop :=
  ∀ rest options, parseMap rest = .ok (.run (.map options)) →
    parseFrom l (front ++ "map" :: rest) = .ok (.run (.map options))

theorem introduces_nil {l : LogLevel} {name : String} {rest : List String}
    {options : MapOptions}
    (operand : ∀ next, topTable.classify name next = (.operand name, false))
    (read : (parseCommand name rest).bind l.finish = .ok (.run (.map options))) :
    name = "map" ∧ parseMap rest = .ok (.run (.map options)) ∧ Introduces l [] := by
  obtain ⟨request, request_read, finished⟩ := bind_eq_ok_iff.mp read
  obtain ⟨rfl, settled⟩ := LogLevel.finish_eq_run_iff.mp finished
  obtain ⟨rfl, rest_read⟩ := parseCommand_map request_read
  refine ⟨rfl, rest_read, ?_⟩
  intro others options' others_read
  refine (parseFrom_operand (by decide) operand others).trans ?_
  exact bind_eq_ok_iff.mpr ⟨_, others_read, LogLevel.finish_eq_run_iff.mpr ⟨rfl, settled⟩⟩

theorem parseFrom_map {l : LogLevel} {arguments : List String} {options : MapOptions}
    (read : parseFrom l arguments = .ok (.run (.map options))) :
    ∃ front rest, arguments = front ++ "map" :: rest ∧
      parseMap rest = .ok (.run (.map options)) ∧ Introduces l front := by
  fun_induction parseFrom l arguments with
  | case3 l argument not_end name used kind =>
      obtain ⟨rfl, operand⟩ := operand_of_classify (congrArg Prod.fst kind)
      obtain ⟨rfl, rest_read, introduces⟩ := introduces_nil operand read
      exact ⟨[], [], rfl, rest_read, introduces⟩
  | case10 l argument next rest not_end name used kind =>
      obtain ⟨rfl, operand⟩ := operand_of_classify (congrArg Prod.fst kind)
      obtain ⟨rfl, rest_read, introduces⟩ := introduces_nil operand read
      exact ⟨[], _, rfl, rest_read, introduces⟩
  -- a log level in front, as an argument of its own or as part of one
  | case15 l argument next rest not_end name text kind ih =>
      obtain ⟨settled, settle, read⟩ := bind_eq_ok_iff.mp read
      obtain ⟨front, rest, rfl, rest_read, introduces⟩ := ih settled read
      refine ⟨argument :: next :: front, rest, rfl, rest_read, ?_⟩
      intro others options' others_read
      rw [List.cons_append, List.cons_append, parseFrom, if_neg not_end, kind]
      exact bind_eq_ok_iff.mpr ⟨settled, settle, introduces others options' others_read⟩
  | case16 l argument next rest not_end name text kind ih =>
      obtain ⟨settled, settle, read⟩ := bind_eq_ok_iff.mp read
      obtain ⟨accepted, accept, read⟩ := bind_eq_ok_iff.mp read
      obtain ⟨front, rest', split, rest_read, introduces⟩ := ih accepted read
      refine ⟨argument :: front, rest', congrArg _ split, rest_read, ?_⟩
      intro others options' others_read
      -- the next argument, which is looked at already, is the same for the other arguments
      have next_kept : ∃ others', front ++ "map" :: others = next :: others' := by
        cases front <;> cases split <;> exact ⟨_, rfl⟩
      have read := introduces others options' others_read
      obtain ⟨others', split'⟩ := next_kept
      rw [List.cons_append, split', parseFrom, if_neg not_end, kind]
      rw [split'] at read
      exact bind_eq_ok_iff.mpr ⟨settled, settle,
        bind_eq_ok_iff.mpr ⟨accepted, accept, read⟩⟩
  | case4 | case5 | case11 | case12 =>
      obtain ⟨_, _, other⟩ := map_eq_ok_iff.mp read
      cases other
  | _ => contradiction

end MerkleProof.CommandLine
