/-!
Command line arguments sorted into options with a value, flags and operands, from left to
right. A long option takes its value after `=` or as the next argument, and a short one
also directly after its letter. Behind `--` everything is an operand.
-/

namespace MerkleProof.CommandLine

inductive UsageError
  | unknownArgument (argument : String)
  | unknownCommand (name : String)
  | missingCommand
  | missingFile
  | missingValue (option : String)
  | unexpectedValue (flag : String)
  | repeated (option : String)
  | invalidValue (option value : String)
deriving DecidableEq

def UsageError.message : UsageError → String
  | .unknownArgument argument => s!"unexpected argument '{argument}'"
  | .unknownCommand name => s!"unrecognized subcommand '{name}'"
  | .missingCommand => "a subcommand is required"
  | .missingFile => "a proof file is required"
  | .missingValue option => s!"a value is required for '{option}'"
  | .unexpectedValue flag => s!"'{flag}' takes no value"
  | .repeated option => s!"'{option}' cannot be used multiple times"
  | .invalidValue option value => s!"invalid value '{value}' for '{option}'"

inductive Occurrence
  | option (name value : String)
  | flag (name : String)
  | operand (value : String)
  | version
  | help
  | invalid (error : UsageError)

/-- The options that are known at one place. Flags for the version and for help are
known everywhere. -/
structure OptionTable where
  valued : List String
  flags : List String
  letters : List (Char × String)

namespace OptionTable

/-- An option whose value is the next argument, which must not look like an option. The
second part tells whether the next argument is used up. -/
def takeNext (name : String) : Option String → Occurrence × Bool
  | none => (.invalid (.missingValue name), false)
  | some value =>
      if value.startsWith "-" && value != "-" then (.invalid (.missingValue name), false)
      else (.option name value, true)

def classifyLong (t : OptionTable) (name : String) (attached next : Option String) :
    Occurrence × Bool :=
  if t.valued.contains name then
    match attached with
    | some value => (.option name value, false)
    | none => takeNext name next
  else if t.flags.contains name || name == "version" || name == "help" then
    match attached with
    | some _ => (.invalid (.unexpectedValue name), false)
    | none =>
        if name == "version" then (.version, false)
        else if name == "help" then (.help, false)
        else (.flag name, false)
  else (.invalid (.unknownArgument ("--" ++ name)), false)

def classifyLetters (t : OptionTable) (letter : Char) (rest : List Char)
    (next : Option String) : Occurrence × Bool :=
  match t.letters.lookup letter with
  | some name =>
      match rest with
      | [] => takeNext name next
      | '=' :: value => (.option name (String.ofList value), false)
      | value => (.option name (String.ofList value), false)
  | none =>
      if letter == 'V' then (.version, false)
      else if letter == 'h' then (.help, false)
      else (.invalid (.unknownArgument (String.ofList ('-' :: letter :: rest))), false)

/-- What an argument other than `--` is, seen with the next one. -/
def classify (t : OptionTable) (argument : String) (next : Option String) :
    Occurrence × Bool :=
  match argument.toList with
  | '-' :: '-' :: body =>
      let name := String.ofList (body.takeWhile (· != '='))
      match body.dropWhile (· != '=') with
      | [] => t.classifyLong name none next
      | _ :: value => t.classifyLong name (some (String.ofList value)) next
  | '-' :: letter :: rest => t.classifyLetters letter rest next
  | _ => (.operand argument, false)

def occurrences (t : OptionTable) : List String → List Occurrence
  | [] => []
  | [argument] => if argument == "--" then [] else [(t.classify argument none).1]
  | argument :: next :: rest =>
      if argument == "--" then (next :: rest).map .operand
      else
        match t.classify argument (some next) with
        | (o, true) => o :: t.occurrences rest
        | (o, false) => o :: t.occurrences (next :: rest)

end OptionTable

end MerkleProof.CommandLine
