import MerkleProof.CommandLine.Arguments
import MerkleProof.Config
import MerkleProof.Decimal.Digits
import MerkleProof.Digest

/-!
What a command line asks for. The arguments are judged from left to right, and the first
one that settles the matter, by an error or by asking for the version or for help, does so.
Only a log level directly in front of a subcommand is judged after it.
-/

namespace MerkleProof.CommandLine

structure ListOptions where
  file : String
  root : Option Digest
  maxDepth : UInt8

structure MapOptions where
  file : String
  root : Option Digest
  /-- Keys that are requested besides those of the document. -/
  keys : List Bytes32
  strictKeys : Bool

inductive Command
  | list (options : ListOptions)
  | map (options : MapOptions)

def Command.file : Command → String
  | .list options => options.file
  | .map options => options.file

inductive Request
  | run (command : Command)
  | version (program : String)
  | help

def versionText (program : String) : String := program ++ " 0.1.0"

/-- A whole number from 0 to 255 with an optional sign. -/
def depth? (text : String) : Option UInt8 := do
  let n ←
    match text.toList with
    | '+' :: digits => Decimal.natOf? digits
    | '-' :: digits => (Decimal.natOf? digits).filter (· == 0)
    | digits => Decimal.natOf? digits
  if n < 256 then some (UInt8.ofNat n) else none

structure Given where
  file : Option String
  root : Option Digest
  maxDepth : Option UInt8
  /-- Last first. -/
  keys : List Bytes32
  strictKeys : Bool

def Given.empty : Given := ⟨none, none, none, [], false⟩

/-- The new value of something that may be given once. -/
def once {α : Type} (name : String) (earlier : Option α) (value : α) :
    Except UsageError (Option α) :=
  match earlier with
  | some _ => .error (.repeated name)
  | none => .ok (some value)

def valid {α : Type} (name text : String) (value : Option α) : Except UsageError α :=
  match value with
  | some value => .ok value
  | none => .error (.invalidValue name text)

namespace Given

def addOption (a : Given) (name text : String) : Except UsageError Given := do
  if name == "root" then
    let digest ← valid name text (Digest.parse text).toOption
    return { a with root := ← once name a.root digest }
  else if name == "max-depth" then
    let depth ← valid name text (depth? text)
    return { a with maxDepth := ← once name a.maxDepth depth }
  else if name == "key" then
    let key ← valid name text (Hex.parse32 text).toOption
    return { a with keys := key :: a.keys }
  else throw (.unknownArgument name)

def addFlag (a : Given) (name : String) : Except UsageError Given :=
  if a.strictKeys then .error (.repeated name) else .ok { a with strictKeys := true }

def addOperand (a : Given) (value : String) : Except UsageError Given :=
  match a.file with
  | some _ => .error (.unknownArgument value)
  | none =>
      if value == "" then .error (.invalidValue "FILE" value)
      else .ok { a with file := some value }

def finish (program : String) (command : String → Given → Command) (a : Given) :
    List Occurrence → Except UsageError Request
  | [] =>
      match a.file with
      | some file => .ok (.run (command file a))
      | none => .error .missingFile
  | .version :: _ => .ok (.version program)
  | .help :: _ => .ok .help
  | .invalid error :: _ => .error error
  | .option name text :: rest =>
      (a.addOption name text).bind fun a => finish program command a rest
  | .flag name :: rest => (a.addFlag name).bind fun a => finish program command a rest
  | .operand value :: rest =>
      (a.addOperand value).bind fun a => finish program command a rest

end Given

def listTable : OptionTable := ⟨["root", "max-depth"], [], []⟩

def mapTable : OptionTable := ⟨["root", "key"], ["strict-keys"], []⟩

def parseList (arguments : List String) : Except UsageError Request :=
  Given.empty.finish "proofctl-list"
    (fun file a => .list ⟨file, a.root, a.maxDepth.getD Config.depthLimit⟩)
    (listTable.occurrences arguments)

def parseMap (arguments : List String) : Except UsageError Request :=
  Given.empty.finish "proofctl-map"
    (fun file a => .map ⟨file, a.root, a.keys.reverse, a.strictKeys⟩)
    (mapTable.occurrences arguments)

def topTable : OptionTable := ⟨["log-level"], [], [('l', "log-level")]⟩

def logLevels : List String := ["debug", "info", "trace"]

def commandNames : List String := ["list", "map", "help"]

def parseHelp : List String → Except UsageError Request
  | [] => .ok .help
  | name :: rest =>
      if commandNames.contains name then
        match rest with
        | [] => .ok .help
        | extra :: _ => .error (.unknownCommand extra)
      else .error (.unknownCommand name)

def parseCommand (name : String) (arguments : List String) : Except UsageError Request :=
  if name == "list" then parseList arguments
  else if name == "map" then parseMap arguments
  else if name == "help" then parseHelp arguments
  else .error (.unknownCommand name)

/-- The log levels in front of the subcommand. One that is an argument of its own is not
judged before the next option, or else after the whole subcommand. -/
structure LogLevel where
  given : Bool
  waiting : Option String

namespace LogLevel

def empty : LogLevel := ⟨false, none⟩

def accept (l : LogLevel) (text : String) : Except UsageError LogLevel :=
  if !logLevels.contains text then .error (.invalidValue "log-level" text)
  else if l.given then .error (.repeated "log-level")
  else .ok { l with given := true }

def settle (l : LogLevel) : Except UsageError LogLevel :=
  match l.waiting with
  | some text => { l with waiting := none }.accept text
  | none => .ok l

def settled (l : LogLevel) (request : Request) : Except UsageError Request :=
  l.settle.map fun _ => request

/-- The request of a subcommand; only a command that is to be run needs
a good log level. -/
def finish (l : LogLevel) : Request → Except UsageError Request
  | .run command => l.settled (.run command)
  | request => .ok request

end LogLevel

def parseFrom (l : LogLevel) : List String → Except UsageError Request
  | [] => .error .missingCommand
  | [argument] =>
      if argument == "--" then .error .missingCommand
      else
        match topTable.classify argument none with
        | (.operand name, _) => (parseCommand name []).bind l.finish
        | (.version, _) => l.settled (.version "proofctl")
        | (.help, _) => l.settled .help
        | (.invalid error, _) => .error error
        | (.flag name, _) => .error (.unknownArgument name)
        | (.option _ _, _) => .error .missingCommand
  | argument :: next :: rest =>
      if argument == "--" then .error (.unknownCommand next)
      else
        match topTable.classify argument (some next) with
        | (.operand name, _) => (parseCommand name (next :: rest)).bind l.finish
        | (.version, _) => l.settled (.version "proofctl")
        | (.help, _) => l.settled .help
        | (.invalid error, _) => .error error
        | (.flag name, _) => .error (.unknownArgument name)
        | (.option _ text, true) =>
            l.settle.bind fun l => parseFrom { l with waiting := some text } rest
        | (.option _ text, false) =>
            l.settle.bind fun l => (l.accept text).bind fun l => parseFrom l (next :: rest)

def parse (arguments : List String) : Except UsageError Request :=
  parseFrom .empty arguments

end MerkleProof.CommandLine
