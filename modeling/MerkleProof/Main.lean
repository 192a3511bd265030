import MerkleProof.CommandLine.Run

/-!
The program: it reads the file that its command names and prints what the check finds.
-/

namespace MerkleProof.CommandLine

def readSource (file : String) : IO Source := do
  let handle ← (IO.FS.Handle.mk file .read).toBaseIO
  match handle with
  | .error _ => return .missing
  | .ok handle =>
      match ← handle.readBinToEnd.toBaseIO with
      | .error _ => return .unreadable
      | .ok bytes => return .content bytes.toList

def helpText : String :=
  "Usage: proofctl [-l LOG_LEVEL] list [--root HEX] [--max-depth DEPTH] FILE\n" ++
    "       proofctl [-l LOG_LEVEL] map [--root HEX] [--key HEX]... [--strict-keys] FILE"

end MerkleProof.CommandLine

open MerkleProof in
/-- Exits with 0 if the proof is accepted, 1 if it is not, and 2 if the
arguments are not understood. -/
def main (arguments : List String) : IO UInt32 := do
  match CommandLine.parse arguments with
  | .error error =>
      IO.eprintln s!"error: {error.message}"
      return 2
  | .ok .help =>
      IO.println CommandLine.helpText
      return 0
  | .ok (.version program) =>
      IO.println (CommandLine.versionText program)
      return 0
  | .ok (.run command) =>
      let outcome := command.run (← CommandLine.readSource command.file)
      IO.print outcome.output
      match outcome.failure with
      | some failure => IO.eprintln s!"Error: {failure.message}"
      | none => pure ()
      return outcome.exitCode.toUInt32
