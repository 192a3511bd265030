import MerkleProof.CommandLine.Request
import MerkleProof.ListProof.Check
import MerkleProof.ListProof.Document
import MerkleProof.MapProof.Check
import MerkleProof.MapProof.Document

/-!
Commands that check the proof in a file. They print the status, the root, and, if the root
is the trusted one, what the proof shows.
-/

namespace MerkleProof.CommandLine

inductive Source
  | missing
  | unreadable
  | content (bytes : Bytes)

inductive Failure
  | missingFile (file : String)
  | malformedProof
  | invalidProof (status : String)
  | rootMismatch (expected calculated : Digest)

def Failure.message : Failure → String
  | .missingFile file => s!"failed to read {file}"
  | .malformedProof => "malformed proof"
  | .invalidProof status => s!"proof is invalid: {status}"
  | .rootMismatch expected calculated =>
      s!"root hash mismatch: expected {expected.text}, calculated {calculated.text}"

structure Outcome where
  lines : List String
  failure : Option Failure

namespace Outcome

def exitCode (o : Outcome) : UInt8 := if o.failure.isSome then 1 else 0

def output (o : Outcome) : String := String.join (o.lines.map (· ++ "\n"))

def failed (failure : Failure) : Outcome := ⟨[], some failure⟩

def report {ε : Type} (status : String) (root : Except ε Digest) (expected : Option Digest)
    (findings : List String) : Outcome :=
  match root with
  | .error _ => ⟨[s!"status: {status}"], some (.invalidProof status)⟩
  | .ok root =>
      let head := [s!"status: {status}", s!"root hash: {root.text}"]
      match expected with
      | none => ⟨head ++ findings, none⟩
      | some expected =>
          if expected = root then ⟨head ++ findings, none⟩
          else ⟨head, some (.rootMismatch expected root)⟩

end Outcome

def listFindings : ListProof.Checked → List String
  | .ok contents => contents.elements.toList.map fun e => s!"{e.1.toNat}: {Hex.text e.2}"
  | .error _ => []

/-- One line for each present key, then one for each missing key. -/
def mapFindings : MapProof.Checked → List String
  | .ok contents =>
      contents.entries.toList.map (fun e =>
        s!"present {Hex.text e.1.toList}: {Hex.text e.2}") ++
          contents.missing.toList.map fun key => s!"missing {Hex.text key.toList}"
  | .error _ => []

def ListOptions.check (options : ListOptions) (root : ListProof.Node) : Outcome :=
  let checked :=
    ListProof.check root { Config.default with maxNodeDepth := options.maxDepth }
  .report checked.status checked.rootHash options.root (listFindings checked)

/-- The keys to report on: those of the document and of the options, or all
leaves if there are none. -/
def MapOptions.requested (options : MapOptions) (proof : MapProof) : SortedSet MapKey :=
  let requested := proof.requested.union options.keys
  if requested.size = 0 then .ofList (proof.entries.filterMap MapProof.Entry.mapKey?)
  else requested

def MapOptions.check (options : MapOptions) (proof : MapProof) : Outcome :=
  let sorted := MapProof.ofUnsorted proof.entries (options.requested proof)
  let checked := sorted.check { Config.default with strictKeys := options.strictKeys }
  .report checked.status checked.rootHash options.root (mapFindings checked)

def Command.run (command : Command) : Source → Outcome
  | .missing => .failed (.missingFile command.file)
  | .unreadable => .failed .malformedProof
  | .content bytes =>
      match command with
      | .list options =>
          match ListProof.Node.ofBytes? bytes with
          | some root => options.check root
          | none => .failed .malformedProof
      | .map options =>
          match MapProof.ofBytes? bytes with
          | some proof => options.check proof
          | none => .failed .malformedProof

end MerkleProof.CommandLine
