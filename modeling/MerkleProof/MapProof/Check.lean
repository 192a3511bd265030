import MerkleProof.Access
import MerkleProof.Config
import MerkleProof.MapProof.Contour
import MerkleProof.MapProof.Entry

/-!
Checking a map proof. Entries in strictly ascending order with genuine leaves give a root
digest, and every requested key is then either present with its leaf's value or missing.
-/

namespace MerkleProof.MapProof

inductive Fault
  | invalidOrder
  | duplicatePath
  /-- A pruned subtree stands alone. -/
  | nonTerminalNode
  | invalidLeafHash
  /-- A key has set bits past the significant ones. -/
  | nonCanonicalKey
deriving DecidableEq

def Fault.name : Fault → String
  | .invalidOrder => "INVALID_ORDER"
  | .duplicatePath => "DUPLICATE_PATH"
  | .nonTerminalNode => "NON_TERMINAL_NODE"
  | .invalidLeafHash => "INVALID_LEAF_HASH"
  | .nonCanonicalKey => "NON_CANONICAL_KEY"

def Entry.subtree (e : Entry) : Subtree := ⟨e.key, e.digest⟩

/-- What is wrong with the first two neighbours that do not ascend. -/
def orderFault? : List Entry → Option Fault
  | a :: b :: rest =>
      match compare b.key a.key with
      | .lt => some .invalidOrder
      | .eq => some .duplicatePath
      | .gt => orderFault? (b :: rest)
  | _ => none

def joinEntries : List Entry → Except Fault Digest
  | [] => .ok Digest.empty
  | [.leaf key digest _] => .ok (singlePreimage ⟨.leaf key, digest⟩).digest
  | [.branch _ _] => .error .nonTerminalNode
  | first :: second :: rest =>
      .ok (Contour.ofSubtrees first.subtree second.subtree
        (rest.map Entry.subtree)).finish.digest

/-- The root of the entries, or the first fault in the order in which
faults are looked for. -/
def rootHash (strictKeys : Bool) (entries : List Entry) : Except Fault Digest :=
  if strictKeys && !entries.all (fun e => e.key.isCanonical) then .error .nonCanonicalKey
  else
    match orderFault? entries with
    | some fault => .error fault
    | none =>
        if entries.all Entry.isGenuine then joinEntries entries
        else .error .invalidLeafHash

structure Contents where
  rootHash : Digest
  entries : SortedMap MapKey Bytes
  missing : SortedSet MapKey
deriving DecidableEq

def present (p : MapProof) : SortedMap MapKey Bytes :=
  .ofList (p.entries.filterMap fun
    | .leaf key _ value => if p.requested.contains key then some (key, value) else none
    | .branch _ _ => none)

def missing (p : MapProof) : SortedSet MapKey :=
  let present := p.present
  p.requested.filter fun key => !present.contains key

abbrev Checked := Except Fault Contents

def check (p : MapProof) (config : Config) : Checked :=
  (rootHash config.strictKeys p.entries).map fun root => ⟨root, p.present, p.missing⟩

namespace Checked

def status : Checked → String
  | .ok _ => "CORRECT"
  | .error fault => fault.name

def isValid : Checked → Bool
  | .ok _ => true
  | .error _ => false

def contents (checked : Checked) : Except AccessError Contents :=
  checked.mapError fun fault => .invalidProof fault.name

def rootHash (checked : Checked) : Except AccessError Digest :=
  checked.contents.map Contents.rootHash

def entries (checked : Checked) : Except AccessError (SortedMap MapKey Bytes) :=
  checked.contents.map Contents.entries

def missing (checked : Checked) : Except AccessError (SortedSet MapKey) :=
  checked.contents.map Contents.missing

def hasRoot (checked : Checked) (root : Digest) : Except AccessError Bool :=
  checked.rootHash.map (· == root)

/-- The value of a requested key, `none` if the key counts as missing. -/
def get (checked : Checked) (key : MapKey) : Except AccessError (Option Bytes) :=
  checked.contents.bind fun contents =>
    match contents.entries.get? key with
    | some value => .ok (some value)
    | none =>
        if contents.missing.contains key then .ok none else .error (.keyNotRequested key)

def containsKey (checked : Checked) (key : MapKey) : Except AccessError Bool :=
  (checked.get key).map Option.isSome

end Checked

end MerkleProof.MapProof
