import MerkleProof.Json.Printer
import MerkleProof.Json.Reader
import MerkleProof.MapProof.Entry
import MerkleProof.Text.Outline
import MerkleProof.TrieKey.Forms

/-!
Map proofs as JSON documents, and the outlines in which entries are shown. A proof
is a record of its entries and its requested keys; an entry is an object of one
member, named for its kind.
-/

namespace MerkleProof

namespace MapProof

namespace Entry

def toJson : Entry → Json
  | .leaf key digest value =>
      .tagged "leaf" (.object [
        (some "key", .ofText (Hex.text key.toList)),
        (some "hash", .ofText digest.text),
        (some "value", .ofText (Hex.text value))])
  | .branch key digest =>
      .tagged "branch" (.object [
        (some "key", .ofText key.bitString),
        (some "hash", .ofText digest.text)])

def read? {ε α : Type} (read : String → Except ε α) (v : Json) : Option α :=
  v.text?.bind fun text => (read text).toOption

def mapKeyOfJson? (v : Json) : Option MapKey :=
  read? (fun text => Hex.decode32 text.toList) v

def leafOfParts? : List (Option Json) → Option Entry
  | [some key, some digest, some value] => do
      let key ← mapKeyOfJson? key
      let digest ← read? Digest.parse digest
      let value ← read? (fun text => Hex.decode text.toList) value
      return .leaf key digest value
  | _ => none

def branchOfParts? : List (Option Json) → Option Entry
  | [some key, some digest] => do
      let key ← read? TrieKey.ofBitString key
      let digest ← read? Digest.parse digest
      return .branch key digest
  | _ => none

def ofJson? : Json → Option Entry
  | .object [(some kind, body)] =>
      if kind = "leaf" then (body.parts? ["key", "hash", "value"]).bind leafOfParts?
      else if kind = "branch" then (body.parts? ["key", "hash"]).bind branchOfParts?
      else none
  | _ => none

def outline : Entry → Text.Outline
  | .leaf key digest value =>
      .record "Leaf" [
        ("key", .atom (Text.quoted (Hex.text key.toList))),
        ("hash", .atom digest.text),
        ("value", .atom (Text.quoted (Hex.text value)))]
  | .branch key digest =>
      .record "Branch" [("key", .atom key.bitString), ("hash", .atom digest.text)]

end Entry

def toJson (p : MapProof) : Json :=
  .object [
    (some "entries", .array (p.entries.map Entry.toJson)),
    (some "requested",
      .array (p.requested.toList.map fun key => .ofText (Hex.text key.toList)))]

def entriesOfJson? : Json → Option (List Entry)
  | .array items => items.mapM Entry.ofJson?
  | _ => none

/-- Reads the requested keys; a proof that does not give any asks for none. -/
def requestedOfJson? : Option Json → Option (SortedSet MapKey)
  | none => some ∅
  | some (.array items) => (items.mapM Entry.mapKeyOfJson?).map SortedSet.ofList
  | some _ => none

/-- A proof is nested four levels deep, so that the limit on nesting plays no part. -/
def ofJson? (v : Json) : Option MapProof :=
  match v.parts? ["entries", "requested"] with
  | some [some entries, requested] => do
      let entries ← entriesOfJson? entries
      let requested ← requestedOfJson? requested
      return ⟨entries, requested⟩
  | _ => none

def text (p : MapProof) : String := p.toJson.render

def ofText? (text : String) : Option MapProof := (Json.ofText? text).bind ofJson?

def ofBytes? (bytes : Bytes) : Option MapProof := (Json.ofBytes? bytes).bind ofJson?

end MapProof

end MerkleProof
