import MerkleProof.Json.Printer
import MerkleProof.Json.Reader
import MerkleProof.ListProof.Node
import MerkleProof.Text.Outline

/-!
List proofs as JSON documents, and the outlines in which they are shown. A
node is an object of one member, named for the kind of node, and a branch
holds a record of its children.
-/

namespace MerkleProof.ListProof.Node

def toJson : Node → Json
  | .element value => .tagged "element" (.ofText (Hex.text value))
  | .branch left right =>
      .tagged "branch" (.object [(some "left", left.toJson), (some "right", right.toJson)])
  | .lone child => .tagged "branch" (.object [(some "left", child.toJson)])
  | .pruned digest => .tagged "hash" (.ofText digest.text)
  | .absent root => .tagged "absent" (.ofText root.text)

def digestOfJson? (v : Json) : Option Digest :=
  v.text?.bind fun text => (Digest.parse text).toOption

/-- Reads a node inside which so many more levels of nesting are allowed, its own included.
A branch takes two levels, one for the node and one for the record of its children. -/
def ofJson? (levels : Nat) (v : Json) : Option Node :=
  match levels, v with
  | levels + 1, .object [(some kind, body)] =>
      if kind = "element" then
        body.text?.bind fun text => (Hex.decode text.toList).toOption.map .element
      else if kind = "hash" then (digestOfJson? body).map .pruned
      else if kind = "absent" then (digestOfJson? body).map .absent
      else if kind = "branch" then
        match levels, body.parts? ["left", "right"] with
        | inner + 1, some [some left, right] =>
            match ofJson? inner left, right with
            | some left, none => some (.lone left)
            | some left, some .null => some (.lone left)
            | some left, some right => (ofJson? inner right).map (.branch left)
            | none, _ => none
        | _, _ => none
      else none
  | _, _ => none

def text (root : Node) : String := root.toJson.render

def ofText? (text : String) : Option Node :=
  (Json.ofText? text).bind (ofJson? Json.maxNesting)

def ofBytes? (bytes : Bytes) : Option Node :=
  (Json.ofBytes? bytes).bind (ofJson? Json.maxNesting)

def outline : Node → Text.Outline
  | .element value => .atom ("Element(" ++ Hex.text value ++ ")")
  | .branch left right =>
      .record "Branch" [("left", left.outline), ("right", .wrapped "Some" right.outline)]
  | .lone child => .record "Branch" [("left", child.outline), ("right", .atom "None")]
  | .pruned digest => .atom ("Hash(" ++ digest.text ++ ")")
  | .absent root => .atom ("Absent(" ++ root.text ++ ")")

end MerkleProof.ListProof.Node
