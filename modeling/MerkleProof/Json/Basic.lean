import MerkleProof.Json.Numeral

/-!
JSON values. A string is `none` if it is no text: its bytes or escapes name half a
surrogate pair or break the encoding. Such a string may stand only where its
content does not matter.
-/

namespace MerkleProof

inductive Json
  | null
  | bool (value : Bool)
  | number (literal : Json.Numeral)
  | string (text : Option String)
  | array (items : List Json)
  | object (members : List (Option String × Json))

namespace Json

instance : Inhabited Json := ⟨.null⟩

/-- How deep the objects and arrays that are read for their content may be nested. What is
skipped may be nested deeper. -/
def maxNesting : Nat := 127

def ofText (s : String) : Json := .string (some s)

def text? : Json → Option String
  | .string text => text
  | _ => none

def tagged (name : String) (body : Json) : Json := .object [(some name, body)]

def valuesOf (members : List (Option String × Json)) (name : String) : List Json :=
  (members.filter fun m => m.1 == some name).map Prod.snd

/-- The parts of a record, in the order of their names: an object with each name
at most once and any others skipped, or an array of the leading parts. A part that
is not there is `none`. -/
def parts? (names : List String) : Json → Option (List (Option Json))
  | .object members =>
      if members.all (fun m => m.1.isSome)
          && names.all (fun name => (valuesOf members name).length ≤ 1) then
        some (names.map fun name => (valuesOf members name).head?)
      else none
  | .array items =>
      if items.length ≤ names.length then
        some (items.map some ++ List.replicate (names.length - items.length) none)
      else none
  | _ => none

end Json

end MerkleProof
