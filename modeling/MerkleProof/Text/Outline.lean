/-!
Outlines: values laid out as named records, wrapped values and sequences, either on one
line or with each part on its own line and four spaces for each level.
-/

namespace MerkleProof.Text

inductive Outline
  | atom (text : String)
  | record (name : String) (fields : List (String × Outline))
  | wrapped (name : String) (content : Outline)
  | sequence (items : List Outline)

namespace Outline

def join (between : String) : List String → String
  | [] => ""
  | [s] => s
  | s :: t :: rest => s ++ between ++ join between (t :: rest)

mutual

def line : Outline → String
  | .atom text => text
  | .record name fields => name ++ " \x7b " ++ join ", " (fieldLines fields) ++ " \x7d"
  | .wrapped name content => name ++ "(" ++ line content ++ ")"
  | .sequence items => "[" ++ join ", " (itemLines items) ++ "]"

def fieldLines : List (String × Outline) → List String
  | [] => []
  | (name, value) :: rest => (name ++ ": " ++ line value) :: fieldLines rest

def itemLines : List Outline → List String
  | [] => []
  | item :: rest => line item :: itemLines rest

end

def margin (level : Nat) : String := String.ofList (List.replicate (4 * level) ' ')

mutual

/-- The layout over several lines, inside a text that stands `level` levels deep. -/
def block (level : Nat) : Outline → String
  | .atom text => text
  | .record name fields =>
      name ++ " \x7b\n" ++ fieldBlocks (level + 1) fields ++ margin level ++ "\x7d"
  | .wrapped name content =>
      name ++ "(\n" ++ margin (level + 1) ++ block (level + 1) content ++ ",\n"
        ++ margin level ++ ")"
  | .sequence [] => "[]"
  | .sequence (item :: rest) =>
      "[\n" ++ itemBlocks (level + 1) (item :: rest) ++ margin level ++ "]"

def fieldBlocks (level : Nat) : List (String × Outline) → String
  | [] => ""
  | (name, value) :: rest =>
      margin level ++ name ++ ": " ++ block level value ++ ",\n" ++ fieldBlocks level rest

def itemBlocks (level : Nat) : List Outline → String
  | [] => ""
  | item :: rest => margin level ++ block level item ++ ",\n" ++ itemBlocks level rest

end

def lines (o : Outline) : String := block 0 o

end Outline

end MerkleProof.Text
