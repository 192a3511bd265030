import MerkleProof.Json.Token

/-!
JSON values written without blanks, the members of an object in their order.
-/

namespace MerkleProof.Json

mutual

def tokens : Json → List Token
  | .null => [.null]
  | .bool value => [.bool value]
  | .number literal => [.number literal]
  | .string text => [.string text]
  | .array [] => [.openArray, .closeArray]
  | .array (item :: rest) => .openArray :: (tokens item ++ itemTokens rest)
  | .object [] => [.openObject, .closeObject]
  | .object ((name, value) :: rest) =>
      .openObject :: .string name :: .colon :: (tokens value ++ memberTokens rest)

/-- The items after the first and the end of their array. -/
def itemTokens : List Json → List Token
  | [] => [.closeArray]
  | item :: rest => .comma :: (tokens item ++ itemTokens rest)

/-- The members after the first and the end of their object. -/
def memberTokens : List (Option String × Json) → List Token
  | [] => [.closeObject]
  | (name, value) :: rest =>
      .comma :: .string name :: .colon :: (tokens value ++ memberTokens rest)

end

def render (v : Json) : String := String.ofList (v.tokens.flatMap Token.chars)

end MerkleProof.Json
