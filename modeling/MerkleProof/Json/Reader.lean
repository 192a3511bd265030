import MerkleProof.Json.Token

/-!
JSON values read from tokens. The reader keeps the containers it is inside of as frames, so
that the nesting of a document is not limited by it.
-/

namespace MerkleProof.Json

/-- A container that a value is being read for; its earlier content stands last first. -/
inductive Frame
  | array (items : List Json)
  | object (members : List (Option String × Json)) (name : Option String)

/-- What has been read; the frames stand innermost first. -/
inductive Progress
  | value (frames : List Frame)
  | firstItem (frames : List Frame)
  | firstName (frames : List Frame)
  | name (members : List (Option String × Json)) (frames : List Frame)
  | colon (members : List (Option String × Json)) (name : Option String)
      (frames : List Frame)
  | complete (value : Json) (frames : List Frame)

namespace Progress

def begin (frames : List Frame) : Token → Option Progress
  | .null => some (.complete .null frames)
  | .bool b => some (.complete (.bool b) frames)
  | .number literal => some (.complete (.number literal) frames)
  | .string text => some (.complete (.string text) frames)
  | .openArray => some (.firstItem frames)
  | .openObject => some (.firstName frames)
  | _ => none

def step : Progress → Token → Option Progress
  | .value frames, t => begin frames t
  | .firstItem frames, .closeArray => some (.complete (.array []) frames)
  | .firstItem frames, t => begin (.array [] :: frames) t
  | .firstName frames, .closeObject => some (.complete (.object []) frames)
  | .firstName frames, .string label => some (.colon [] label frames)
  | .name members frames, .string label => some (.colon members label frames)
  | .colon members label frames, .colon => some (.value (.object members label :: frames))
  | .complete v (.array items :: frames), .comma =>
      some (.value (.array (v :: items) :: frames))
  | .complete v (.array items :: frames), .closeArray =>
      some (.complete (.array (v :: items).reverse) frames)
  | .complete v (.object members label :: frames), .comma =>
      some (.name ((label, v) :: members) frames)
  | .complete v (.object members label :: frames), .closeObject =>
      some (.complete (.object ((label, v) :: members).reverse) frames)
  | _, _ => none

def result? : Progress → Option Json
  | .complete v [] => some v
  | _ => none

end Progress

def ofTokens? (tokens : List Token) : Option Json :=
  (tokens.foldlM Progress.step (.value [])).bind Progress.result?

def ofSymbols? (text : List Text.Symbol) : Option Json := (tokens? text).bind ofTokens?

def ofText? (text : String) : Option Json := ofSymbols? (text.toList.map some)

def ofBytes? (bytes : Bytes) : Option Json := ofSymbols? (Text.symbols bytes)

end MerkleProof.Json
