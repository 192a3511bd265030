import MerkleProof.Json.Basic
import MerkleProof.Text.Quoted

/-!
Single values that are written as a JSON string, and what is said of a value that is not
one.
-/

namespace MerkleProof.Json

/-- Why a value is not the written form of what was expected. -/
inductive Mismatch
  | wrongType (found : Json)
  | wrongText (text : String)

def describe : Json → String
  | .null => "null"
  | .bool value => s!"boolean `{value}`"
  | .number literal =>
      match literal.integer? with
      | some n => s!"integer `{n}`"
      | none => s!"floating point `{literal.realText}`"
  | .string text => "string " ++ Text.quoted (text.getD "")
  | .array _ => "sequence"
  | .object _ => "map"

def Mismatch.message (expected : String) : Mismatch → String
  | .wrongType found => s!"invalid type: {describe found}, expected {expected}"
  | .wrongText text => s!"invalid value: string {Text.quoted text}, expected {expected}"

def readText {ε α : Type} (read : String → Except ε α) (v : Json) : Except Mismatch α :=
  match v.text? with
  | none => .error (.wrongType v)
  | some text =>
      match read text with
      | .ok a => .ok a
      | .error _ => .error (.wrongText text)

end MerkleProof.Json
