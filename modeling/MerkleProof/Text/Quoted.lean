import MerkleProof.Text.Combining
import MerkleProof.Text.Unprintable

/-!
Characters and texts between quotes. The quote itself, the backslash and five
controls have short escapes; every other character that would not show up on its own
is written by its code point.
-/

namespace MerkleProof.Text

def isShown (c : Char) : Bool :=
  if c.toNat < 127 then 32 ≤ c.toNat else !isUnprintable c && !isCombining c

def escape (quote c : Char) : List Char :=
  match c with
  | '\x00' => ['\\', '0']
  | '\t' => ['\\', 't']
  | '\n' => ['\\', 'n']
  | '\r' => ['\\', 'r']
  | '\\' => ['\\', '\\']
  | c =>
      if c = quote then ['\\', c]
      else if isShown c then [c]
      else ['\\', 'u', '\x7b'] ++ Nat.toDigits 16 c.toNat ++ ['\x7d']

def quotedChar (c : Char) : String :=
  String.ofList ('\'' :: escape '\'' c ++ ['\''])

def quoted (text : String) : String :=
  String.ofList ('"' :: text.toList.flatMap (escape '"') ++ ['"'])

end MerkleProof.Text
