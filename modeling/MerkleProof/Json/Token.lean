import MerkleProof.Hex
import MerkleProof.Json.Basic
import MerkleProof.Text.Utf8

/-!
Tokens of a JSON document. Reading them is one pass over the symbols of the text, which
keeps the tokens read so far and what it is in the middle of.
-/

namespace MerkleProof.Json

open Text (Symbol)

inductive Token
  | openArray
  | closeArray
  | openObject
  | closeObject
  | comma
  | colon
  | null
  | bool (value : Bool)
  | number (literal : Numeral)
  | string (text : Option String)

/-- A piece of a string literal: a character, a 16-bit unit given by its number, or a byte
that is no part of a character. -/
inductive Piece
  | char (c : Char)
  | unit (code : Nat)
  | stray

/-- The text of the pieces after those already joined (last first). Two units form a
character if they are the halves of a surrogate pair, and half a pair alone is no text. -/
def joinFrom (done : List Char) : List Piece → Option String
  | [] => some (String.ofList done.reverse)
  | .char c :: rest => joinFrom (c :: done) rest
  | .stray :: _ => none
  | .unit high :: .unit low :: rest =>
      if 0xd800 ≤ high ∧ high < 0xdc00 then
        if 0xdc00 ≤ low ∧ low < 0xe000 then
          joinFrom
            (Char.ofNat (0x10000 + (high - 0xd800) * 0x400 + (low - 0xdc00)) :: done) rest
        else none
      else if 0xdc00 ≤ high ∧ high < 0xe000 then none
      else joinFrom (Char.ofNat high :: done) (.unit low :: rest)
  | .unit code :: rest =>
      if 0xd800 ≤ code ∧ code < 0xe000 then none
      else joinFrom (Char.ofNat code :: done) rest

/-- What the reader is in the middle of; what it has of it stands last first. -/
inductive Pending
  | nothing
  | word (letters : List Char)
  | number (chars : List Char)
  | string (pieces : List Piece)
  | escape (pieces : List Piece)
  /-- Behind `\u`, with so many digits to come. -/
  | unit (pieces : List Piece) (code remaining : Nat)

structure Scan where
  tokens : List Token
  current : Pending

namespace Scan

def start : Scan := ⟨[], .nothing⟩

def push (s : Scan) (t : Token) : Scan := ⟨t :: s.tokens, .nothing⟩

def isNumberChar (c : Char) : Bool :=
  c.isDigit || c == '-' || c == '+' || c == '.' || c == 'e' || c == 'E'

/-- Completes a word or number; a string has its own end. -/
def close (s : Scan) : Option Scan :=
  match s.current with
  | .nothing => some s
  | .word letters =>
      match String.ofList letters.reverse with
      | "null" => some (s.push .null)
      | "true" => some (s.push (.bool true))
      | "false" => some (s.push (.bool false))
      | _ => none
  | .number chars => (Numeral.ofChars? chars.reverse).map fun n => s.push (.number n)
  | _ => none

def begin (s : Scan) (c : Char) : Option Scan :=
  match c with
  | ' ' | '\t' | '\n' | '\r' => some s
  | '[' => some (s.push .openArray)
  | ']' => some (s.push .closeArray)
  | '\x7b' => some (s.push .openObject)
  | '\x7d' => some (s.push .closeObject)
  | ',' => some (s.push .comma)
  | ':' => some (s.push .colon)
  | '"' => some { s with current := .string [] }
  | c =>
      if c.isDigit || c == '-' then some { s with current := .number [c] }
      else if 'a' ≤ c ∧ c ≤ 'z' then some { s with current := .word [c] }
      else none

def escaped? : Char → Option Char
  | '"' => some '"'
  | '\\' => some '\\'
  | '/' => some '/'
  | 'b' => some '\x08'
  | 'f' => some '\x0c'
  | 'n' => some '\n'
  | 'r' => some '\r'
  | 't' => some '\t'
  | _ => none

def step (s : Scan) : Symbol → Option Scan
  | none =>
      match s.current with
      | .string pieces => some { s with current := .string (.stray :: pieces) }
      | _ => none
  | some c =>
      match s.current with
      | .nothing => s.begin c
      | .word letters =>
          if 'a' ≤ c ∧ c ≤ 'z' then some { s with current := .word (c :: letters) }
          else s.close.bind fun s => s.begin c
      | .number chars =>
          if isNumberChar c then some { s with current := .number (c :: chars) }
          else s.close.bind fun s => s.begin c
      | .string pieces =>
          if c == '"' then some (s.push (.string (joinFrom [] pieces.reverse)))
          else if c == '\\' then some { s with current := .escape pieces }
          else if c < ' ' then none
          else some { s with current := .string (.char c :: pieces) }
      | .escape pieces =>
          if c == 'u' then some { s with current := .unit pieces 0 4 }
          else (escaped? c).map fun c => { s with current := .string (.char c :: pieces) }
      | .unit pieces code remaining =>
          (Hex.digitValue? c).map fun digit =>
            let code := 16 * code + digit
            if remaining ≤ 1 then { s with current := .string (.unit code :: pieces) }
            else { s with current := .unit pieces code (remaining - 1) }

end Scan

def tokens? (text : List Symbol) : Option (List Token) := do
  let s ← text.foldlM Scan.step Scan.start
  let s ← s.close
  return s.tokens.reverse

namespace Token

def escape (c : Char) : List Char :=
  match c with
  | '"' => ['\\', '"']
  | '\\' => ['\\', '\\']
  | '\x08' => ['\\', 'b']
  | '\x0c' => ['\\', 'f']
  | '\n' => ['\\', 'n']
  | '\r' => ['\\', 'r']
  | '\t' => ['\\', 't']
  | c =>
      if c < ' ' then
        ['\\', 'u', '0', '0', (c.toNat / 16).digitChar, (c.toNat % 16).digitChar]
      else [c]

/-- The written form; a string that is no text is left empty. -/
def chars : Token → List Char
  | .openArray => ['[']
  | .closeArray => [']']
  | .openObject => ['\x7b']
  | .closeObject => ['\x7d']
  | .comma => [',']
  | .colon => [':']
  | .null => ['n', 'u', 'l', 'l']
  | .bool true => ['t', 'r', 'u', 'e']
  | .bool false => ['f', 'a', 'l', 's', 'e']
  | .number literal => literal.chars
  | .string text => '"' :: (text.getD "").toList.flatMap escape ++ ['"']

end Token

end MerkleProof.Json
