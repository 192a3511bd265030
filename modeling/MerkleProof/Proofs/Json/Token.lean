import Mathlib.Data.List.Forall2
import MerkleProof.Json.Token

/-! Tokens are read back from their written forms.  Brackets, commas, colons and strings
end where they end whatever follows, so they may be written without blanks between them. -/

namespace MerkleProof.Json

open List (Forall₂)

/-- Whether a token is a sign or a string that is a text. -/
def Token.Delimited : Token → Prop
  | .openArray | .closeArray | .openObject | .closeObject | .comma | .colon => True
  | .string text => text.isSome
  | _ => False

/-! Pieces of a string. -/

/-- A piece that stands for a character: itself, or the number of one below the blank. -/
inductive Piece.Shows : Piece → Char → Prop
  | char (c : Char) : Shows (.char c) c
  | unit (c : Char) (low : c < ' ') : Shows (.unit c.toNat) c

theorem joinFrom_unit {code : Nat} (low : code < 0xd800) (done : List Char)
    (rest : List Piece) :
    joinFrom done (.unit code :: rest) = joinFrom (Char.ofNat code :: done) rest := by
  have apart : ¬0xd800 ≤ code := Nat.not_le.mpr low
  have apart' : ¬0xdc00 ≤ code := by omega
  cases rest with
  | nil => simp [joinFrom, apart]
  | cons piece rest => cases piece <;> simp [joinFrom, apart, apart']

theorem joinFrom_of_shows {pieces : List Piece} {chars : List Char}
    (shows : Forall₂ Piece.Shows pieces chars) (done : List Char) :
    joinFrom done pieces = some (String.ofList (done.reverse ++ chars)) := by
  induction shows generalizing done with
  | nil => rw [joinFrom, List.append_nil]
  | @cons piece c pieces chars first _ ih =>
      cases first with
      | char c =>
          rw [joinFrom, ih, List.reverse_cons, List.append_assoc, List.singleton_append]
      | unit c low =>
          have bound : c.toNat < 32 := low
          rw [joinFrom_unit (by omega), ih, Char.ofNat_toNat, List.reverse_cons,
            List.append_assoc, List.singleton_append]

theorem digitValue?_digitChar {n : Nat} :
    n < 16 → Hex.digitValue? n.digitChar = some n := by
  revert n
  decide

/-! The scanner on one token. -/

namespace Scan

def run (s : Scan) (chars : List Char) : Option Scan := (chars.map some).foldlM step s

@[simp] theorem run_nil (s : Scan) : s.run [] = some s := rfl

theorem run_cons (s : Scan) (c : Char) (chars : List Char) :
    s.run (c :: chars) = (s.step (some c)).bind fun s => s.run chars := rfl

theorem run_append (s : Scan) (chars more : List Char) :
    s.run (chars ++ more) = (s.run chars).bind fun s => s.run more := by
  rw [run, List.map_append, List.foldlM_append]
  rfl

variable (tokens : List Token) (pieces : List Piece)

theorem run_escape (c : Char) :
    ∃ piece, piece.Shows c ∧
      run ⟨tokens, .string pieces⟩ (Token.escape c) =
        some ⟨tokens, .string (piece :: pieces)⟩ := by
  unfold Token.escape
  split
  iterate 7 exact ⟨_, .char _, rfl⟩
  rename_i quote backslash _ _ _ _ _
  split
  · rename_i low
    have bound : c.toNat < 32 := low
    have value : 16 * (c.toNat / 16) + c.toNat % 16 = c.toNat := Nat.div_add_mod _ _
    have zero : Hex.digitValue? '0' = some 0 := rfl
    have high : Hex.digitValue? (c.toNat / 16).digitChar = some (c.toNat / 16) :=
      digitValue?_digitChar (by omega)
    have last : Hex.digitValue? (c.toNat % 16).digitChar = some (c.toNat % 16) :=
      digitValue?_digitChar (by omega)
    exact ⟨_, .unit c low, by simp [run_cons, step, zero, high, last, value]⟩
  · rename_i above
    have not_quote : c ≠ '"' := fun same => quote same
    have not_backslash : c ≠ '\\' := fun same => backslash same
    exact ⟨_, .char c, by simp [run_cons, step, not_quote, not_backslash, above]⟩

theorem run_escapes (chars : List Char) :
    ∃ shown, Forall₂ Piece.Shows shown chars ∧
      run ⟨tokens, .string pieces⟩ (chars.flatMap Token.escape) =
        some ⟨tokens, .string (shown.reverse ++ pieces)⟩ := by
  induction chars generalizing pieces with
  | nil => exact ⟨[], .nil, rfl⟩
  | cons c chars ih =>
      obtain ⟨piece, first, read⟩ := run_escape tokens pieces c
      obtain ⟨shown, rest, read_rest⟩ := ih (piece :: pieces)
      refine ⟨piece :: shown, .cons first rest, ?_⟩
      rw [List.flatMap_cons, run_append, read, Option.bind_some, read_rest,
        List.reverse_cons, List.append_assoc, List.singleton_append]

theorem run_chars {t : Token} (delimited : t.Delimited) :
    run ⟨tokens, .nothing⟩ t.chars = some ⟨t :: tokens, .nothing⟩ := by
  cases t with
  | null | bool value | number literal => cases delimited
  | openArray | closeArray | openObject | closeObject | comma | colon => rfl
  | string text =>
      obtain ⟨text, rfl⟩ := Option.isSome_iff_exists.mp delimited
      obtain ⟨shown, shows, read⟩ := run_escapes tokens [] text.toList
      have opened : step ⟨tokens, .nothing⟩ (some '"') = some ⟨tokens, .string []⟩ := rfl
      have closed : step ⟨tokens, .string shown.reverse⟩ (some '"') =
          some ⟨.string (joinFrom [] shown.reverse.reverse) :: tokens, .nothing⟩ := rfl
      rw [List.append_nil] at read
      rw [List.reverse_reverse, joinFrom_of_shows shows, List.reverse_nil, List.nil_append,
        String.ofList_toList] at closed
      rw [Token.chars, Option.getD_some, List.cons_append, run_cons, opened,
        Option.bind_some, run_append, read, Option.bind_some, run_cons, closed,
        Option.bind_some, run_nil]

theorem run_tokens {ts : List Token} (delimited : ∀ t ∈ ts, t.Delimited) :
    run ⟨tokens, .nothing⟩ (ts.flatMap Token.chars) =
      some ⟨ts.reverse ++ tokens, .nothing⟩ := by
  induction ts generalizing tokens with
  | nil => rfl
  | cons t ts ih =>
      obtain ⟨first, rest⟩ := List.forall_mem_cons.mp delimited
      rw [List.flatMap_cons, run_append, run_chars tokens first,
        Option.bind_some, ih _ rest, List.reverse_cons, List.append_assoc,
        List.singleton_append]

end Scan

theorem tokens?_flatMap_chars {ts : List Token} (delimited : ∀ t ∈ ts, t.Delimited) :
    tokens? ((ts.flatMap Token.chars).map some) = some ts := by
  have read := Scan.run_tokens [] delimited
  rw [Scan.run] at read
  rw [tokens?, Scan.start, read, List.append_nil]
  simp [Scan.close]

end MerkleProof.Json
