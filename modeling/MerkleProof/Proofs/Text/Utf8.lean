import MerkleProof.Json.Reader

/-! The bytes of a text are read as its characters. -/

namespace MerkleProof.Text

def utf8 (text : String) : Bytes := text.toUTF8.data.toList

theorem utf8_eq (text : String) :
    utf8 text = text.toList.flatMap String.utf8EncodeChar := by
  have bytes := String.toByteArray_ofList (l := text.toList)
  rw [String.ofList_toList] at bytes
  rw [utf8, String.toUTF8_eq_toByteArray, bytes, List.utf8Encode, List.data_toByteArray]

theorem charFrom_toNat {least code : Nat} {c : Char} (code_eq : code = c.toNat)
    (low : least ≤ c.toNat) : charFrom least code = some c := by
  have valid : c.toNat.isValidChar := c.valid
  rw [code_eq, charFrom, if_pos ⟨low, valid⟩, Char.ofNat_toNat]

theorem char_toNat_lt (c : Char) : c.toNat < 0x110000 := by
  rcases c.valid with below | ⟨-, above⟩
  · exact Nat.lt_trans below (by decide)
  · exact above

/-- A byte that continues a character with six more of its bits. -/
def continuation (n : Nat) : UInt8 := UInt8.ofNat (n % 64 + 128)

theorem isContinuation_continuation (n : Nat) :
    isContinuation (continuation n) = true := by
  simp [isContinuation, continuation, UInt8.le_iff_toNat_le, UInt8.lt_iff_toNat_lt]
  omega

theorem payload_continuation (n : Nat) : payload (continuation n) = n % 64 := by
  simp [payload, continuation]
  omega

theorem frontChar_one {c : Char} (small : c.toNat ≤ 127) (rest : Bytes) :
    frontChar (UInt8.ofNat c.toNat) rest = some (c, 0) := by
  have toNat_eq : (UInt8.ofNat c.toNat).toNat = c.toNat := by
    simp
    omega
  have first : UInt8.ofNat c.toNat < 0x80 := by
    rw [UInt8.lt_iff_toNat_lt, toNat_eq]
    exact Nat.lt_succ_of_le small
  unfold frontChar
  rw [if_pos first, toNat_eq, Char.ofNat_toNat]

theorem frontChar_two {c : Char} (large : 127 < c.toNat) (small : c.toNat ≤ 2047)
    (rest : Bytes) :
    frontChar (UInt8.ofNat (c.toNat / 64 % 32 + 192)) (continuation c.toNat :: rest) =
      some (c, 1) := by
  have toNat_eq : (UInt8.ofNat (c.toNat / 64 % 32 + 192)).toNat = c.toNat / 64 + 192 := by
    simp
    omega
  have code : c.toNat = (c.toNat / 64 + 192) % 32 * 64 + c.toNat % 64 := by omega
  unfold frontChar
  simp only [UInt8.lt_iff_toNat_lt, toNat_eq]
  rw [if_neg (by simp), if_neg (by simp), if_pos (by simp; omega),
    isContinuation_continuation, if_pos rfl, payload_continuation,
    charFrom_toNat code.symm (by omega)]
  rfl

theorem frontChar_three {c : Char} (large : 2047 < c.toNat) (small : c.toNat ≤ 65535)
    (rest : Bytes) :
    frontChar (UInt8.ofNat (c.toNat / 4096 % 16 + 224))
        (continuation (c.toNat / 64) :: continuation c.toNat :: rest) = some (c, 2) := by
  have toNat_eq :
      (UInt8.ofNat (c.toNat / 4096 % 16 + 224)).toNat = c.toNat / 4096 + 224 := by
    simp
    omega
  have code : c.toNat =
      (c.toNat / 4096 + 224) % 16 * 4096 + c.toNat / 64 % 64 * 64 + c.toNat % 64 := by
    omega
  unfold frontChar
  simp only [UInt8.lt_iff_toNat_lt, toNat_eq, isContinuation_continuation,
    payload_continuation, Bool.and_self]
  rw [if_neg (by simp), if_neg (by simp), if_neg (by simp), if_pos (by simp; omega),
    if_pos trivial, charFrom_toNat code.symm (by omega)]
  rfl

theorem frontChar_four {c : Char} (large : 65535 < c.toNat) (rest : Bytes) :
    frontChar (UInt8.ofNat (c.toNat / 262144 % 8 + 240))
        (continuation (c.toNat / 4096) :: continuation (c.toNat / 64) ::
          continuation c.toNat :: rest) = some (c, 3) := by
  have small := char_toNat_lt c
  have toNat_eq :
      (UInt8.ofNat (c.toNat / 262144 % 8 + 240)).toNat = c.toNat / 262144 + 240 := by
    simp
    omega
  have code :
    c.toNat = (c.toNat / 262144 + 240) % 8 * 262144 + c.toNat / 4096 % 64 * 4096 +
      c.toNat / 64 % 64 * 64 + c.toNat % 64 := by
    omega
  unfold frontChar
  simp only [UInt8.lt_iff_toNat_lt, toNat_eq, isContinuation_continuation,
    payload_continuation, Bool.and_self]
  rw [if_neg (by simp), if_neg (by simp), if_neg (by simp), if_neg (by simp),
    if_pos (by simp; omega), if_pos trivial, charFrom_toNat code.symm (by omega)]
  rfl

theorem frontChar_utf8EncodeChar (c : Char) (rest : Bytes) : ∃ first more,
    String.utf8EncodeChar c = first :: more ∧
      frontChar first (more ++ rest) = some (c, more.length) := by
  unfold String.utf8EncodeChar
  change ∃ first more, (if c.toNat ≤ 127 then _ else if c.toNat ≤ 2047 then _ else
    if c.toNat ≤ 65535 then _ else _) = first :: more ∧ _
  split
  · rename_i one
    exact ⟨_, [], rfl, frontChar_one one rest⟩
  · split
    · rename_i more_than_one two
      exact ⟨_, [_], rfl, frontChar_two (by omega) two rest⟩
    · split
      · rename_i more_than_two three
        exact ⟨_, [_, _], rfl, frontChar_three (by omega) three rest⟩
      · exact ⟨_, [_, _, _], rfl, frontChar_four (by omega) rest⟩

theorem symbolsFrom_skip (done : List Symbol) (skipped rest : Bytes) :
    symbolsFrom done skipped.length (skipped ++ rest) = symbolsFrom done 0 rest := by
  induction skipped with
  | nil => rfl
  | cons b skipped ih => exact ih

theorem symbolsFrom_flatMap (done : List Symbol) (chars : List Char) :
    symbolsFrom done 0 (chars.flatMap String.utf8EncodeChar) =
      done.reverse ++ chars.map some := by
  induction chars generalizing done with
  | nil => simp [symbolsFrom]
  | cons c chars ih =>
      obtain ⟨first, more, bytes_eq, front⟩ :=
        frontChar_utf8EncodeChar c (chars.flatMap String.utf8EncodeChar)
      rw [List.flatMap_cons, bytes_eq, List.cons_append, symbolsFrom, front]
      dsimp only
      rw [symbolsFrom_skip, ih]
      simp

theorem symbols_utf8 (text : String) : symbols (utf8 text) = text.toList.map some := by
  rw [symbols, utf8_eq, symbolsFrom_flatMap]
  rfl

end MerkleProof.Text

namespace MerkleProof.Json

theorem ofBytes?_utf8 (text : String) : ofBytes? (Text.utf8 text) = ofText? text := by
  rw [ofBytes?, Text.symbols_utf8, ofText?]

end MerkleProof.Json
