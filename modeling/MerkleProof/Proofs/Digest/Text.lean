import MerkleProof.Proofs.Hex
import MerkleProof.Proofs.Json.Reader
import MerkleProof.Proofs.Text.Utf8
import MerkleProof.Json.Scalar
import Mathlib.Data.List.Induction

/-! The text form of digests.  A digest is read from any spelling of its digits, every
other text is rejected for the first thing that is wrong with its bytes, and the texts are
ordered as their digests are. -/

namespace MerkleProof.Hex

/-- What is first wrong with the bytes of a text that should consist of 64 digits. -/
def Fault (bytes : Bytes) : Error → Prop
  | .oddLength => bytes.length % 2 = 1
  | .wrongLength => bytes.length % 2 = 0 ∧ bytes.length ≠ 64
  | .invalidCharacter byte position =>
      bytes.length = 64 ∧ bytes[position]? = some byte ∧ ¬IsDigit (Char.ofUInt8 byte) ∧
        ∀ earlier ∈ bytes.take position, IsDigit (Char.ofUInt8 earlier)

def utf8 (cs : List Char) : Bytes := cs.flatMap String.utf8EncodeChar

theorem le_of_digits_before {bytes : Bytes} {byte : UInt8} {i j : Nat}
    (here : bytes[i]? = some byte) (bad : ¬IsDigit (Char.ofUInt8 byte))
    (before : ∀ earlier ∈ bytes.take j, IsDigit (Char.ofUInt8 earlier)) : j ≤ i := by
  by_contra less
  have taken : (bytes.take j)[i]? = some byte := by
    rwa [List.getElem?_take_of_lt (Nat.lt_of_not_le less)]
  exact bad (before byte (List.mem_of_getElem? taken))

theorem Fault.unique {bytes : Bytes} {e e' : Error} (fault : Fault bytes e)
    (fault' : Fault bytes e') : e = e' := by
  cases e <;> cases e' <;> simp only [Fault] at fault fault'
  case invalidCharacter.invalidCharacter byte i byte' j =>
    obtain ⟨-, here, bad, before⟩ := fault
    obtain ⟨-, here', bad', before'⟩ := fault'
    have same : i = j :=
      Nat.le_antisymm (le_of_digits_before here' bad' before)
        (le_of_digits_before here bad before')
    rw [same] at here ⊢
    rw [Option.some.inj (here.symm.trans here')]
  all_goals first | rfl | omega

/-! Digits that come in pairs spell a byte string, and a character that is no
digit stops the reading. -/

theorem exists_byte {h l : Nat} (high : h < 16) (low : l < 16) :
    ∃ byte : UInt8, byte.toNat / 16 = h ∧ byte.toNat % 16 = l := by
  have value : (UInt8.ofNat (16 * h + l)).toNat = 16 * h + l :=
    UInt8.toNat_ofNat_of_lt' (show 16 * h + l < 256 by omega)
  exact ⟨UInt8.ofNat (16 * h + l), by omega, by omega⟩

theorem exists_spelled {cs : List Char} (digits : ∀ c ∈ cs, IsDigit c)
    (even : cs.length % 2 = 0) : ∃ bytes, cs.map Char.toLower = encode bytes := by
  induction cs using List.twoStepInduction with
  | nil => exact ⟨[], rfl⟩
  | singleton c => cases even
  | cons_cons c d cs ih _ =>
      simp only [List.forall_mem_cons] at digits
      obtain ⟨h, high, spelledHigh⟩ := isDigit_iff.mp digits.1
      obtain ⟨l, low, spelledLow⟩ := isDigit_iff.mp digits.2.1
      obtain ⟨byte, rfl, rfl⟩ := exists_byte high low
      obtain ⟨bytes, spelled⟩ := ih digits.2.2 (by simp at even; omega)
      refine ⟨byte :: bytes, ?_⟩
      rw [List.map_cons, List.map_cons, encode_cons, spelledHigh, spelledLow, spelled]

section

variable (position : Nat) {c : Char} {byte : UInt8} {rest : Bytes}

theorem digitAt_bad (bad : ¬IsDigit c) (lead : String.utf8EncodeChar c = byte :: rest) :
    digitAt position c = .error (.invalidCharacter byte position) := by
  rw [← isSome_digitValue?, Option.not_isSome_iff_eq_none] at bad
  rw [digitAt, bad, lead]
  rfl

theorem decodeFrom_bad (done : Bytes) {before after : List Char}
    (digits : ∀ d ∈ before, IsDigit d) (bad : ¬IsDigit c)
    (lead : String.utf8EncodeChar c = byte :: rest) :
    decodeFrom position done (before ++ c :: after) =
      .error (.invalidCharacter byte (position + before.length)) := by
  -- the character stands for the high half of a byte or for the low half
  rcases Nat.mod_two_eq_zero_or_one before.length with even | odd
  · obtain ⟨bytes, spelled⟩ := exists_spelled digits even
    rw [decodeFrom_append spelled]
    cases after with
    | nil => simp [decodeFrom, digitAt_bad _ bad lead, Except.bind]
    | cons d after => simp [decodeFrom, digitAt_bad _ bad lead]
  · obtain rfl | ⟨whole, high, rfl⟩ := List.eq_nil_or_concat before
    · cases odd
    · simp only [List.concat_eq_append, List.forall_mem_append, List.length_append] at *
      obtain ⟨bytes, spelled⟩ := exists_spelled digits.1 (by simp at odd; omega)
      obtain ⟨h, small, spelledHigh⟩ := isDigit_iff.mp (digits.2 high (by simp))
      rw [List.append_assoc, decodeFrom_append spelled]
      simp [decodeFrom, digitAt_of_toLower _ small spelledHigh, digitAt_bad _ bad lead,
        Nat.add_assoc]

end

/-! The bytes of a text, of which every character that is no digit begins with one
that is no digit either. -/

theorem ofUInt8_ofNat_toNat {c : Char} (ascii : c.toNat < 128) :
    Char.ofUInt8 (UInt8.ofNat c.toNat) = c := by
  apply Char.toNat_inj.mp
  exact UInt8.toNat_ofNat_of_lt' (Nat.lt_of_lt_of_le ascii (by decide))

theorem utf8EncodeChar_ascii {c : Char} (ascii : c.toNat < 128) :
    String.utf8EncodeChar c = [UInt8.ofNat c.toNat] := if_pos (Nat.le_of_lt_succ ascii)

theorem exists_lead {c : Char} (bad : ¬IsDigit c) :
    ∃ byte rest, String.utf8EncodeChar c = byte :: rest ∧
      ¬IsDigit (Char.ofUInt8 byte) := by
  by_cases ascii : c.toNat < 128
  · exact ⟨_, [], utf8EncodeChar_ascii ascii, (ofUInt8_ofNat_toNat ascii).symm ▸ bad⟩
  · -- a longer character has no byte below 128
    have lead (byte : UInt8) (large : 128 ≤ byte.toNat) : ¬IsDigit (Char.ofUInt8 byte) :=
      fun h => absurd (toNat_lt_of_isDigit h) (Nat.not_lt.mpr large)
    have large : ¬c.val.toNat ≤ 127 := fun le => ascii (Nat.lt_succ_of_le le)
    rw [String.utf8EncodeChar, if_neg large]
    split_ifs
    · exact ⟨_, _, rfl, lead _ (by simp; omega)⟩
    · exact ⟨_, _, rfl, lead _ (by simp; omega)⟩
    · exact ⟨_, _, rfl, lead _ (by simp; omega)⟩

theorem length_utf8 (cs : List Char) : (utf8 cs).length = utf8Length cs := by
  simp [utf8, utf8Length, List.length_flatMap]

theorem utf8_of_digits {cs : List Char} (digits : ∀ c ∈ cs, IsDigit c) :
    utf8 cs = cs.map fun c => UInt8.ofNat c.toNat := by
  rw [List.map_eq_flatMap]
  apply List.flatMap_congr
  exact fun c member => utf8EncodeChar_ascii (toNat_lt_of_isDigit (digits c member))

theorem isDigit_of_mem_utf8 {cs : List Char} (digits : ∀ c ∈ cs, IsDigit c) :
    ∀ byte ∈ utf8 cs, IsDigit (Char.ofUInt8 byte) := by
  rw [utf8_of_digits digits, List.forall_mem_map]
  intro c member
  rw [ofUInt8_ofNat_toNat (toNat_lt_of_isDigit (digits c member))]
  exact digits c member

theorem exists_first_bad {cs : List Char} (some_bad : ¬∀ c ∈ cs, IsDigit c) :
    ∃ before c after, cs = before ++ c :: after ∧ (∀ d ∈ before, IsDigit d) ∧
      ¬IsDigit c := by
  have found : (cs.find? fun c => decide (¬IsDigit c)).isSome = true := by
    simpa using some_bad
  obtain ⟨c, first⟩ := Option.isSome_iff_exists.mp found
  obtain ⟨bad, before, after, split, digits⟩ := List.find?_eq_some_iff_append.mp first
  exact ⟨before, c, after, split, by simpa using digits, by simpa using bad⟩

/-! What 64 digits are read as. -/

theorem not_fault_of_spelled {block : Bytes32} {cs : List Char}
    (spelled : cs.map Char.toLower = encode block.toList) (e : Error) :
    ¬Fault (utf8 cs) e := by
  have length : (utf8 cs).length = 64 := by
    rw [length_utf8, utf8Length_spelled spelled, block.length_toList]
  cases e with
  | oddLength => simp [Fault, length]
  | wrongLength => simp [Fault, length]
  | invalidCharacter byte position =>
      rintro ⟨-, here, bad, -⟩
      exact bad (isDigit_of_mem_utf8 (isDigit_of_spelled spelled) byte
        (List.mem_of_getElem? here))

theorem exists_fault_of_bad {before after : List Char} {c : Char}
    (length : utf8Length (before ++ c :: after) = 64) (digits : ∀ d ∈ before, IsDigit d)
    (bad : ¬IsDigit c) :
    ∃ e, Fault (utf8 (before ++ c :: after)) e ∧
      decode32 (before ++ c :: after) = .error e := by
  obtain ⟨byte, rest, lead, badByte⟩ := exists_lead bad
  have position : (utf8 before).length = before.length := by
    rw [length_utf8, utf8Length_of_digits digits]
  have bytes : utf8 (before ++ c :: after) =
      utf8 before ++ byte :: (rest ++ utf8 after) := by
    rw [utf8, List.flatMap_append, List.flatMap_cons, lead]
    rfl
  refine ⟨.invalidCharacter byte before.length,
    ⟨by rw [length_utf8, length], ?_, badByte, ?_⟩, ?_⟩
  · rw [bytes, ← position, List.getElem?_append_right (Nat.le_refl _), Nat.sub_self]
    rfl
  · rw [bytes, ← position, List.take_left]
    exact isDigit_of_mem_utf8 digits
  · rw [decode32, length, if_neg (by decide), if_neg (by decide), decode, length,
      if_neg (by decide), decodeFrom_bad 0 [] digits bad lead, Nat.zero_add]
    rfl

theorem exists_spelled_iff {cs : List Char} :
    (∃ block : Bytes32, cs.map Char.toLower = encode block.toList) ↔
      cs.length = 64 ∧ ∀ c ∈ cs, IsDigit c := by
  constructor
  · rintro ⟨block, spelled⟩
    have digits := isDigit_of_spelled spelled
    have length := utf8Length_spelled spelled
    rw [utf8Length_of_digits digits, block.length_toList] at length
    exact ⟨length, digits⟩
  · rintro ⟨length, digits⟩
    obtain ⟨bytes, spelled⟩ := exists_spelled digits (by omega)
    have count := utf8Length_spelled spelled
    rw [utf8Length_of_digits digits] at count
    exact ⟨⟨bytes, by omega⟩, spelled⟩

theorem decode32_eq (cs : List Char) :
    (∃ block : Bytes32,
        cs.map Char.toLower = encode block.toList ∧ decode32 cs = .ok block) ∨
      ∃ e, Fault (utf8 cs) e ∧ decode32 cs = .error e := by
  by_cases odd : utf8Length cs % 2 = 1
  · exact .inr ⟨.oddLength, by rwa [Fault, length_utf8], if_pos odd⟩
  by_cases wrong : utf8Length cs ≠ 64
  · refine .inr ⟨.wrongLength, ?_, by rw [decode32, if_neg odd, if_pos wrong]⟩
    rw [Fault, length_utf8]
    exact ⟨by omega, wrong⟩
  rw [not_not] at wrong
  by_cases digits : ∀ c ∈ cs, IsDigit c
  · rw [utf8Length_of_digits digits] at wrong
    obtain ⟨block, spelled⟩ := exists_spelled_iff.mpr ⟨wrong, digits⟩
    exact .inl ⟨block, spelled, decode32_spelled spelled⟩
  · obtain ⟨before, c, after, rfl, good, bad⟩ := exists_first_bad digits
    exact .inr (exists_fault_of_bad wrong good bad)

theorem decode32_eq_ok_iff {cs : List Char} {block : Bytes32} :
    decode32 cs = .ok block ↔ cs.map Char.toLower = encode block.toList := by
  refine ⟨fun read => ?_, decode32_spelled⟩
  rcases decode32_eq cs with ⟨other, spelled, ok⟩ | ⟨e, -, failed⟩
  · rwa [Except.ok.inj (read.symm.trans ok)]
  · cases read.symm.trans failed

theorem decode32_eq_error_iff {cs : List Char} {e : Error} :
    decode32 cs = .error e ↔ Fault (utf8 cs) e := by
  rcases decode32_eq cs with ⟨block, spelled, ok⟩ | ⟨e', fault, failed⟩
  · rw [ok]
    constructor
    · intro h
      cases h
    · exact fun fault => absurd fault (not_fault_of_spelled spelled e)
  · rw [failed]
    constructor
    · intro same
      rwa [← Except.error.inj same]
    · exact fun fault' => congrArg Except.error (fault.unique fault')

/-! Order. -/

theorem digit_inj {m n : Nat} (hm : m < 16) (hn : n < 16) : digit m = digit n ↔ m = n := by
  constructor
  · intro same
    have value := digitValue?_digit hm
    rw [same, digitValue?_digit hn] at value
    exact (Option.some.inj value).symm
  · exact congrArg digit

theorem digit_lt_digit_iff {m n : Nat} (hm : m < 16) (hn : n < 16) :
    digit m < digit n ↔ m < n := by
  have table : ∀ m < 16, ∀ n < 16, digit m < digit n ↔ m < n := by decide
  exact table m hm n hn

theorem compare_eq_lt_iff {a b : Bytes} : compare a b = .lt ↔ encode a < encode b := by
  induction a generalizing b with
  | nil =>
      cases b with
      | nil => exact iff_of_false (by decide) (List.lt_irrefl _)
      | cons y ys => exact iff_of_true rfl (List.nil_lt_cons _ _)
  | cons x xs ih =>
      cases b with
      | nil => exact iff_of_false (by simp) (List.not_lt_nil _)
      | cons y ys =>
          have first : compare x y = .lt ↔ x.toNat / 16 < y.toNat / 16 ∨
              x.toNat / 16 = y.toNat / 16 ∧ x.toNat % 16 < y.toNat % 16 := by
            rw [Std.compare_eq_lt, UInt8.lt_iff_toNat_lt]
            omega
          have same :
              x = y ↔ x.toNat / 16 = y.toNat / 16 ∧ x.toNat % 16 = y.toNat % 16 := by
            rw [← UInt8.toNat_inj]
            omega
          rw [List.compare_cons_cons, Ordering.then_eq_lt,
            Std.LawfulEqOrd.compare_eq_iff_eq, ih, first, same, encode_cons, encode_cons,
            List.cons_lt_cons_iff, List.cons_lt_cons_iff,
            digit_lt_digit_iff (high_lt x) (high_lt y),
            digit_lt_digit_iff (low_lt x) (low_lt y), digit_inj (high_lt x) (high_lt y),
            digit_inj (low_lt x) (low_lt y)]
          tauto

end MerkleProof.Hex

namespace MerkleProof.Digest

def unmarked (s : String) : String :=
  if ['0', 'x'] <+: s.toList then String.ofList (s.toList.drop 2) else s

theorem dropMarker_toList (s : String) :
    Hex.dropMarker s.toList = (unmarked s).toList := by
  unfold Hex.dropMarker unmarked
  split
  · rename_i digits marked
    rw [marked, if_pos ⟨digits, rfl⟩, String.toList_ofList]
    rfl
  · rename_i unmatched
    rw [if_neg]
    rintro ⟨digits, marked⟩
    exact unmatched digits marked.symm

theorem parse_eq (s : String) : parse s = Hex.decode32 (unmarked s).toList :=
  congrArg Hex.decode32 (dropMarker_toList s)

theorem spelled_iff {s : String} {d : Digest} :
    s.toList.map Char.toLower = Hex.encode d.toList ↔ s.toLower = d.text := by
  have lowered : s.toLower.toList = s.toList.map Char.toLower := String.toList_map
  rw [← String.toList_inj, lowered, text, Hex.toList_text]

theorem parse_eq_ok_iff {s : String} {d : Digest} :
    parse s = .ok d ↔ (unmarked s).toLower = d.text := by
  rw [parse_eq, Hex.decode32_eq_ok_iff, spelled_iff]

theorem exists_parse_iff {s : String} :
    (∃ d, parse s = .ok d) ↔
      (unmarked s).length = 64 ∧ ∀ c ∈ (unmarked s).toList, Hex.IsDigit c := by
  rw [parse_eq, ← String.length_toList, ← Hex.exists_spelled_iff]
  exact exists_congr fun _ => Hex.decode32_eq_ok_iff

theorem parse_eq_error_iff {s : String} {e : Hex.Error} :
    parse s = .error e ↔ Hex.Fault (Text.utf8 (unmarked s)) e := by
  rw [parse_eq, Hex.decode32_eq_error_iff, Text.utf8_eq]
  rfl

theorem unmarked_append (s : String) : unmarked ("0x" ++ s) = s := by
  rw [unmarked, String.toList_append, if_pos ⟨s.toList, rfl⟩]
  exact String.ofList_toList

theorem unmarked_of_digits {s : String} (digits : ∀ c ∈ s.toList, Hex.IsDigit c) :
    unmarked s = s := by
  rw [← String.toList_inj, ← dropMarker_toList, Hex.dropMarker_of_digits digits]

theorem parse_spelled {s : String} {d : Digest} (spelled : s.toLower = d.text) :
    parse s = .ok d ∧ parse ("0x" ++ s) = .ok d := by
  have digits := Hex.isDigit_of_spelled (spelled_iff.mpr spelled)
  rw [parse_eq_ok_iff, parse_eq_ok_iff, unmarked_append, unmarked_of_digits digits]
  exact ⟨spelled, spelled⟩

/-- A text is read if and only if it is 64 digits of either case behind at most
one marker, as the digest that is written so in lower case; each of the forms of
a digest is read back. -/
theorem text_read_back :
    (∀ s : String,
      ((∃ d, parse s = .ok d) ↔
        (unmarked s).length = 64 ∧ ∀ c ∈ (unmarked s).toList, Hex.IsDigit c) ∧
      (∀ e, parse s = .error e ↔ Hex.Fault (Text.utf8 (unmarked s)) e) ∧
      ∀ d, parse s = .ok d ↔ (unmarked s).toLower = d.text) ∧
    (∀ d : Digest,
      parse d.text = .ok d ∧ parse d.markedText = .ok d ∧
      parse d.text.toUpper = .ok d ∧ parse ("0x" ++ d.text.toUpper) = .ok d ∧
      (Json.ofText? (Json.ofText d.text).render).map (Json.readText parse)
        = some (.ok d)) ∧
    ∀ d e : Digest, compare d e = .lt ↔ d.text < e.text := by
  refine ⟨fun s => ⟨exists_parse_iff, fun _ => parse_eq_error_iff,
    fun _ => parse_eq_ok_iff⟩, ?_, ?_⟩
  · intro d
    have lower : d.text.toLower = d.text := by
      rw [← spelled_iff, text, Hex.toList_text, Hex.toLower_encode]
    have upper : d.text.toUpper.toLower = d.text := by
      have raised : d.text.toUpper.toList = (Hex.encode d.toList).map Char.toUpper := by
        rw [← Hex.toList_text]
        exact String.toList_map
      rw [← spelled_iff, raised, List.map_map]
      exact Hex.map_encode _ (by decide)
    obtain ⟨plain, marked⟩ := parse_spelled lower
    obtain ⟨plain_upper, marked_upper⟩ := parse_spelled upper
    refine ⟨plain, marked, plain_upper, marked_upper, ?_⟩
    rw [Json.ofText?_render (Json.written_ofText _), Option.map_some,
      Json.readText, Json.ofText]
    simp only [Json.text?, plain]
  · intro d e
    rw [Bytes32.compare_eq, Hex.compare_eq_lt_iff, String.lt_iff, text, text,
      Hex.toList_text, Hex.toList_text]

end MerkleProof.Digest
