import MerkleProof.Digest

/-! What is written in hexadecimal is read back, in whichever case its digits are spelled
and whether the marker is looked for or not. -/

namespace MerkleProof.Hex

def IsDigit (c : Char) : Prop :=
  ('0' ≤ c ∧ c ≤ '9') ∨ ('a' ≤ c ∧ c ≤ 'f') ∨ ('A' ≤ c ∧ c ≤ 'F')

instance : DecidablePred IsDigit := fun c =>
  inferInstanceAs
    (Decidable (('0' ≤ c ∧ c ≤ '9') ∨ ('a' ≤ c ∧ c ≤ 'f') ∨ ('A' ≤ c ∧ c ≤ 'F')))

theorem isSome_digitValue? {c : Char} : (digitValue? c).isSome = true ↔ IsDigit c := by
  unfold digitValue? IsDigit
  split
  · exact iff_of_true rfl (.inl ‹_›)
  split
  · exact iff_of_true rfl (.inr (.inl ‹_›))
  split
  · exact iff_of_true rfl (.inr (.inr ‹_›))
  · refine iff_of_false (by simp) ?_
    rintro (decimal | lower | upper) <;> contradiction

theorem toNat_lt_of_isDigit {c : Char} (h : IsDigit c) : c.toNat < 128 := by
  rcases h with ⟨-, le⟩ | ⟨-, le⟩ | ⟨-, le⟩
  · exact Nat.lt_of_le_of_lt (show c.toNat ≤ 57 from le) (by decide)
  · exact Nat.lt_of_le_of_lt (show c.toNat ≤ 102 from le) (by decide)
  · exact Nat.lt_of_le_of_lt (show c.toNat ≤ 70 from le) (by decide)

theorem forall_ascii {P : Char → Prop} (table : ∀ n < 128, P (Char.ofNat n)) {c : Char}
    (ascii : c.toNat < 128) : P c := by
  rw [← Char.ofNat_toNat c]
  exact table _ ascii

theorem digitValue?_toLower (c : Char) : digitValue? c.toLower = digitValue? c := by
  by_cases upper : 'A'.val ≤ c.val ∧ c.val ≤ 'Z'.val
  · have ascii : c.toNat < 128 := Nat.lt_of_le_of_lt upper.2 (by decide)
    exact
      forall_ascii (P := fun c => digitValue? c.toLower = digitValue? c) (by decide) ascii
  · have kept : c.toLower = c := dif_neg upper
    rw [kept]

theorem digitValue?_eq_some_iff {c : Char} {n : Nat} :
    digitValue? c = some n ↔ n < 16 ∧ c.toLower = digit n := by
  constructor
  · intro value
    have ascii := toNat_lt_of_isDigit
      (isSome_digitValue?.mp (Option.isSome_of_eq_some value))
    exact forall_ascii (P := fun c => ∀ n ∈ digitValue? c, n < 16 ∧ c.toLower = digit n)
      (by decide) ascii n value
  · rintro ⟨small, lower⟩
    rw [← digitValue?_toLower, lower, digitValue?_digit small]

theorem isDigit_iff {c : Char} : IsDigit c ↔ ∃ n, n < 16 ∧ c.toLower = digit n := by
  rw [← isSome_digitValue?, Option.isSome_iff_exists]
  exact exists_congr fun _ => digitValue?_eq_some_iff

theorem digitAt_of_toLower (position : Nat) {c : Char} {n : Nat} (small : n < 16)
    (lower : c.toLower = digit n) : digitAt position c = .ok n := by
  rw [digitAt, digitValue?_eq_some_iff.mpr ⟨small, lower⟩]

theorem utf8Length_of_digits {cs : List Char} (digits : ∀ c ∈ cs, IsDigit c) :
    utf8Length cs = cs.length := by
  have size (c : Char) (member : c ∈ cs) : c.utf8Size = 1 :=
    Char.utf8Size_eq_one_iff.mpr
      (Nat.le_of_lt_succ (toNat_lt_of_isDigit (digits c member)))
  rw [utf8Length, List.map_congr_left size, List.map_const', List.sum_replicate_nat,
    Nat.mul_one]

theorem dropMarker_of_digits {cs : List Char} (digits : ∀ c ∈ cs, IsDigit c) :
    dropMarker cs = cs := by
  unfold dropMarker
  split
  · exact absurd (digits 'x' (by simp)) (by decide)
  · rfl

/-! What is written. -/

section

variable (bytes : Bytes)

theorem high_lt (byte : UInt8) : byte.toNat / 16 < 16 := by
  have bound := byte.toNat_lt
  omega

theorem low_lt (byte : UInt8) : byte.toNat % 16 < 16 := Nat.mod_lt _ (by decide)

theorem encode_cons (byte : UInt8) :
    encode (byte :: bytes) =
      digit (byte.toNat / 16) :: digit (byte.toNat % 16) :: encode bytes :=
  rfl

@[simp] theorem toList_text : (text bytes).toList = encode bytes := String.toList_ofList

theorem length_encode : (encode bytes).length = 2 * bytes.length := by
  simp [encode, encodeByte, List.length_flatMap, List.map_const', Nat.mul_comm]

theorem exists_digit_of_mem_encode {c : Char} (member : c ∈ encode bytes) :
    ∃ n, n < 16 ∧ c = digit n := by
  obtain ⟨byte, -, half⟩ := List.mem_flatMap.mp member
  rw [encodeByte, List.mem_cons, List.mem_singleton] at half
  rcases half with rfl | rfl
  · exact ⟨_, high_lt byte, rfl⟩
  · exact ⟨_, low_lt byte, rfl⟩

theorem map_encode {f : Char → Char} (fixed : ∀ n < 16, f (digit n) = digit n) :
    (encode bytes).map f = encode bytes := by
  refine (List.map_congr_left ?_).trans (List.map_id _)
  intro c member
  obtain ⟨n, small, rfl⟩ := exists_digit_of_mem_encode bytes member
  exact fixed n small

theorem toLower_encode : (encode bytes).map Char.toLower = encode bytes :=
  map_encode bytes (by decide)

end

/-! Spellings: the digits of a byte string with each of them in either case. -/

section

variable {bytes : Bytes} {cs : List Char} (spelled : cs.map Char.toLower = encode bytes)
include spelled

theorem isDigit_of_spelled : ∀ c ∈ cs, IsDigit c := by
  intro c member
  have lowered : c.toLower ∈ encode bytes := spelled ▸ List.mem_map_of_mem member
  exact isDigit_iff.mpr (exists_digit_of_mem_encode bytes lowered)

theorem utf8Length_spelled : utf8Length cs = 2 * bytes.length := by
  rw [utf8Length_of_digits (isDigit_of_spelled spelled), ← length_encode, ← spelled,
    List.length_map]

theorem decodeFrom_append (position : Nat) (done : Bytes) (rest : List Char) :
    decodeFrom position done (cs ++ rest) =
      decodeFrom (position + cs.length) (bytes.reverse ++ done) rest := by
  induction bytes generalizing cs position done with
  | nil =>
      cases List.map_eq_nil_iff.mp spelled
      rfl
  | cons byte bytes ih =>
      have halves : 16 * (byte.toNat / 16) + byte.toNat % 16 = byte.toNat :=
        Nat.div_add_mod _ _
      rw [encode_cons] at spelled
      obtain ⟨high, tail, rfl, spelledHigh, spelledTail⟩ := List.map_eq_cons_iff.mp spelled
      obtain ⟨low, digits, rfl, spelledLow, spelledDigits⟩ :=
        List.map_eq_cons_iff.mp spelledTail
      rw [List.cons_append, List.cons_append, decodeFrom,
        digitAt_of_toLower _ (high_lt byte) spelledHigh,
        digitAt_of_toLower _ (low_lt byte) spelledLow]
      dsimp only
      rw [ih spelledDigits, halves, UInt8.ofNat_toNat, List.reverse_cons,
        List.append_assoc, List.singleton_append, List.length_cons, List.length_cons,
        Nat.add_assoc, Nat.add_comm 2]

theorem decode_spelled : decode cs = .ok bytes := by
  rw [decode, utf8Length_spelled spelled, if_neg (by omega)]
  have read := decodeFrom_append spelled 0 [] []
  rwa [List.append_nil, List.append_nil, decodeFrom, List.reverse_reverse] at read

end

theorem decode32_spelled {block : Bytes32} {cs : List Char}
    (spelled : cs.map Char.toLower = encode block.toList) : decode32 cs = .ok block := by
  rw [decode32, utf8Length_spelled spelled, block.length_toList, if_neg (by decide),
    if_neg (by decide), decode_spelled spelled]
  simp only [Except.bind, Bytes32.ofList?_toList]

theorem decode_encode (bytes : Bytes) : decode (encode bytes) = .ok bytes :=
  decode_spelled (toLower_encode bytes)

theorem decode32_encode (block : Bytes32) : decode32 (encode block.toList) = .ok block :=
  decode32_spelled (toLower_encode block.toList)

theorem parse32_text (block : Bytes32) : parse32 (text block.toList) = .ok block := by
  rw [parse32, toList_text,
    dropMarker_of_digits (isDigit_of_spelled (toLower_encode block.toList)),
    decode32_encode]

end MerkleProof.Hex

namespace MerkleProof.Digest

theorem parse_text (d : Digest) : parse d.text = .ok d := Hex.parse32_text d

end MerkleProof.Digest
