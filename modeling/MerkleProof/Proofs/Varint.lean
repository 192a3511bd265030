import MerkleProof.Varint

/-! Numbers in groups of seven bits.  What is written for a number is the shortest of
its spellings, it ends where its last group says, and for a word it fits into the buffer
that it is written to. -/

namespace MerkleProof.Varint

/-! Spellings. -/

/-- The bytes are groups of seven bits of the number, the least significant first, with the
high bit set on all of them but the last. -/
inductive Spells : Bytes → Nat → Prop
  | last {b : UInt8} (ends : b < 128) : Spells [b] b.toNat
  | more {b : UInt8} {later : Bytes} {n : Nat} (goes_on : 128 ≤ b)
      (spells : Spells later n) : Spells (b :: later) (b.toNat % 128 + 128 * n)

theorem toNat_last {n : Nat} (small : n < 128) : (UInt8.ofNat n).toNat = n :=
  Nat.mod_eq_of_lt (by omega)

theorem toNat_more (n : Nat) : (UInt8.ofNat (n % 128 + 128)).toNat = n % 128 + 128 :=
  Nat.mod_eq_of_lt (by omega)

theorem spells_groups (n : Nat) : Spells (groups n) n := by
  fun_induction groups n with
  | case1 n small =>
      have ends : UInt8.ofNat n < 128 := by
        rw [UInt8.lt_iff_toNat_lt, toNat_last small]
        exact small
      have spells := Spells.last ends
      rwa [toNat_last small] at spells
  | case2 n big ih =>
      have goes_on : 128 ≤ UInt8.ofNat (n % 128 + 128) := by
        rw [UInt8.le_iff_toNat_le, toNat_more]
        exact Nat.le_add_left _ _
      have spells := Spells.more goes_on ih
      rwa [toNat_more, Nat.add_mod_right, Nat.mod_mod, Nat.mod_add_div] at spells

theorem groups_of_lt {n : Nat} (small : n < 128) : groups n = [UInt8.ofNat n] := by
  rw [groups, if_pos small]

theorem groups_of_le {n : Nat} (big : 128 ≤ n) :
    groups n = UInt8.ofNat (n % 128 + 128) :: groups (n / 128) := by
  rw [groups, if_neg (Nat.not_lt.mpr big)]

/-- Every other spelling has groups of zeros at the end. -/
theorem eq_groups_or_longer {bytes : Bytes} {n : Nat} (spells : Spells bytes n) :
    bytes = groups n ∨ (groups n).length < bytes.length := by
  induction spells with
  | @last b ends =>
      left
      rw [groups_of_lt (UInt8.lt_iff_toNat_lt.mp ends), UInt8.ofNat_toNat]
  | @more b later n goes_on spells ih =>
      have high : 128 ≤ b.toNat := UInt8.le_iff_toNat_le.mp goes_on
      have bound := b.toNat_lt
      by_cases small : b.toNat % 128 + 128 * n < 128
      · right
        have some_later : 0 < later.length := by cases spells <;> exact Nat.zero_lt_succ _
        rw [groups_of_lt small, List.length_cons]
        exact Nat.succ_lt_succ some_later
      · have front : UInt8.ofNat ((b.toNat % 128 + 128 * n) % 128 + 128) = b := by
          rw [← UInt8.toNat_inj, toNat_more]
          omega
        have back : (b.toNat % 128 + 128 * n) / 128 = n := by omega
        rw [groups_of_le (Nat.not_lt.mp small), front, back, List.length_cons,
          List.length_cons]
        exact ih.imp (congrArg (b :: ·)) Nat.succ_lt_succ

/-! Lengths. -/

theorem length_groups_pos (n : Nat) : 0 < (groups n).length := by
  unfold groups
  split <;> exact Nat.zero_lt_succ _

theorem length_groups_le_iff {n k : Nat} :
    (groups n).length ≤ k + 1 ↔ n < 128 ^ (k + 1) := by
  induction k generalizing n with
  | zero =>
      by_cases small : n < 128
      · simp [groups_of_lt small, small]
      · have more := length_groups_pos (n / 128)
        rw [groups_of_le (Nat.not_lt.mp small), List.length_cons]
        omega
  | succ k ih =>
      by_cases small : n < 128
      · have power : 128 ^ 1 ≤ 128 ^ (k + 1 + 1) :=
          Nat.pow_le_pow_right (by decide) (by omega)
        rw [groups_of_lt small, List.length_singleton]
        omega
      · rw [groups_of_le (Nat.not_lt.mp small), List.length_cons, Nat.succ_le_succ_iff, ih,
          Nat.div_lt_iff_lt_mul (by decide), ← Nat.pow_succ]

theorem length_encode_pos (v : UInt64) : 0 < (encode v).length :=
  length_groups_pos v.toNat

theorem length_encode_le {v : UInt64} (small : v.toNat ≤ 256) : (encode v).length ≤ 2 :=
  length_groups_le_iff.mpr (by omega)

theorem length_encode_le_maxSize (v : UInt64) : (encode v).length ≤ maxSize :=
  length_groups_le_iff.mpr (Nat.lt_of_lt_of_le v.toNat_lt (by decide))

/-! Appending. -/

theorem set_next (front room : Bytes) (b c : UInt8) :
    (front ++ b :: room).set front.length c = front ++ [c] ++ room := by
  simp [List.set_append_right]

/-- What is put into a buffer that is long enough stands behind what stood there before. -/
theorem put_eq {n : Nat} (front : Bytes) {room : Bytes}
    (fits : (groups n).length ≤ room.length) :
    put (front ++ room) front.length n =
      (front ++ groups n ++ room.drop (groups n).length,
        front.length + (groups n).length) := by
  fun_induction groups n generalizing front room with
  | case1 n small =>
      obtain ⟨b, room, rfl⟩ := List.exists_cons_of_length_pos fits
      rw [put, if_pos small, set_next]
      rfl
  | case2 n big ih =>
      obtain ⟨b, room, rfl⟩ :=
        List.exists_cons_of_length_pos (Nat.lt_of_lt_of_le (Nat.zero_lt_succ _) fits)
      have later :=
        ih (front ++ [UInt8.ofNat (n % 128 + 128)]) (Nat.le_of_succ_le_succ fits)
      rw [List.length_append, List.length_singleton] at later
      rw [put, if_neg big, set_next, later, List.length_cons, List.drop_succ_cons,
        List.append_assoc front, List.singleton_append, Nat.add_assoc, Nat.add_comm 1]

theorem put_blank (v : UInt64) :
    put (List.replicate maxSize 0) 0 v.toNat =
      (encode v ++ List.replicate (maxSize - (encode v).length) 0, (encode v).length) := by
  have fits : (groups v.toNat).length ≤ (List.replicate maxSize (0 : UInt8)).length := by
    rw [List.length_replicate]
    exact length_encode_le_maxSize v
  have filled := put_eq [] fits
  simpa [encode] using filled

theorem append_eq (bytes : Bytes) (v : UInt64) : append bytes v = bytes ++ encode v := by
  simp [append, put_blank]

theorem foldl_append (bytes : Bytes) (values : List UInt64) :
    values.foldl append bytes = bytes ++ values.flatMap encode := by
  induction values generalizing bytes with
  | nil => simp
  | cons v values ih =>
      rw [List.foldl_cons, ih, append_eq, List.flatMap_cons, List.append_assoc]

theorem encode_append_inj {v w : UInt64} {s t : Bytes}
    (same : encode v ++ s = encode w ++ t) : v.toNat = w.toNat ∧ s = t := by
  have read := congrArg decode same
  rw [decode_encode, decode_encode] at read
  exact Prod.mk.inj (Option.some.inj read)

theorem flatMap_encode_inj {values others : List UInt64}
    (same : values.flatMap encode = others.flatMap encode) : values = others := by
  have some_bytes : ∀ (v : UInt64) (rest : Bytes), encode v ++ rest ≠ [] := by
    intro v rest
    have pos := length_encode_pos v
    exact List.append_ne_nil_of_left_ne_nil (List.ne_nil_of_length_pos pos) rest
  induction values generalizing others with
  | nil =>
      cases others with
      | nil => rfl
      | cons w others => exact absurd same.symm (some_bytes w _)
  | cons v values ih =>
      cases others with
      | nil => exact absurd same (some_bytes v _)
      | cons w others =>
          obtain ⟨first, rest⟩ := encode_append_inj same
          rw [UInt64.toNat_inj.mp first, ih rest]

/-- A word is appended in its shortest spelling.  This takes at least one byte, and no
more than the buffer has that it is first put into, so nothing is lost there; and it is
read back from the front of whatever follows.  Words that are appended one after another
can be told from the bytes. -/
theorem appended_words_told_apart :
    (∀ (bytes : Bytes) (v : UInt64), append bytes v = bytes ++ encode v ∧
      Spells (encode v) v.toNat ∧
      (∀ other, Spells other v.toNat →
        other = encode v ∨ (encode v).length < other.length) ∧
      1 ≤ (encode v).length ∧ (encode v).length ≤ maxSize ∧
      put (List.replicate maxSize 0) 0 v.toNat =
        (encode v ++ List.replicate (maxSize - (encode v).length) 0, (encode v).length) ∧
      ∀ rest, decode (encode v ++ rest) = some (v.toNat, rest)) ∧
    ∀ (bytes : Bytes) (values others : List UInt64),
      values.foldl append bytes = others.foldl append bytes → values = others := by
  constructor
  · intro bytes v
    exact ⟨append_eq bytes v, spells_groups v.toNat, fun _ => eq_groups_or_longer,
      length_encode_pos v, length_encode_le_maxSize v, put_blank v, decode_encode v⟩
  · intro bytes values others same
    rw [foldl_append, foldl_append, List.append_cancel_left_eq] at same
    exact flatMap_encode_inj same

theorem appended_words_told_apart_overlong :
    Spells [172, 130, 0] (300 : UInt64).toNat ∧
      ([172, 130, 0] = encode 300 ∨ (encode 300).length < [172, 130, 0].length) ∧
      [300, 18446744073709551615].foldl append [7] = [44 + 256, 0 - 1].foldl append [7] ∧
      ([300, 18446744073709551615] : List UInt64) = [44 + 256, 0 - 1] := by
  have overlong : Spells [172, 130, 0] (300 : UInt64).toNat :=
    .more (by decide) (.more (by decide) (.last (by decide)))
  have same : ([300, 18446744073709551615] : List UInt64).foldl append [7] =
      [44 + 256, 0 - 1].foldl append [7] := by decide +kernel
  obtain ⟨each, several⟩ := appended_words_told_apart
  obtain ⟨-, -, shortest, -⟩ := each [] 300
  exact ⟨overlong, shortest _ overlong, same, several _ _ _ same⟩

end MerkleProof.Varint
