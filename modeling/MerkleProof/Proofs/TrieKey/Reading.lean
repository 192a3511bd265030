import MerkleProof.Proofs.TrieKey.Lexicographic

/-! Keys read from their written forms.  A bit string is read as the only canonical key
that is written so, and the 34 bytes of a raw form keep all of a key; each error tells what
is wrong with the text or the bytes. -/

namespace MerkleProof.TrieKey

theorem eq_of_slice {a b : TrieKey} (sizes : a.size = b.size)
    (slices : a.slice = b.slice) : a = b := by
  cases a with
  | leaf s =>
      cases b with
      | leaf t => exact congrArg leaf slices
      | branch t n => exact absurd sizes (Nat.ne_of_gt n.isLt)
  | branch s m =>
      cases b with
      | leaf t => exact absurd sizes (Nat.ne_of_lt m.isLt)
      | branch t n => rw [Fin.ext sizes, show s = t from slices]

/-! Bit strings. -/

theorem toBits_ofBits {bits : List Bool} (short : bits.length ≤ 256) :
    (ofBits bits).toBits = bits := by
  have size : (ofBits bits).size = bits.length := by
    rw [size_ofBits, Nat.min_eq_left short]
  apply List.ext_getElem
  · rw [length_toBits, size]
  · intro i inside inside'
    have bit := bit_ofBits bits (Nat.lt_of_lt_of_le inside' short)
    rw [List.getD_eq_getElem?_getD, List.getElem?_eq_getElem inside',
      Option.getD_some] at bit
    simpa [toBits] using bit

theorem slice_ofBits_toBits (k : TrieKey) : (ofBits k.toBits).slice = k.masked := by
  apply Bytes32.ext_bit
  intro i inside
  rw [slice_ofBits, Bytes32.bit_ofBits _ inside, masked, Bytes32.bit_mask,
    List.getD_eq_getElem?_getD]
  by_cases significant : i < k.size
  · rw [getElem?_toBits k significant, decide_eq_true significant, Bool.true_and]
    rfl
  · rw [List.getElem?_eq_none (by simpa using significant), decide_eq_false significant,
      Bool.false_and]
    rfl

theorem ofBits_toBits {k : TrieKey} (canonical : k.isCanonical = true) :
    ofBits k.toBits = k := by
  rw [isCanonical, decide_eq_true_iff] at canonical
  exact eq_of_slice (sameBits_ofBits_toBits k).1 ((slice_ofBits_toBits k).trans canonical)

theorem beq_ofBits_toBits (k : TrieKey) : (ofBits k.toBits == k) = true :=
  beq_iff.mpr (eq_iff.mpr (sameBits_ofBits_toBits k))

/-- A text of at most 256 digits `0` and `1`. -/
structure IsBitString (text : String) : Prop where
  length_le : text.length ≤ 256
  digits : ∀ c ∈ text.toList, c = '0' ∨ c = '1'

/-- The key that a bit string stands for: it has its bits, and no others are set. -/
structure IsReadAs (text : String) (k : TrieKey) : Prop where
  canonical : k.isCanonical = true
  size : k.size = text.length
  leaf_iff : k.isLeaf = true ↔ text.length = 256
  digit_eq : ∀ i, i < text.length → text.toList[i]? = some (digit (k.bit i))
  bitString : k.bitString = text

theorem exists_bits {text : String} (digits : ∀ c ∈ text.toList, c = '0' ∨ c = '1') :
    ∃ bits : List Bool, String.ofList (bits.map digit) = text := by
  refine ⟨text.toList.map (· == '1'), ?_⟩
  rw [List.map_map, ← String.toList_inj, String.toList_ofList]
  refine (List.map_congr_left ?_).trans (List.map_id _)
  intro c member
  rcases digits c member with rfl | rfl <;> rfl

theorem isBitString_digits {bits : List Bool} (short : bits.length ≤ 256) :
    IsBitString (String.ofList (bits.map digit)) := by
  refine ⟨by simpa using short, ?_⟩
  rw [String.toList_ofList, List.forall_mem_map]
  intro b _
  cases b with
  | false => exact .inl rfl
  | true => exact .inr rfl

theorem isReadAs_ofBits {bits : List Bool} (short : bits.length ≤ 256) :
    IsReadAs (String.ofList (bits.map digit)) (ofBits bits) := by
  have size : (ofBits bits).size = (String.ofList (bits.map digit)).length := by
    rw [size_ofBits, Nat.min_eq_left short]
    simp
  refine ⟨isCanonical_ofBits bits, size, ?_, ?_, ?_⟩
  · rw [isLeaf_iff_size, size]
  · intro i inside
    rw [← size] at inside
    have listed := getElem?_toBits (ofBits bits) inside
    rw [toBits_ofBits short] at listed
    rw [String.toList_ofList, List.getElem?_map, listed, Option.map_some]
  · rw [bitString, toBits_ofBits short]
    rfl

/-- A text is read if and only if it is a bit string, as its bytes are no
fewer than its digits. -/
theorem ofBitString_eq (text : String) :
    (∃ bits : List Bool, bits.length ≤ 256 ∧ text = String.ofList (bits.map digit) ∧
      ofBitString text = .ok (ofBits bits)) ∨
    ¬IsBitString text ∧ ofBitString text = .error (.invalidBitString text) := by
  by_cases accepted :
      text.utf8ByteSize ≤ 256 ∧ text.toList.all (fun c => c == '0' || c == '1') = true
  · obtain ⟨few, digits⟩ := accepted
    left
    obtain ⟨bits, rfl⟩ := exists_bits (by simpa using digits)
    have short : bits.length ≤ 256 := utf8ByteSize_digits bits ▸ few
    exact ⟨bits, short, rfl, ofBitString_digits short⟩
  · right
    refine ⟨?_, if_neg accepted⟩
    rintro ⟨short, digits⟩
    have listed : text.toList.all (fun c => c == '0' || c == '1') = true := by
      simpa using digits
    obtain ⟨bits, rfl⟩ := exists_bits digits
    rw [utf8ByteSize_digits] at accepted
    exact accepted ⟨by simpa using short, listed⟩

theorem ofBitString_eq_error_iff {text : String} {e : Error} :
    ofBitString text = .error e ↔ ¬IsBitString text ∧ e = .invalidBitString text := by
  rcases ofBitString_eq text with ⟨bits, short, rfl, read⟩ | ⟨unread, failed⟩
  · rw [read]
    simp [isBitString_digits short]
  · rw [failed, Except.error.injEq, eq_comm]
    exact ⟨fun same => ⟨unread, same⟩, And.right⟩

theorem ofBitString_eq_ok_iff {text : String} {k : TrieKey} :
    ofBitString text = .ok k ↔ IsReadAs text k := by
  constructor
  · intro read
    rcases ofBitString_eq text with ⟨bits, short, rfl, read'⟩ | ⟨-, failed⟩
    · cases read.symm.trans read'
      exact isReadAs_ofBits short
    · cases read.symm.trans failed
  · intro reads
    rw [← reads.bitString, ofBitString_bitString, ofBits_toBits reads.canonical]

theorem exists_ofBitString_iff {text : String} :
    (∃ k, ofBitString text = .ok k) ↔ IsBitString text := by
  rcases ofBitString_eq text with ⟨bits, short, rfl, read⟩ | ⟨unread, failed⟩
  · exact ⟨fun _ => isBitString_digits short, fun _ => ⟨_, read⟩⟩
  · simp [failed, unread]

/-- A bit string, and no other text, is read, as the canonical key that it stands for;
what is written for any key is read as a key that equals it, of the same kind, with
the other bits cleared. -/
theorem bit_string_read_back :
    (∀ text : String, ((∃ k, ofBitString text = .ok k) ↔ IsBitString text) ∧
      (∀ e, ofBitString text = .error e ↔ ¬IsBitString text ∧ e = .invalidBitString text) ∧
      ∀ k, ofBitString text = .ok k ↔ IsReadAs text k) ∧
    ∀ k : TrieKey, ∃ j,
      ofBitString k.bitString = .ok j ∧ (j == k) = true ∧ j.isLeaf = k.isLeaf ∧
        j.slice = k.masked := by
  refine ⟨fun text => ⟨exists_ofBitString_iff, fun _ => ofBitString_eq_error_iff,
    fun _ => ofBitString_eq_ok_iff⟩, ?_⟩
  intro k
  have same := beq_ofBits_toBits k
  exact ⟨ofBits k.toBits, ofBitString_bitString k, same, isLeaf_congr (beq_iff.mp same),
    slice_ofBits_toBits k⟩

/-! Raw forms. -/

def IsRawFault (bytes : Bytes) : Error → Prop
  | .invalidRawLength length => length = bytes.length ∧ length ≠ 34
  | .unknownNodeType kind =>
      bytes.length = 34 ∧ bytes.head? = some kind ∧ kind ≠ 0 ∧ kind ≠ 1
  | .invalidBranchLength _ => False
  | .invalidBitString _ => False

def rawOf (kind : UInt8) (slice : Bytes32) (last : UInt8) : Bytes :=
  kind :: (slice.toList ++ [last])

section

variable (kind : UInt8) (slice : Bytes32) (last : UInt8)

@[simp] theorem length_rawOf : (rawOf kind slice last).length = 34 := by
  simp [rawOf]

theorem dropLast_rawOf (other : UInt8) :
    (rawOf kind slice last).dropLast ++ [other] = rawOf kind slice other := by
  rw [rawOf, ← List.cons_append, List.dropLast_concat]
  rfl

theorem ofRaw_rawOf : ofRaw (rawOf kind slice last) = ofRawParts kind slice last := by
  have last_eq : (rawOf kind slice last).getLastD 0 = last := by
    rw [rawOf, ← List.cons_append, List.getLastD_concat]
  rw [ofRaw, dif_pos (length_rawOf kind slice last), last_eq]
  simp [rawOf]

theorem ofRaw_branch :
    ofRaw (rawOf 0 slice last) = .ok (.branch slice ⟨last.toNat, last.toNat_lt⟩) := by
  rw [ofRaw_rawOf, ofRawParts, if_pos rfl, branchOf, dif_pos last.toNat_lt]

theorem ofRaw_leaf : ofRaw (rawOf 1 slice last) = .ok (.leaf slice) := by
  rw [ofRaw_rawOf]
  rfl

end

theorem exists_rawOf {bytes : Bytes} (length : bytes.length = 34) :
    ∃ kind slice last, bytes = rawOf kind slice last := by
  cases bytes with
  | nil => contradiction
  | cons kind rest =>
      have rest_length : rest.length = 33 := Nat.succ.inj length
      have front : (rest.take 32).length = 32 := by simp [rest_length]
      have last_length : (rest.drop 32).length = 1 := by simp [rest_length]
      obtain ⟨last, back⟩ := List.length_eq_one_iff.mp last_length
      refine ⟨kind, ⟨rest.take 32, front⟩, last, ?_⟩
      rw [rawOf, ← back, List.take_append_drop]

theorem ofRaw_of_fault {bytes : Bytes} {e : Error} (fault : IsRawFault bytes e) :
    ofRaw bytes = .error e := by
  cases e with
  | invalidRawLength length =>
      obtain ⟨rfl, other⟩ := fault
      exact dif_neg other
  | unknownNodeType kind =>
      obtain ⟨length, first, not_branch, not_leaf⟩ := fault
      obtain ⟨kind, slice, last, rfl⟩ := exists_rawOf length
      cases first
      rw [ofRaw_rawOf, ofRawParts, if_neg not_branch, if_neg not_leaf]
  | invalidBranchLength length => contradiction
  | invalidBitString text => contradiction

theorem raw_cases (bytes : Bytes) :
    (∃ slice last, bytes = rawOf 0 slice last) ∨
      (∃ slice last, bytes = rawOf 1 slice last) ∨ ∃ e, IsRawFault bytes e := by
  by_cases length : bytes.length = 34
  · obtain ⟨kind, slice, last, rfl⟩ := exists_rawOf length
    by_cases branch : kind = 0
    · exact .inl ⟨slice, last, branch ▸ rfl⟩
    · by_cases leaf : kind = 1
      · exact .inr (.inl ⟨slice, last, leaf ▸ rfl⟩)
      · exact .inr (.inr ⟨.unknownNodeType kind, length, rfl, branch, leaf⟩)
  · exact .inr (.inr ⟨.invalidRawLength bytes.length, rfl, length⟩)

theorem ofRaw_eq_error_iff {bytes : Bytes} {e : Error} :
    ofRaw bytes = .error e ↔ IsRawFault bytes e := by
  refine ⟨?_, ofRaw_of_fault⟩
  intro failed
  rcases raw_cases bytes with ⟨slice, last, rfl⟩ | ⟨slice, last, rfl⟩ | ⟨e', fault⟩
  · cases (ofRaw_branch slice last).symm.trans failed
  · cases (ofRaw_leaf slice last).symm.trans failed
  · cases (ofRaw_of_fault fault).symm.trans failed
    exact fault

theorem exists_ofRaw_iff {bytes : Bytes} :
    (∃ k, ofRaw bytes = .ok k) ↔
      bytes.length = 34 ∧ (bytes.head? = some 0 ∨ bytes.head? = some 1) := by
  constructor
  · rintro ⟨k, read⟩
    rcases raw_cases bytes with ⟨slice, last, rfl⟩ | ⟨slice, last, rfl⟩ | ⟨e, fault⟩
    · exact ⟨length_rawOf 0 slice last, .inl rfl⟩
    · exact ⟨length_rawOf 1 slice last, .inr rfl⟩
    · cases (ofRaw_of_fault fault).symm.trans read
  · rintro ⟨length, first⟩
    obtain ⟨kind, slice, last, rfl⟩ := exists_rawOf length
    rcases first with first | first
    · cases first
      exact ⟨_, ofRaw_branch slice last⟩
    · cases first
      exact ⟨_, ofRaw_leaf slice last⟩

theorem raw_branch (slice : Bytes32) (last : UInt8) :
    (branch slice ⟨last.toNat, last.toNat_lt⟩).raw = rawOf 0 slice last := by
  rw [raw, UInt8.ofNat_toNat]
  rfl

theorem raw_of_ofRaw {bytes : Bytes} {k : TrieKey} (read : ofRaw bytes = .ok k) :
    k.raw = if k.isLeaf then bytes.dropLast ++ [0] else bytes := by
  rcases raw_cases bytes with ⟨slice, last, rfl⟩ | ⟨slice, last, rfl⟩ | ⟨e, fault⟩
  · cases (ofRaw_branch slice last).symm.trans read
    exact raw_branch slice last
  · cases (ofRaw_leaf slice last).symm.trans read
    exact (dropLast_rawOf 1 slice last 0).symm
  · cases (ofRaw_of_fault fault).symm.trans read

theorem ofRaw_raw (k : TrieKey) : ofRaw k.raw = .ok k := by
  cases k with
  | leaf slice => exact ofRaw_leaf slice 0
  | branch slice length =>
      have kept : (UInt8.ofNat length).toNat = length := Nat.mod_eq_of_lt length.isLt
      refine (ofRaw_branch slice (UInt8.ofNat length)).trans ?_
      simp only [kept]

/-- A key, a leaf if and only if all 256 bits are significant, is read back from its raw
form as it was, with all bits of its slice.  Other bytes are read if there are 34 of them
and the first names a kind of node, and then they are the raw form of what is read, up to
the last byte of a leaf. -/
theorem raw_form_read_back :
    (∀ k : TrieKey, (k.isLeaf = true ↔ k.size = 256) ∧ ofRaw k.raw = .ok k) ∧
    ∀ bytes : Bytes,
      ((∃ k, ofRaw bytes = .ok k) ↔
        bytes.length = 34 ∧ (bytes.head? = some 0 ∨ bytes.head? = some 1)) ∧
      (∀ e, ofRaw bytes = .error e ↔ IsRawFault bytes e) ∧
      ∀ k, ofRaw bytes = .ok k →
        k.raw = if k.isLeaf then bytes.dropLast ++ [0] else bytes :=
  ⟨fun k => ⟨isLeaf_iff_size k, ofRaw_raw k⟩,
    fun _ => ⟨exists_ofRaw_iff, fun _ => ofRaw_eq_error_iff, fun _ => raw_of_ofRaw⟩⟩

end MerkleProof.TrieKey
