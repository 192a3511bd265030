import Mathlib.Data.List.Forall2
import MerkleProof.Proofs.MapProof.Status

/-! Bits that are stored past the significant ones of a key.  A check that does not insist
on canonical keys takes no notice of them, whether the entries come sorted or not, and one
that does insist differs from it only by turning such keys down. -/

namespace MerkleProof

open List (Forall₂)

/-- Sorting lists that correspond item by item leaves them so, if the order does not tell
corresponding items apart. -/
theorem forall₂_mergeSort {α β : Type} {related : α → β → Prop} {le : α → α → Bool}
    {le' : β → β → Bool} {as : List α} {bs : List β} (alike : Forall₂ related as bs)
    (respects : ∀ a b, related a b → ∀ a' b', related a' b' → le a a' = le' b b') :
    Forall₂ related (as.mergeSort le) (bs.mergeSort le') := by
  -- both lists are read off one list of pairs, which is sorted once
  have pairs : ∀ p ∈ as.zip bs, related p.1 p.2 :=
    fun p member => List.forall₂_zip alike member
  have firsts : (as.zip bs).map Prod.fst = as :=
    List.map_fst_zip (Nat.le_of_eq alike.length_eq)
  have seconds : (as.zip bs).map Prod.snd = bs :=
    List.map_snd_zip (Nat.le_of_eq alike.length_eq.symm)
  generalize as.zip bs = zipped at pairs firsts seconds
  subst firsts seconds
  rw [← List.map_mergeSort (r := fun p q => le p.1 q.1) (fun _ _ _ _ => rfl),
    ← List.map_mergeSort (r := fun p q => le p.1 q.1)
      (fun p p_mem q q_mem => respects _ _ (pairs p p_mem) _ _ (pairs q q_mem)),
    List.forall₂_map_left_iff, List.forall₂_map_right_iff, List.forall₂_same]
  exact fun p member => pairs p (List.mem_mergeSort.mp member)

namespace MapProof

/-! Contours over subtrees at the same keys. -/

namespace Contour

structure Alike (c d : Contour) : Prop where
  below : Forall₂ Subtree.Alike c.below d.below
  top : c.top.Alike d.top
  shared : c.shared = d.shared

theorem alike_foldWhile (giveUp : TrieKey → Bool) {below below' : List Subtree}
    (waiting : Forall₂ Subtree.Alike below below') {top top' : Subtree}
    (topmost : top.Alike top')
    (shared : TrieKey) :
    Alike (foldWhile giveUp below top shared) (foldWhile giveUp below' top' shared) := by
  induction waiting generalizing top top' shared with
  | nil => exact ⟨.nil, topmost, rfl⟩
  | @cons left left' below below' here waiting ih =>
      by_cases given : giveUp shared = true
      · have parents := Subtree.merge_congr here topmost shared
        cases waiting with
        | nil =>
            simp only [foldWhile, given, if_true, parents]
            exact ⟨.nil, .refl _, rfl⟩
        | @cons next next' below below' closest waiting =>
            rw [foldWhile, foldWhile, if_pos given, if_pos given, parents]
            dsimp only
            rw [TrieKey.commonPrefix_of_eq closest.key Std.ReflOrd.compare_self]
            exact ih (.refl _) _
      · rw [foldWhile, foldWhile, if_neg given, if_neg given]
        exact ⟨.cons here waiting, topmost, rfl⟩

variable {c d : Contour} {s t : Subtree}

theorem Alike.push (alike : Alike c d) (next : s.Alike t) :
    Alike (c.push s) (d.push t) := by
  have folded := alike_foldWhile
    (fun k => (c.top.key.commonPrefix s.key).size < k.size) alike.below alike.top c.shared
  unfold Contour.push
  rw [← TrieKey.commonPrefix_of_eq alike.top.key next.key, ← alike.shared]
  exact ⟨.cons folded.top folded.below, next, rfl⟩

theorem Alike.run {later later' : List Subtree} (alike : Alike c d)
    (coming : Forall₂ Subtree.Alike later later') :
    Alike (later.foldl Contour.push c) (later'.foldl Contour.push d) := by
  induction coming generalizing c d with
  | nil => exact alike
  | cons next _ ih => exact ih (alike.push next)

theorem Alike.finish (alike : Alike c d) : c.finish.Alike d.finish := by
  rw [Contour.finish, Contour.finish, ← alike.shared]
  exact (alike_foldWhile _ alike.below alike.top c.shared).top

end Contour

/-! Entries at the same keys. -/

namespace Entry

/-- Entries that are the same but for bits past the significant ones of a branch's key. -/
inductive Alike : Entry → Entry → Prop
  | leaf (key : MapKey) (digest : Digest) (value : Bytes) :
      Alike (.leaf key digest value) (.leaf key digest value)
  | branch {key key' : TrieKey} (digest : Digest) (sizes : key.size = key'.size)
      (bits : ∀ i, i < key.size → key.bit i = key'.bit i) :
      Alike (.branch key digest) (.branch key' digest)

variable {e f : Entry}

theorem Alike.subtree (alike : Alike e f) : e.subtree.Alike f.subtree := by
  cases alike with
  | leaf key digest value => exact .refl _
  | branch digest sizes bits => exact ⟨rfl, TrieKey.eq_iff.mpr ⟨sizes, bits⟩⟩

theorem Alike.key (alike : Alike e f) : compare e.key f.key = .eq := alike.subtree.key

theorem Alike.isGenuine (alike : Alike e f) : e.isGenuine = f.isGenuine := by
  cases alike <;> rfl

def HasTrailingBit (e : Entry) : Prop := ∃ i, e.key.size ≤ i ∧ e.key.bit i = true

theorem hasTrailingBit_iff : e.HasTrailingBit ↔ ¬e.key.isCanonical = true := by
  rw [TrieKey.isCanonical_iff, HasTrailingBit]
  simp

end Entry

section

variable {entries others : List Entry}

theorem orderFault?_congr (alike : Forall₂ Entry.Alike entries others) :
    orderFault? entries = orderFault? others := by
  induction alike with
  | nil => rfl
  | cons here rest ih =>
      cases rest with
      | nil => rfl
      | cons next rest =>
          rw [orderFault?, orderFault?, TrieKey.compare_congr next.key here.key, ih]

theorem all_isGenuine_congr (alike : Forall₂ Entry.Alike entries others) :
    entries.all Entry.isGenuine = others.all Entry.isGenuine := by
  induction alike with
  | nil => rfl
  | cons here _ ih => rw [List.all_cons, List.all_cons, here.isGenuine, ih]

theorem joinEntries_congr (alike : Forall₂ Entry.Alike entries others) :
    joinEntries entries = joinEntries others := by
  cases alike with
  | nil => rfl
  | cons first rest =>
      cases rest with
      | nil => cases first <;> rfl
      | @cons _ _ entries others second rest =>
          have coming : Forall₂ Subtree.Alike (entries.map Entry.subtree)
              (others.map Entry.subtree) := by
            rw [List.forall₂_map_left_iff, List.forall₂_map_right_iff]
            exact rest.imp fun _ _ => Entry.Alike.subtree
          have start : (Contour.start _ _).Alike (Contour.start _ _) :=
            ⟨.cons first.subtree .nil, second.subtree,
              TrieKey.commonPrefix_of_eq first.key second.key⟩
          rw [joinEntries, joinEntries]
          exact congrArg Except.ok (start.run coming).finish.digest

theorem rootHash_congr (alike : Forall₂ Entry.Alike entries others) :
    rootHash false entries = rootHash false others := by
  rw [rootHash, rootHash, orderFault?_congr alike, all_isGenuine_congr alike,
    joinEntries_congr alike]
  rfl

theorem present_congr (alike : Forall₂ Entry.Alike entries others)
    (requested : SortedSet MapKey) :
    present ⟨entries, requested⟩ = present ⟨others, requested⟩ := by
  unfold present
  congr 1
  dsimp only
  induction alike with
  | nil => rfl
  | cons here _ ih =>
      rw [List.filterMap_cons, List.filterMap_cons, ih]
      cases here <;> rfl

theorem check_congr (alike : Forall₂ Entry.Alike entries others)
    (requested : SortedSet MapKey) (depth : UInt8) :
    check ⟨entries, requested⟩ ⟨depth, false⟩ =
      check ⟨others, requested⟩ ⟨depth, false⟩ := by
  rw [check, check, rootHash_congr alike, missing, missing, present_congr alike]

theorem sorted_alike (alike : Forall₂ Entry.Alike entries others)
    (requested : SortedSet MapKey) :
    Forall₂ Entry.Alike (ofUnsorted entries requested).entries
      (ofUnsorted others requested).entries :=
  forall₂_mergeSort alike fun _ _ left _ _ right => by
    rw [TrieKey.compare_congr left.key right.key]

end

/-! A check that insists on canonical keys. -/

section

variable (p : MapProof) (depth depth' : UInt8)

theorem all_isCanonical_eq_false_iff :
    p.entries.all (fun e => e.key.isCanonical) = false ↔
      ∃ e ∈ p.entries, e.HasTrailingBit := by
  simp only [List.all_eq_false, Entry.hasTrailingBit_iff]

theorem check_of_canonical
    (canonical : p.entries.all (fun e => e.key.isCanonical) = true) :
    check p ⟨depth, true⟩ = check p ⟨depth', false⟩ := by
  rw [check, check, rootHash, rootHash, canonical]
  rfl

theorem check_of_not_canonical
    (dirty : p.entries.all (fun e => e.key.isCanonical) = false) :
    check p ⟨depth, true⟩ = .error .nonCanonicalKey := by
  rw [check, rootHash, dirty]
  rfl

theorem check_lenient_ne_nonCanonicalKey :
    check p ⟨depth, false⟩ ≠ .error .nonCanonicalKey := by
  intro refused
  obtain ⟨_, _, _, ⟨insisted, _⟩, _⟩ :=
    rootHash_eq_error_iff.mp (check_eq_error_iff.mp refused)
  contradiction

end

/-- Bits past the significant ones of a key change no lenient check, and a strict check
reports them and is the lenient one otherwise. -/
theorem trailing_bits_only_rejected :
    (∀ (entries others : List Entry) (requested : SortedSet MapKey) (depth : UInt8),
      Forall₂ Entry.Alike entries others →
        check ⟨entries, requested⟩ ⟨depth, false⟩ =
          check ⟨others, requested⟩ ⟨depth, false⟩ ∧
            check (ofUnsorted entries requested) ⟨depth, false⟩ =
              check (ofUnsorted others requested) ⟨depth, false⟩) ∧
      ∀ (p : MapProof) (depth depth' : UInt8),
        (check p ⟨depth, true⟩ = .error .nonCanonicalKey ↔
          ∃ e ∈ p.entries, e.HasTrailingBit) ∧
          ((¬∃ e ∈ p.entries, e.HasTrailingBit) →
            check p ⟨depth, true⟩ = check p ⟨depth', false⟩) := by
  constructor
  · intro entries others requested depth alike
    exact ⟨check_congr alike requested depth,
      check_congr (sorted_alike alike requested) requested depth⟩
  · intro p depth depth'
    rw [← all_isCanonical_eq_false_iff]
    cases canonical : p.entries.all fun e => e.key.isCanonical with
    | true =>
        rw [check_of_canonical p depth depth' canonical]
        simp [check_lenient_ne_nonCanonicalKey]
    | false => simp [check_of_not_canonical p depth canonical]

def strayBit : Entry := .branch (.branch (.ofBits [false, true]) 1) (sha256 [1])

theorem trailing_bits_only_rejected_strayBit :
    check ⟨[strayBit, .ofValue (.ofBits [true]) [7]], ∅⟩ .default =
        check ⟨[.branch (.ofBits [false]) (sha256 [1]), .ofValue (.ofBits [true]) [7]], ∅⟩
          .default ∧
      check ⟨[strayBit, .ofValue (.ofBits [true]) [7]], ∅⟩ ⟨63, true⟩ =
        .error .nonCanonicalKey ∧
      check ⟨[.ofValue (.ofBits [true]) [7]], ∅⟩ ⟨63, true⟩ =
        check ⟨[.ofValue (.ofBits [true]) [7]], ∅⟩ ⟨0, false⟩ := by
  have alike : Forall₂ Entry.Alike [strayBit, .ofValue (.ofBits [true]) [7]]
      [.branch (.ofBits [false]) (sha256 [1]), .ofValue (.ofBits [true]) [7]] :=
    .cons (.branch _ rfl (by decide +kernel)) (.cons (.leaf _ _ _) .nil)
  have stray : ∃ e ∈ [strayBit, .ofValue (.ofBits [true]) [7]], e.HasTrailingBit :=
    ⟨strayBit, List.mem_cons_self, 1, by decide +kernel⟩
  have clean : ¬∃ e ∈ [Entry.ofValue (.ofBits [true]) [7]], e.HasTrailingBit := by
    simp only [Entry.hasTrailingBit_iff]
    decide +kernel
  obtain ⟨ignored, rejected⟩ := trailing_bits_only_rejected
  exact ⟨(ignored _ _ ∅ 63 alike).1, (rejected ⟨_, ∅⟩ 63 63).1.mpr stray,
    (rejected ⟨_, ∅⟩ 63 0).2 clean⟩

end MapProof

end MerkleProof
