import MerkleProof.MapProof.Check
import MerkleProof.Proofs.MapProof.Contour

/-! Which entries have a root, and that it is the root of the trie over them, where every
branch splits what is under it by the first bit past its key. -/

namespace MerkleProof.MapProof

open TrieKey Trie

namespace Trie

/-- The items under the left child of a branch of `n` bits.  An item at the branch's
own key is there alone. -/
def leftPart (n : Nat) (first : Subtree) (rest : List Subtree) : List Subtree :=
  if first.key.size = n then [first] else (first :: rest).filter fun s => !s.key.bit n

def rightPart (n : Nat) (first : Subtree) (rest : List Subtree) : List Subtree :=
  if first.key.size = n then rest else (first :: rest).filter fun s => s.key.bit n

/-- The root of the trie over ascending items, from the top. -/
inductive TopDown : List Subtree → Subtree → Prop
  | single (s : Subtree) : TopDown [s] s
  | branch {first next : Subtree} {rest : List Subtree} {left right : Subtree}
      (on_left : TopDown (leftPart (rootKey Subtree.key first (next :: rest)).size first
        (next :: rest)) left)
      (on_right : TopDown (rightPart (rootKey Subtree.key first (next :: rest)).size first
        (next :: rest)) right) :
      TopDown (first :: next :: rest)
        (branchAt (rootKey Subtree.key first (next :: rest)) left right)

theorem TopDown.unique {items : List Subtree} {a b : Subtree} (left : TopDown items a)
    (right : TopDown items b) : a = b := by
  induction left generalizing b with
  | single s =>
      cases right
      rfl
  | branch _ _ ih_left ih_right =>
      cases right with
      | branch on_left on_right => rw [ih_left on_left, ih_right on_right]

theorem Fork.parts_eq {first middle : Subtree} {left right : List Subtree}
    (fork : Fork Subtree.key first left middle right) :
    leftPart (gap Subtree.key first left middle) first (left ++ middle :: right) =
        first :: left ∧
      rightPart (gap Subtree.key first left middle) first (left ++ middle :: right) =
        middle :: right := by
  unfold leftPart rightPart
  by_cases ends : first.key.size = gap Subtree.key first left middle
  · rw [if_pos ends, if_pos ends]
    rcases fork.inner with alone | shares
    · subst alone
      exact ⟨rfl, rfl⟩
    · have whole := shares first List.mem_cons_self first List.mem_cons_self
      rw [commonLength_self] at whole
      omega
  · have least := fork.shares_left first List.mem_cons_self first List.mem_cons_self
    rw [commonLength_self] at least
    have clear := fun a member => (fork.bit_left (a := a) (by omega) member).2
    have set := fun a member => (fork.bit_right (a := a) (by omega) member).2
    rw [if_neg ends, if_neg ends, ← List.cons_append, List.filter_append,
      List.filter_append]
    constructor
    · rw [List.filter_eq_self.mpr (by simpa using clear),
        List.filter_eq_nil_iff.mpr (by simpa using set), List.append_nil]
    · rw [List.filter_eq_nil_iff.mpr (by simpa using clear),
        List.filter_eq_self.mpr (by simpa using set), List.nil_append]

theorem topDown_build {first : Subtree} {rest : List Subtree}
    (ascending : Ascending Subtree.key (first :: rest)) :
    TopDown (first :: rest) (build first rest) := by
  refine fork_induction ?single ?join ascending
  case single =>
      intro first
      rw [build_nil]
      exact .single first
  case join =>
      intro first left middle right fork on_left on_right
      obtain ⟨left_eq, right_eq⟩ := fork.parts_eq
      obtain ⟨next, others, same, -⟩ := fork.exists_split
      rw [fork.build_eq, ← fork.rootKey_eq, ← branchAt_eq_merge]
      rw [← fork.size_rootKey] at left_eq right_eq
      rw [same] at left_eq right_eq ⊢
      refine .branch ?_ ?_
      · rwa [left_eq]
      · rwa [right_eq]

end Trie

theorem orderFault?_eq_none_iff {entries : List Entry} :
    orderFault? entries = none ↔ Ascending Entry.key entries := by
  induction entries with
  | nil => exact ⟨fun _ => .nil, fun _ => rfl⟩
  | cons a entries ih =>
      cases entries with
      | nil => exact ⟨fun _ => List.pairwise_singleton _ _, fun _ => rfl⟩
      | cons b rest =>
          constructor
          · intro none
            unfold orderFault? at none
            split at none
            · contradiction
            · contradiction
            · rename_i greater
              have tail := ih.mp none
              have step : compare a.key b.key = .lt := Std.OrientedCmp.lt_of_gt greater
              refine List.pairwise_cons.mpr ⟨?_, tail⟩
              intro c member
              rcases List.mem_cons.mp member with rfl | later
              · exact step
              · exact lt_trans step ((List.pairwise_cons.mp tail).1 c later)
          · intro ascending
            obtain ⟨below, tail⟩ := List.pairwise_cons.mp ascending
            have greater : compare b.key a.key = .gt :=
              Std.OrientedCmp.gt_of_lt (below b List.mem_cons_self)
            rw [orderFault?, greater]
            exact ih.mpr tail

theorem joinEntries_of_ascending {first : Entry} {rest : List Entry}
    (ascending : Ascending Entry.key (first :: rest)) (more : rest ≠ []) :
    joinEntries (first :: rest) =
      .ok (build first.subtree (rest.map Entry.subtree)).digest := by
  obtain ⟨second, rest, rfl⟩ := List.exists_cons_of_ne_nil more
  have subtrees : Ascending Subtree.key ((first :: second :: rest).map Entry.subtree) :=
    List.pairwise_map.mpr ascending
  rw [joinEntries, Contour.finish_ofSubtrees subtrees, List.map_cons]

theorem rootHash_eq_ok_iff {strict : Bool} {entries : List Entry} {root : Digest} :
    rootHash strict entries = .ok root ↔
      (strict = true → ∀ e ∈ entries, e.key.isCanonical = true) ∧
        Ascending Entry.key entries ∧ (∀ e ∈ entries, e.isGenuine = true) ∧
          joinEntries entries = .ok root := by
  unfold rootHash
  by_cases canonical : strict = true → ∀ e ∈ entries, e.key.isCanonical = true
  · have kept : ¬(strict && !entries.all fun e => e.key.isCanonical) = true := by
      simpa using canonical
    rw [if_neg kept, ← orderFault?_eq_none_iff]
    cases order : orderFault? entries with
    | some fault => simp
    | none =>
        by_cases genuine : entries.all Entry.isGenuine = true
        · have all_genuine := List.all_eq_true.mp genuine
          rw [if_pos genuine]
          exact ⟨fun joined => ⟨canonical, rfl, all_genuine, joined⟩,
            fun checks => checks.2.2.2⟩
        · have forged : ¬∀ e ∈ entries, e.isGenuine = true := by simpa using genuine
          simp [genuine, forged]
  · have refused : (strict && !entries.all fun e => e.key.isCanonical) = true := by
      simpa using canonical
    rw [if_pos refused]
    simp [canonical]

/-- The trie over two or more ascending entries has one root, and this is
what they are joined to. -/
theorem rootHash_eq_topDown {strict : Bool} {first second : Entry} {rest : List Entry}
    (canonical : strict = true → ∀ e ∈ first :: second :: rest, e.key.isCanonical = true)
    (ascending : Ascending Entry.key (first :: second :: rest))
    (genuine : ∀ e ∈ first :: second :: rest, e.isGenuine = true) :
    ∃ root, (∀ other, TopDown ((first :: second :: rest).map Entry.subtree) other ↔
        other = root) ∧
      rootHash strict (first :: second :: rest) = .ok root.digest := by
  have subtrees : Ascending Subtree.key ((first :: second :: rest).map Entry.subtree) :=
    List.pairwise_map.mpr ascending
  have reference := topDown_build subtrees
  have joined := joinEntries_of_ascending ascending (List.cons_ne_nil _ _)
  refine ⟨_, ?_, rootHash_eq_ok_iff.mpr ⟨canonical, ascending, genuine, joined⟩⟩
  intro other
  constructor
  · exact fun another => another.unique reference
  · rintro rfl
    exact reference

theorem rootHash_eq_topDown_prefixes :
    ∃ root,
      (∀ other,
        TopDown ([.branch (.ofBits []) Digest.empty,
          .branch (.ofBits [false]) Digest.empty, .branch (.ofBits [true]) Digest.empty,
          Entry.ofValue (.ofBits [true, true]) [7]].map Entry.subtree) other ↔
        other = root) ∧
      rootHash true [.branch (.ofBits []) Digest.empty,
        .branch (.ofBits [false]) Digest.empty, .branch (.ofBits [true]) Digest.empty,
        Entry.ofValue (.ofBits [true, true]) [7]] = .ok root.digest :=
  rootHash_eq_topDown (by decide +kernel) (by decide +kernel) (by decide +kernel)

end MerkleProof.MapProof
