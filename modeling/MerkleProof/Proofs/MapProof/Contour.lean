import MerkleProof.Proofs.MapProof.Hashed
import MerkleProof.Proofs.MapProof.Trie

/-! The contour fold builds the trie.  At any time the subtrees on a contour are the tries
over consecutive groups of what was put on it, and what neighbouring groups share never
shrinks from the bottom to the top. -/

namespace MerkleProof.MapProof

open TrieKey Trie

namespace Trie

@[simp] theorem hashed_nil (first : Subtree) : hashed first [] = [] := by
  rw [hashed]

theorem Fork.hashed_eq {first middle : Subtree} {left right : List Subtree}
    (fork : Fork Subtree.key first left middle right) :
    hashed first (left ++ middle :: right) =
      (branchPreimage (build first left) (build middle right)).bytes ::
        (hashed first left ++ hashed middle right) := by
  obtain ⟨next, others, same, parts⟩ := fork.exists_split
  rw [same, hashed]
  split
  · rename_i whole
    rw [parts] at whole
    cases whole
  · rename_i whole
    rw [parts] at whole
    cases whole
    rw [branchBytes_eq]

end Trie

namespace Contour

theorem foldWhile_stops (giveUp : TrieKey → Bool) (below : List Subtree) (top : Subtree)
    (shared : TrieKey) :
    (foldWhile giveUp below top shared).below = [] ∨
      giveUp (foldWhile giveUp below top shared).shared = false := by
  induction below generalizing top shared with
  | nil => exact .inl rfl
  | cons left below ih =>
      by_cases given : giveUp shared = true
      · cases below with
        | nil =>
            simp only [foldWhile, given, if_true]
            exact .inl trivial
        | cons next lower =>
            rw [foldWhile, if_pos given]
            exact ih _ _
      · rw [foldWhile, if_neg given]
        exact .inr (eq_false_of_ne_true given)

theorem below_foldWhile_true (below : List Subtree) (top : Subtree) (shared : TrieKey) :
    (foldWhile (fun _ => true) below top shared).below = [] :=
  (foldWhile_stops _ below top shared).resolve_right (by simp)

/-- The subtrees under the top stand for consecutive groups of the items that come before
`next`, and `bound` bits are shared across the last gap.  A group shares more within itself
than across the gap after it, and no gap shares less than the one before it. -/
inductive Waiting (strings : List Bytes) :
    List Subtree → List Subtree → Subtree → Nat → Prop
  | nil (next : Subtree) : Waiting strings [] [] next 0
  | cons {below items : List Subtree} {first : Subtree} {rest : List Subtree}
      {next : Subtree} {bound : Nat} (earlier : Waiting strings below items first bound)
      (inner : rest = [] ∨
        Shares Subtree.key (gap Subtree.key first rest next + 1) (first :: rest))
      (rises : bound ≤ gap Subtree.key first rest next)
      (known : Trie.hashed first rest ⊆ strings) :
      Waiting strings (build first rest :: below) (items ++ first :: rest) next
        (gap Subtree.key first rest next)

/-- A contour stands for ascending items: the last group is under its top, and the
earlier items wait below. -/
structure Stands (strings : List Bytes) (c : Contour) (items : List Subtree)
    (first : Subtree) (rest : List Subtree) (bound : Nat) : Prop where
  ascending : Ascending Subtree.key (items ++ first :: rest)
  waiting : Waiting strings c.below items first bound
  top_eq : c.top = build first rest
  least : Shares Subtree.key bound (first :: rest)
  known : Trie.hashed first rest ⊆ strings
  shared_eq : ∀ left ∈ c.below.head?, c.shared = left.key.commonPrefix c.top.key

namespace Stands

variable {strings : List Bytes} {c : Contour} {items rest : List Subtree} {first : Subtree}
  {bound : Nat}

theorem start (first : Subtree) (shared : TrieKey) :
    Stands strings ⟨[], first, shared⟩ [] first [] 0 where
  ascending := List.pairwise_singleton _ _
  waiting := .nil first
  top_eq := (build_nil first).symm
  least := fun _ _ _ _ => Nat.zero_le _
  known := by simp
  shared_eq := by simp

theorem ascending_top (stands : Stands strings c items first rest bound) :
    Ascending Subtree.key (first :: rest) :=
  List.Pairwise.sublist (List.sublist_append_right items (first :: rest)) stands.ascending

theorem exists_fork {below : List Subtree} {top left : Subtree} {shared : TrieKey}
    (stands : Stands strings ⟨left :: below, top, shared⟩ items first rest bound) :
    ∃ before head group least, items = before ++ head :: group ∧ left = build head group ∧
      Fork Subtree.key head group first rest ∧ bound = gap Subtree.key head group first ∧
      shared = (last head group).key.commonPrefix first.key ∧
      Waiting strings below before head least ∧ least ≤ bound ∧
      Trie.hashed head group ⊆ strings := by
  obtain ⟨ascending, waiting, top_eq, least, -, shared_eq⟩ := stands
  cases waiting with
  | @cons _ before head group _ bound earlier inner rises known =>
      have fork : Fork Subtree.key head group first rest :=
        ⟨List.Pairwise.sublist (by simp) ascending, inner, least⟩
      refine ⟨before, head, group, bound, rfl, rfl, fork, rfl, ?_, earlier, rises, known⟩
      rw [← fork.commonPrefix_build, ← show top = build first rest from top_eq]
      exact shared_eq _ rfl

theorem size_shared (stands : Stands strings c items first rest bound)
    (more : c.below ≠ []) : c.shared.size = bound := by
  obtain ⟨below, top, shared⟩ := c
  cases below with
  | nil => contradiction
  | cons left below =>
      obtain ⟨_, _, _, _, -, -, -, bound_eq, shared_eq, -⟩ := stands.exists_fork
      rw [bound_eq, shared_eq, size_commonPrefix, gap]

theorem merge {below : List Subtree} {top left : Subtree} {shared : TrieKey}
    (stands : Stands strings ⟨left :: below, top, shared⟩ items first rest bound)
    (here : (branchPreimage left top).bytes ∈ strings) :
    ∃ items' first' rest' bound', items' ++ first' :: rest' = items ++ first :: rest ∧
      ∀ shared', (∀ next ∈ below.head?,
          shared' = next.key.commonPrefix (Subtree.merge shared left top).key) →
        Stands strings ⟨below, .merge shared left top, shared'⟩ items' first' rest'
          bound' := by
  obtain ⟨before, head, group, least, rfl, rfl, fork, rfl, rfl, earlier, rises, known⟩ :=
    stands.exists_fork
  have top_eq : top = build first rest := stands.top_eq
  subst top_eq
  refine ⟨before, head, group ++ first :: rest, least, by simp, ?_⟩
  intro shared' tracked
  refine ⟨by simpa using stands.ascending, earlier, fork.build_eq.symm,
    fork.shares.mono rises, ?_, tracked⟩
  rw [fork.hashed_eq]
  exact List.cons_subset.mpr ⟨here, List.append_subset.mpr ⟨known, stands.known⟩⟩

/-- Wherever merging stops, the top is what it was, or a branch at a
prefix that was given up. -/
theorem foldWhile {giveUp : TrieKey → Bool} {below : List Subtree} {top : Subtree}
    {shared : TrieKey}
    (stands : Stands strings ⟨below, top, shared⟩ items first rest bound)
    (hashed : hashedWhile giveUp below top shared ⊆ strings) :
    ∃ items' first' rest' bound', items' ++ first' :: rest' = items ++ first :: rest ∧
      Stands strings (Contour.foldWhile giveUp below top shared) items' first' rest'
        bound' ∧
      ((Contour.foldWhile giveUp below top shared).top = top ∧ rest' = rest ∨
        giveUp (Contour.foldWhile giveUp below top shared).top.key = true) := by
  induction below generalizing top shared items first rest bound with
  | nil => exact ⟨items, first, rest, bound, rfl, stands, .inl ⟨rfl, rfl⟩⟩
  | cons left below ih =>
      by_cases given : giveUp shared = true
      · rw [hashedWhile, if_pos given] at hashed
        obtain ⟨here, later⟩ := List.cons_subset.mp hashed
        obtain ⟨items', first', rest', bound', same, merged⟩ := stands.merge here
        cases below with
        | nil =>
            simp only [Contour.foldWhile, given, if_true]
            exact ⟨items', first', rest', bound', same,
              merged shared (by simp), .inr given⟩
        | cons next below =>
            rw [Contour.foldWhile, if_pos given]
            obtain ⟨items'', first'', rest'', bound'', same', done, merges⟩ :=
              ih (merged _ (by simp)) later
            refine ⟨items'', first'', rest'', bound'', same'.trans same, done, .inr ?_⟩
            rcases merges with ⟨top_eq, -⟩ | given_later
            · rw [top_eq]
              exact given
            · exact given_later
      · rw [Contour.foldWhile, if_neg given]
        exact ⟨items, first, rest, bound, rfl, stands, .inl ⟨rfl, rfl⟩⟩

theorem bound_le {n : Nat} (stands : Stands strings c items first rest bound)
    (kept : c.below = [] ∨ c.shared.size ≤ n) : bound ≤ n := by
  by_cases empty : c.below = []
  · have bottom := stands.waiting
    rw [empty] at bottom
    cases bottom
    exact Nat.zero_le n
  · rw [← stands.size_shared empty]
    exact kept.resolve_left empty

/-- A new item begins a group of its own, and the group that was last waits under it. -/
theorem put {next : Subtree} (stands : Stands strings c items first rest bound)
    (ascending : Ascending Subtree.key (items ++ first :: (rest ++ [next])))
    (inner : rest = [] ∨
      Shares Subtree.key (gap Subtree.key first rest next + 1) (first :: rest))
    (rises : bound ≤ gap Subtree.key first rest next) :
    Stands strings ⟨c.top :: c.below, next, (last first rest).key.commonPrefix next.key⟩
      (items ++ first :: rest) next [] (gap Subtree.key first rest next) := by
  have fork : Fork Subtree.key first rest next [] := by
    refine ⟨List.Pairwise.sublist (List.sublist_append_right items _) ascending, inner, ?_⟩
    exact shares_singleton (commonLength_le_right _ _)
  refine ⟨by simpa using ascending, ?_, (build_nil next).symm, fork.outer, by simp, ?_⟩
  · rw [stands.top_eq]
    exact .cons stands.waiting inner rises stands.known
  · intro left member
    cases member
    rw [stands.top_eq, ← fork.commonPrefix_build, build_nil]

/-- Before the next item is put on top, all groups are joined that share more than the
last item shares with it. -/
theorem push {top next : Subtree} (stands : Stands strings c items top [] bound)
    (ascending : Ascending Subtree.key (items ++ [top, next]))
    (hashed : c.hashedByPush next ⊆ strings) :
    ∃ bound', Stands strings (c.push next) (items ++ [top]) next [] bound' := by
  obtain ⟨items', first', rest', bound', same, done, merges⟩ := stands.foldWhile hashed
  have stops := foldWhile_stops (fun k => (c.top.key.commonPrefix next.key).size < k.size)
    c.below c.top c.shared
  have top_eq : c.top = top := stands.top_eq.trans (build_nil top)
  -- joining groups leaves the last item where it is, so the prefix
  -- taken before still counts
  have last_eq : last first' rest' = c.top := by
    rw [last, ← List.getLast_append_right (by simp) (l := items'), top_eq]
    simp [same]
  have gap_eq : gap Subtree.key first' rest' next =
      (c.top.key.commonPrefix next.key).size := by
    rw [gap, last_eq, size_commonPrefix]
  have inner : rest' = [] ∨
      Shares Subtree.key (gap Subtree.key first' rest' next + 1) (first' :: rest') := by
    rcases merges with ⟨-, alone⟩ | given
    · exact .inl alone
    · have deeper := of_decide_eq_true given
      rw [done.top_eq, size_build done.ascending_top, ← gap_eq] at deeper
      exact .inr ((shares_rootKey done.ascending_top).mono deeper)
  have rises : bound' ≤ gap Subtree.key first' rest' next := by
    rw [gap_eq]
    exact done.bound_le (stops.imp_right fun stays =>
      Nat.le_of_not_lt (of_decide_eq_false stays))
  have whole : items' ++ first' :: (rest' ++ [next]) = items ++ [top, next] := by
    rw [← List.cons_append, ← List.append_assoc, same]
    simp
  have placed := done.put (whole ▸ ascending) inner rises
  rw [last_eq, same] at placed
  exact ⟨_, placed⟩

theorem finish (stands : Stands strings c items first rest bound)
    (hashed : c.hashed [] ⊆ strings) :
    ∃ first' rest', items ++ first :: rest = first' :: rest' ∧
      c.finish = build first' rest' ∧ Trie.hashed first' rest' ⊆ strings := by
  obtain ⟨items', first', rest', bound', same, done, -⟩ := stands.foldWhile hashed
  have bottom := done.waiting
  rw [below_foldWhile_true] at bottom
  cases bottom
  exact ⟨first', rest', same.symm, done.top_eq, done.known⟩

theorem pushes {top : Subtree} {later : List Subtree}
    (stands : Stands strings c items top [] bound)
    (ascending : Ascending Subtree.key (items ++ top :: later))
    (hashed : c.hashed later ⊆ strings) :
    ∃ items' top' bound', items' ++ [top'] = items ++ top :: later ∧
      Stands strings (later.foldl Contour.push c) items' top' [] bound' ∧
      (later.foldl Contour.push c).hashed [] ⊆ strings := by
  induction later generalizing c items top bound with
  | nil => exact ⟨items, top, bound, rfl, stands, hashed⟩
  | cons next later ih =>
      rw [Contour.hashed] at hashed
      obtain ⟨by_push, afterwards⟩ := List.append_subset.mp hashed
      have here : Ascending Subtree.key (items ++ [top, next]) :=
        List.Pairwise.sublist (by simp) ascending
      obtain ⟨bound', pushed⟩ := stands.push here by_push
      have regroup : items ++ top :: next :: later = items ++ [top] ++ next :: later := by
        simp
      rw [regroup] at ascending ⊢
      exact ih pushed ascending afterwards

end Stands

variable {first second : Subtree} {rest : List Subtree}

theorem stands_ofSubtrees (ascending : Ascending Subtree.key (first :: second :: rest)) :
    ∃ items top bound, items ++ [top] = first :: second :: rest ∧
      Stands ((Contour.start first second).hashed rest) (ofSubtrees first second rest)
        items top [] bound ∧
      (ofSubtrees first second rest).hashed [] ⊆
        (Contour.start first second).hashed rest := by
  -- the first two are put on a contour of the first alone
  have start : Contour.start first second = push ⟨[], first, first.key⟩ second := rfl
  have base : Stands ((Contour.start first second).hashed rest) ⟨[], first, first.key⟩
      [] first [] 0 := .start first first.key
  have hashed : (⟨[], first, first.key⟩ : Contour).hashed (second :: rest) ⊆
      (Contour.start first second).hashed rest := by
    rw [start, Contour.hashed, hashedByPush, hashedWhile, List.nil_append]
    exact List.Subset.refl _
  exact base.pushes ascending hashed

theorem run_ofSubtrees (ascending : Ascending Subtree.key (first :: second :: rest)) :
    (ofSubtrees first second rest).finish = build first (second :: rest) ∧
      Trie.hashed first (second :: rest) ⊆ (Contour.start first second).hashed rest := by
  obtain ⟨items, top, bound, same, stands, hashed⟩ := stands_ofSubtrees ascending
  obtain ⟨head, others, all, finish, known⟩ := stands.finish hashed
  cases same.symm.trans all
  exact ⟨finish, known⟩

/-- A contour ends as the trie that is built from the top. -/
theorem finish_ofSubtrees (ascending : Ascending Subtree.key (first :: second :: rest)) :
    (ofSubtrees first second rest).finish = build first (second :: rest) :=
  (run_ofSubtrees ascending).1

theorem hashed_subset (ascending : Ascending Subtree.key (first :: second :: rest)) :
    Trie.hashed first (second :: rest) ⊆ (Contour.start first second).hashed rest :=
  (run_ofSubtrees ascending).2

end Contour

end MerkleProof.MapProof
