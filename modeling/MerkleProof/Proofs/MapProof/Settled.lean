import Mathlib.Data.List.Forall2
import Mathlib.Logic.Relation
import MerkleProof.Proofs.MapProof.Root
import MerkleProof.Proofs.TrieKey.Sorted

/-! A contour between two pushes.  Its subtrees ascend from the bottom to the top,
neighbours share more the higher they stand, and together they stand for all that was
put on the contour.  While two of them are merged they need not ascend, as a branch
may have the key of its left child, but the parent's key is always a prefix of the
keys of both children. -/

namespace MerkleProof.MapProof

open List (Forall₂)
open Relation (ReflTransGen)
open TrieKey Trie

/-! Subtrees that stand for groups of items. -/

/-- The subtree is the trie over the items, and its key is the common
prefix of their keys. -/
inductive StandsFor : Subtree → List Subtree → Prop
  | group {s first : Subtree} {rest : List Subtree} (trie : TopDown (first :: rest) s)
      (key : (s.key == (rest.map Subtree.key).foldl commonPrefix first.key) = true) :
      StandsFor s (first :: rest)

theorem sorted_keys {items : List Subtree} (ascending : Ascending Subtree.key items) :
    TrieKey.Sorted (items.map Subtree.key) :=
  List.pairwise_map.mpr ascending.isLE

theorem key_build_beq {first : Subtree} {rest : List Subtree}
    (ascending : Ascending Subtree.key (first :: rest)) :
    ((build first rest).key == (rest.map Subtree.key).foldl commonPrefix first.key)
      = true := by
  by_cases more : rest = []
  · subst more
    rw [build_nil]
    exact beq_iff.mpr Std.ReflOrd.compare_self
  · have ends := (sorted_keys ascending).commonPrefix_beq_foldl
    rw [key_build ascending more]
    rwa [show ((first.key :: rest.map Subtree.key).getLast (List.cons_ne_nil _ _)) =
      (last first rest).key from last_map Subtree.key first rest] at ends

theorem standsFor_build {first : Subtree} {rest : List Subtree}
    (ascending : Ascending Subtree.key (first :: rest)) :
    StandsFor (build first rest) (first :: rest) :=
  .group (topDown_build ascending) (key_build_beq ascending)

/-! Neighbours. -/

def sharedLengths : List Subtree → List Nat
  | s :: t :: rest => commonLength s.key t.key :: sharedLengths (t :: rest)
  | _ => []

@[simp] theorem sharedLengths_singleton (s : Subtree) : sharedLengths [s] = [] := rfl

theorem sharedLengths_append (lower : List Subtree) (s t : Subtree) :
    sharedLengths (lower ++ [s] ++ [t]) =
      sharedLengths (lower ++ [s]) ++ [commonLength s.key t.key] := by
  induction lower with
  | nil => rfl
  | cons a lower ih =>
      cases lower with
      | nil => rfl
      | cons b lower => exact congrArg (commonLength a.key b.key :: ·) ih

namespace Contour

def stack (c : Contour) : List Subtree := c.below.reverse ++ [c.top]

/-- What holds between two pushes, after the items were put on the contour. -/
structure Settled (c : Contour) (items : List Subtree) : Prop where
  shared_eq : ∃ left lower,
    c.below = left :: lower ∧ c.shared = left.key.commonPrefix c.top.key
  ascending : Ascending Subtree.key c.stack
  rising : (sharedLengths c.stack).Pairwise (· ≤ ·)
  groups : ∃ groups, Forall₂ StandsFor c.stack groups ∧ groups.flatten = items

section

variable {strings : List Bytes} {below items later : List Subtree}
  {next : Subtree} {bound : Nat}

theorem Waiting.exists_groups (waiting : Waiting strings below items next bound)
    (ascending : Ascending Subtree.key items) :
    ∃ groups, Forall₂ StandsFor below.reverse groups ∧ groups.flatten = items := by
  induction waiting with
  | nil next => exact ⟨[], .nil, rfl⟩
  | @cons below items first rest next bound earlier inner rises known ih =>
      obtain ⟨before, group, -⟩ := List.pairwise_append.mp ascending
      obtain ⟨groups, stand, same⟩ := ih before
      refine ⟨groups ++ [first :: rest], ?_, by simp [same]⟩
      rw [List.reverse_cons]
      exact List.rel_append stand (.cons (standsFor_build group) .nil)

/-- Each group that waits comes before the next one and shares no more with it than that
one with its own neighbour above. -/
theorem Waiting.ascending_rising (waiting : Waiting strings below items next bound)
    (ascending : Ascending Subtree.key (items ++ next :: later))
    (deeper : later = [] ∨ Shares Subtree.key (bound + 1) (next :: later)) :
    Ascending Subtree.key (below.reverse ++ [build next later]) ∧
      (sharedLengths (below.reverse ++ [build next later])).Pairwise (· ≤ ·) ∧
      ∀ n ∈ sharedLengths (below.reverse ++ [build next later]), n ≤ bound := by
  -- `later` is what the top group holds besides `next`: a longer group must share more
  -- than the gap below it, or the key of its trie could be that of the group before
  induction waiting generalizing later with
  | nil next => simp [Ascending]
  | @cons below items first rest next bound earlier inner rises known ih =>
      have before : Ascending Subtree.key (items ++ first :: rest) :=
        (List.pairwise_append.mp ascending).1
      have outer :
          Shares Subtree.key (gap Subtree.key first rest next) (next :: later) := by
        rcases deeper with alone | shares
        · subst alone
          exact shares_singleton (commonLength_le_right _ _)
        · exact shares.mono (Nat.le_succ _)
      have fork : Fork Subtree.key first rest next later :=
        ⟨List.Pairwise.sublist (by simp) ascending, inner, outer⟩
      obtain ⟨ascends, rising, small⟩ :=
        ih before (inner.imp_right fun shares => shares.mono (Nat.succ_le_succ rises))
      have step := fork.build_lt deeper
      rw [List.reverse_cons, sharedLengths_append, fork.commonLength_build_build]
      have smaller : ∀ n ∈ sharedLengths (below.reverse ++ [build first rest]),
          n ≤ gap Subtree.key first rest next :=
        fun n member => Nat.le_trans (small n member) rises
      refine ⟨ascends.concat step, ?_, ?_⟩
      · apply List.pairwise_append.mpr
        refine ⟨rising, List.pairwise_singleton _ _, ?_⟩
        intro n member m m_mem
        rcases List.mem_singleton.mp m_mem with rfl
        exact smaller n member
      · intro n member
        rcases List.mem_append.mp member with lower | top
        · exact smaller n lower
        · exact Nat.le_of_eq (List.mem_singleton.mp top)

variable {c : Contour} {top : Subtree}

theorem Stands.settled (stands : Stands strings c items top [] bound) (more : items ≠ []) :
    Settled c (items ++ [top]) := by
  obtain ⟨below, top', shared⟩ := c
  obtain ⟨ascending, waiting, top_eq, -, -, shared_eq⟩ := stands
  dsimp only at waiting top_eq shared_eq
  subst top_eq
  obtain ⟨ascends, rising, -⟩ := waiting.ascending_rising ascending (.inl rfl)
  refine ⟨?_, ascends, rising, ?_⟩
  · cases waiting with
    | nil => contradiction
    | cons earlier inner rises known => exact ⟨_, _, rfl, shared_eq _ rfl⟩
  · obtain ⟨groups, stand, same⟩ :=
      waiting.exists_groups (List.pairwise_append.mp ascending).1
    refine ⟨groups ++ [[top]], ?_, by simp [same]⟩
    exact List.rel_append stand
      (.cons (standsFor_build (List.pairwise_singleton _ _)) .nil)

end

/-! Merging. -/

inductive Merges : Contour → Contour → Prop
  | last (left top : Subtree) (shared : TrieKey) :
      Merges ⟨[left], top, shared⟩ ⟨[], .merge shared left top, shared⟩
  | more (left next top : Subtree) (lower : List Subtree) (shared : TrieKey) :
      Merges ⟨left :: next :: lower, top, shared⟩
        ⟨next :: lower, .merge shared left top, next.key.commonPrefix shared⟩

/-- The parent is the branch over both children, at a prefix of their keys. -/
structure IsParent (parent left right : Subtree) : Prop where
  merged : parent = .merge parent.key left right
  is_branch : parent.key.isLeaf = false
  size_lt : parent.key.size < 256
  on_left : parent.key.isPrefixOf left.key = true
  on_right : parent.key.isPrefixOf right.key = true

theorem reaches_foldWhile (giveUp : TrieKey → Bool) (below : List Subtree) (top : Subtree)
    (shared : TrieKey) :
    ReflTransGen Merges ⟨below, top, shared⟩ (foldWhile giveUp below top shared) := by
  induction below generalizing top shared with
  | nil => exact .refl
  | cons left below ih =>
      by_cases given : giveUp shared = true
      · cases below with
        | nil =>
            simp only [foldWhile, given, if_true]
            exact .single (.last left top shared)
        | cons next lower =>
            rw [foldWhile, if_pos given]
            exact .head (.more left next top lower shared) (ih _ _)
      · rw [foldWhile, if_neg given]

section

variable {strings : List Bytes} {c d : Contour} {items rest : List Subtree}
  {first : Subtree} {bound : Nat}

theorem Stands.merges (stands : Stands strings c items first rest bound)
    (hashed : c.hashed [] ⊆ strings) (step : Merges c d) :
    ∃ items' first' rest' bound', Stands strings d items' first' rest' bound' ∧
      d.hashed [] ⊆ strings := by
  cases step with
  | last left top shared =>
      obtain ⟨items', first', rest', bound', -, merged⟩ :=
        stands.merge (hashed List.mem_cons_self)
      exact ⟨items', first', rest', bound', merged shared (by simp), List.nil_subset _⟩
  | more left next top lower shared =>
      obtain ⟨here, later⟩ := List.cons_subset.mp hashed
      obtain ⟨items', first', rest', bound', -, merged⟩ := stands.merge here
      refine ⟨items', first', rest', bound', merged _ ?_, later⟩
      intro other member
      cases member
      rfl

/-- The keys next to the gap differ, so what they share is no whole leaf. -/
theorem Stands.isParent_merge {left top : Subtree} {lower : List Subtree}
    {shared : TrieKey}
    (stands : Stands strings ⟨left :: lower, top, shared⟩ items first rest bound) :
    IsParent (.merge shared left top) left top := by
  obtain ⟨_, head, group, _, -, -, fork, -, gap_eq, -⟩ := stands.exists_fork
  have size : shared.size < 256 := by
    have step := lt_iff.mp (fork.lt_of_mem (last_mem head group) List.mem_cons_self)
    rw [gap_eq, size_commonPrefix]
    exact Nat.lt_of_lt_of_le step.1 first.key.size_le
  have branch : shared.isLeaf = false := by
    apply eq_false_of_ne_true
    intro leaf
    exact Nat.ne_of_lt size ((isLeaf_iff_size shared).mp leaf)
  have tracked : shared = left.key.commonPrefix top.key := stands.shared_eq left rfl
  obtain ⟨on_left, on_right⟩ :=
    isPrefixOf_commonPrefix_iff.mp (isPrefixOf_self (left.key.commonPrefix top.key))
  rw [← tracked] at on_left on_right
  exact ⟨rfl, branch, size, on_left, on_right⟩

theorem Stands.isParent (stands : Stands strings c items first rest bound)
    (step : Merges c d) :
    ∃ left, c.below.head? = some left ∧ IsParent d.top left c.top := by
  cases step with
  | last left top shared => exact ⟨left, rfl, stands.isParent_merge⟩
  | more left next top lower shared => exact ⟨left, rfl, stands.isParent_merge⟩

theorem Stands.reaches (stands : Stands strings c items first rest bound)
    (hashed : c.hashed [] ⊆ strings) (reaches : ReflTransGen Merges c d) :
    ∃ items' first' rest' bound', Stands strings d items' first' rest' bound' ∧
      d.hashed [] ⊆ strings := by
  induction reaches with
  | refl => exact ⟨items, first, rest, bound, stands, hashed⟩
  | tail _ step ih =>
      obtain ⟨_, _, _, _, stands', hashed'⟩ := ih
      exact stands'.merges hashed' step

end

/-- However many of the ascending items were put on a contour, it is settled.  It is
merged step by step until the next item fits on top, or until one subtree is left,
and wherever this stops, a parent sits at a branch key that is a prefix of the keys
of both its children. -/
theorem settled_of_ascending {first second : Subtree} {rest pushed : List Subtree}
    (ascending : Ascending Subtree.key (first :: second :: rest))
    (so_far : pushed <+: rest) :
    let c := ofSubtrees first second pushed
    Settled c (first :: second :: pushed) ∧
      (∀ next, ∃ d, ReflTransGen Merges c d ∧
        c.push next = ⟨d.top :: d.below, next, c.top.key.commonPrefix next.key⟩) ∧
      (∃ d, ReflTransGen Merges c d ∧ d.below = [] ∧ c.finish = d.top) ∧
      ∀ d e, ReflTransGen Merges c d → Merges d e →
        ∃ left, d.below.head? = some left ∧ IsParent e.top left d.top := by
  intro c
  have here : Ascending Subtree.key (first :: second :: pushed) :=
    List.Pairwise.sublist (List.cons_sublist_cons.mpr
      (List.cons_sublist_cons.mpr so_far.sublist)) ascending
  obtain ⟨items, top, bound, same, stands, hashed⟩ := stands_ofSubtrees here
  have more : items ≠ [] := by
    intro none
    rw [none] at same
    simp at same
  refine ⟨same ▸ stands.settled more, ?_, ?_, ?_⟩
  · intro next
    exact ⟨_, reaches_foldWhile _ c.below c.top c.shared, rfl⟩
  · exact ⟨_, reaches_foldWhile _ c.below c.top c.shared, below_foldWhile_true _ _ _, rfl⟩
  · intro d e reaches step
    obtain ⟨_, _, _, _, stands', -⟩ := stands.reaches hashed reaches
    exact stands'.isParent step

def blankAt (bits : List Bool) : Subtree := ⟨ofBits bits, Digest.empty⟩

theorem settled_of_ascending_ties :
    Ascending Subtree.key [blankAt [false], blankAt [false, false], blankAt [false, true],
        blankAt [true], blankAt [true, true]] ∧
      [blankAt [false, true], blankAt [true]] <+:
        [blankAt [false, true], blankAt [true], blankAt [true, true]] ∧
      Settled (ofSubtrees (blankAt [false]) (blankAt [false, false])
          [blankAt [false, true], blankAt [true]])
        [blankAt [false], blankAt [false, false], blankAt [false, true], blankAt [true]] ∧
      ∀ d e, ReflTransGen Merges (ofSubtrees (blankAt [false]) (blankAt [false, false])
          [blankAt [false, true], blankAt [true]]) d → Merges d e →
        ∃ left, d.below.head? = some left ∧ IsParent e.top left d.top := by
  have ascending : Ascending Subtree.key [blankAt [false], blankAt [false, false],
      blankAt [false, true], blankAt [true], blankAt [true, true]] := by
    decide +kernel
  have so_far : [blankAt [false, true], blankAt [true]] <+:
      [blankAt [false, true], blankAt [true], blankAt [true, true]] :=
    List.prefix_append [blankAt [false, true], blankAt [true]] [blankAt [true, true]]
  obtain ⟨settled, -, -, parents⟩ := settled_of_ascending ascending so_far
  exact ⟨ascending, so_far, settled, parents⟩

end Contour

end MerkleProof.MapProof
