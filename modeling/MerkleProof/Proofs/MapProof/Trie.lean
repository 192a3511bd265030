import Mathlib.Data.List.Pairwise
import MerkleProof.MapProof.Trie
import MerkleProof.Proofs.TrieKey.Order

/-! Where a trie over ascending keys forks.  The parts of a fork are found from
the prefix that the neighbours on both sides of it share, and every trie of two or
more subtrees has a fork. -/

namespace MerkleProof.MapProof.Trie

open TrieKey

variable {α : Type} {key : α → TrieKey}

def Ascending (key : α → TrieKey) (items : List α) : Prop :=
  items.Pairwise fun a b => compare (key a) (key b) = .lt

instance (items : List α) : Decidable (Ascending key items) :=
  inferInstanceAs (Decidable (items.Pairwise fun a b => compare (key a) (key b) = .lt))

def Shares (key : α → TrieKey) (n : Nat) (items : List α) : Prop :=
  ∀ a, a ∈ items → ∀ b, b ∈ items → n ≤ commonLength (key a) (key b)

abbrev last (first : α) (rest : List α) : α :=
  (first :: rest).getLast (List.cons_ne_nil _ _)

theorem last_append (first : α) (left : List α) (middle : α) (right : List α) :
    last first (left ++ middle :: right) = last middle right := by
  induction left generalizing first with
  | nil => rfl
  | cons next left ih => exact ih next

theorem last_mem (first : α) (rest : List α) : last first rest ∈ first :: rest :=
  List.getLast_mem _

theorem size_rootKey_eq (first : α) (rest : List α) :
    (rootKey key first rest).size = commonLength (key first) (key (last first rest)) := by
  rw [rootKey, size_commonPrefix]

theorem Shares.mono {m n : Nat} {items : List α} (shares : Shares key n items)
    (le : m ≤ n) : Shares key m items :=
  fun a left b right => Nat.le_trans le (shares a left b right)

theorem Shares.subset {n : Nat} {xs ys : List α} (shares : Shares key n ys)
    (subset : xs ⊆ ys) : Shares key n xs :=
  fun a left b right => shares a (subset left) b (subset right)

theorem shares_singleton {n : Nat} {a : α} (le : n ≤ (key a).size) : Shares key n [a] := by
  intro b b_mem c c_mem
  rcases List.mem_singleton.mp b_mem with rfl
  rcases List.mem_singleton.mp c_mem with rfl
  rwa [commonLength_self]

theorem Shares.append {n : Nat} {xs ys : List α} (left : Shares key n xs)
    (right : Shares key n ys) {x y : α} (x_mem : x ∈ xs) (y_mem : y ∈ ys)
    (between : n ≤ commonLength (key x) (key y)) : Shares key n (xs ++ ys) := by
  have across : ∀ a, a ∈ xs → ∀ b, b ∈ ys → n ≤ commonLength (key a) (key b) := by
    intro a a_mem b b_mem
    have first := left a a_mem x x_mem
    have second := right y y_mem b b_mem
    have inner := min_commonLength_le (key x) (key y) (key b)
    have outer := min_commonLength_le (key a) (key x) (key b)
    omega
  intro a a_mem b b_mem
  rcases List.mem_append.mp a_mem with a_left | a_right
  · rcases List.mem_append.mp b_mem with b_left | b_right
    · exact left a a_left b b_left
    · exact across a a_left b b_right
  · rcases List.mem_append.mp b_mem with b_left | b_right
    · rw [commonLength_comm]
      exact across b b_left a a_right
    · exact right a a_right b b_right

instance : Std.Refl fun a b : α => (compare (key a) (key b)).isLE = true :=
  ⟨fun _ => Std.ReflOrd.isLE_rfl⟩

theorem Ascending.isLE {items : List α} (ascending : Ascending key items) :
    items.Pairwise fun a b => (compare (key a) (key b)).isLE = true :=
  List.Pairwise.imp Ordering.isLE_of_eq_lt ascending

theorem isLE_first {first : α} {rest : List α} (ascending : Ascending key (first :: rest))
    {a : α} (member : a ∈ first :: rest) : (compare (key first) (key a)).isLE = true :=
  ascending.isLE.rel_head member

theorem isLE_last {first : α} {rest : List α} (ascending : Ascending key (first :: rest))
    {a : α} (member : a ∈ first :: rest) :
    (compare (key a) (key (last first rest))).isLE = true :=
  ascending.isLE.rel_getLast member

theorem Ascending.concat {items : List α} {a b : α}
    (ascending : Ascending key (items ++ [a])) (step : compare (key a) (key b) = .lt) :
    Ascending key (items ++ [a] ++ [b]) := by
  apply List.pairwise_append.mpr
  refine ⟨ascending, List.pairwise_singleton _ _, ?_⟩
  intro c c_mem d d_mem
  rcases List.mem_singleton.mp d_mem with rfl
  rcases List.mem_append.mp c_mem with earlier | last
  · have below := (List.pairwise_append.mp ascending).2.2 c earlier a List.mem_cons_self
    exact lt_trans below step
  · rcases List.mem_singleton.mp last with rfl
    exact step

/-- What the outermost of ascending keys share is shared by all of them. -/
theorem shares_rootKey {first : α} {rest : List α}
    (ascending : Ascending key (first :: rest)) :
    Shares key (rootKey key first rest).size (first :: rest) := by
  have reach : ∀ a, a ∈ first :: rest →
      (rootKey key first rest).size ≤ commonLength (key first) (key a) := by
    intro a member
    rw [size_rootKey_eq]
    exact commonLength_le_of_isLE (isLE_first ascending member)
      (isLE_last ascending member)
  intro a a_mem b b_mem
  have least := min_commonLength_le (key a) (key first) (key b)
  rw [commonLength_comm (key a)] at least
  have left := reach a a_mem
  have right := reach b b_mem
  omega

theorem le_size_rootKey {n : Nat} {first : α} {rest : List α}
    (shares : Shares key n (first :: rest)) : n ≤ (rootKey key first rest).size := by
  rw [size_rootKey_eq]
  exact shares first List.mem_cons_self _ (last_mem first rest)

/-! Forks. -/

/-- The number of bits shared by the keys on both sides of the gap before `middle`. -/
def gap (key : α → TrieKey) (first : α) (left : List α) (middle : α) : Nat :=
  commonLength (key (last first left)) (key middle)

/-- Ascending items fork before `middle` if the keys next to the gap share less than
the keys on the left, and no more than the keys on the right.  A single item may
stand on the left alone. -/
structure Fork (key : α → TrieKey) (first : α) (left : List α)
    (middle : α) (right : List α) : Prop where
  ascending : Ascending key (first :: (left ++ middle :: right))
  inner : left = [] ∨
    Shares key (gap key first left middle + 1) (first :: left)
  outer : Shares key (gap key first left middle) (middle :: right)

theorem last_map {β : Type} (f : β → α) (first : β) (rest : List β) :
    last (f first) (rest.map f) = f (last first rest) :=
  List.getLast_map (f := f) (l := first :: rest) (by simp)

theorem rootKey_map {β : Type} (f : β → α) (first : β) (rest : List β) :
    rootKey key (f first) (rest.map f) = rootKey (fun b => key (f b)) first rest :=
  congrArg (fun a => (key (f first)).commonPrefix (key a)) (last_map f first rest)

theorem gap_map {β : Type} (f : β → α) (first : β) (left : List β) (middle : β) :
    gap key (f first) (left.map f) (f middle) =
      gap (fun b => key (f b)) first left middle := by
  rw [gap, last_map, gap]

theorem Shares.map {β : Type} {f : β → α} {n : Nat} {items : List β}
    (shares : Shares (fun b => key (f b)) n items) : Shares key n (items.map f) := by
  intro a a_mem b b_mem
  obtain ⟨c, c_mem, rfl⟩ := List.mem_map.mp a_mem
  obtain ⟨d, d_mem, rfl⟩ := List.mem_map.mp b_mem
  exact shares c c_mem d d_mem

namespace Fork

variable {first middle : α} {left right : List α}

theorem ascending_left (fork : Fork key first left middle right) :
    Ascending key (first :: left) :=
  List.Pairwise.sublist (List.sublist_append_left (first :: left) (middle :: right))
    fork.ascending

theorem ascending_right (fork : Fork key first left middle right) :
    Ascending key (middle :: right) :=
  List.Pairwise.sublist (List.sublist_append_right (first :: left) (middle :: right))
    fork.ascending

theorem lt_of_mem (fork : Fork key first left middle right) {a b : α}
    (a_mem : a ∈ first :: left) (b_mem : b ∈ middle :: right) :
    compare (key a) (key b) = .lt := by
  have ordered := List.pairwise_append.mp
    (show ((first :: left) ++ (middle :: right)).Pairwise _ from fork.ascending)
  exact ordered.2.2 a a_mem b b_mem

theorem shares_left (fork : Fork key first left middle right) :
    Shares key (gap key first left middle) (first :: left) := by
  rcases fork.inner with alone | shares
  · subst alone
    exact shares_singleton (commonLength_le_left _ _)
  · exact shares.mono (Nat.le_succ _)

theorem shares (fork : Fork key first left middle right) :
    Shares key (gap key first left middle)
      (first :: (left ++ middle :: right)) :=
  fork.shares_left.append fork.outer (last_mem first left) List.mem_cons_self
    (Nat.le_refl _)

/-- Any two keys on different sides share what the neighbours of the gap share. -/
theorem commonLength_eq (fork : Fork key first left middle right) {a b : α}
    (a_mem : a ∈ first :: left) (b_mem : b ∈ middle :: right) :
    commonLength (key a) (key b) = gap key first left middle := by
  apply Nat.le_antisymm
  · have gap :=
      Ordering.isLE_of_eq_lt (fork.lt_of_mem (last_mem first left) List.mem_cons_self)
    have before := isLE_last fork.ascending_left a_mem
    have after := isLE_first fork.ascending_right b_mem
    have outside := commonLength_of_isLE before (Std.TransCmp.isLE_trans gap after)
    have inside := commonLength_of_isLE gap after
    rw [Trie.gap]
    omega
  · exact fork.shares a (List.mem_append_left (middle :: right) a_mem) b
      (List.mem_append_right (first :: left) b_mem)

theorem rootKey_eq (fork : Fork key first left middle right) :
    rootKey key first (left ++ middle :: right) =
      (key (last first left)).commonPrefix (key middle) := by
  have outermost : (first :: (left ++ middle :: right)).getLast (List.cons_ne_nil _ _) =
      last middle right := last_append first left middle right
  have meet := fork.commonLength_eq List.mem_cons_self (last_mem middle right)
  rw [rootKey, outermost]
  apply commonPrefix_congr meet
  intro i below
  rw [meet] at below
  have along := fork.shares_left first List.mem_cons_self _ (last_mem first left)
  exact bit_eq_of_lt_commonLength (Nat.lt_of_lt_of_le below along)

@[simp] theorem size_rootKey (fork : Fork key first left middle right) :
    (rootKey key first (left ++ middle :: right)).size =
      gap key first left middle := by
  rw [fork.rootKey_eq, size_commonPrefix, gap]

theorem bit_right (fork : Fork key first left middle right)
    (longer : gap key first left middle < (key first).size) {a : α}
    (member : a ∈ middle :: right) :
    gap key first left middle < (key a).size ∧
      (key a).bit (gap key first left middle) = true := by
  have less := lt_iff.mp (fork.lt_of_mem List.mem_cons_self member)
  rw [fork.commonLength_eq List.mem_cons_self member] at less
  exact ⟨less.1, less.2 longer⟩

theorem bit_left (fork : Fork key first left middle right)
    (longer : gap key first left middle < (key first).size) {a : α}
    (member : a ∈ first :: left) :
    gap key first left middle < (key a).size ∧
      (key a).bit (gap key first left middle) = false := by
  obtain ⟨inside, one⟩ := fork.bit_right longer List.mem_cons_self
  have size : gap key first left middle < (key a).size := by
    rcases fork.inner with alone | shares
    · subst alone
      rcases List.mem_singleton.mp member with rfl
      exact longer
    · have whole := shares a member a member
      rw [commonLength_self] at whole
      exact whole
  have meet := fork.commonLength_eq member List.mem_cons_self
  have apart :=
    bit_ne_commonLength (a := key a) (b := key middle) (meet ▸ size) (meet ▸ inside)
  rw [meet, one] at apart
  exact ⟨size, eq_false_of_ne_true apart⟩

theorem shares_left_succ (fork : Fork key first left middle right)
    (longer : gap key first left middle < (key first).size) :
    Shares key (gap key first left middle + 1) (first :: left) := by
  intro a a_mem b b_mem
  obtain ⟨a_size, a_bit⟩ := fork.bit_left longer a_mem
  obtain ⟨b_size, b_bit⟩ := fork.bit_left longer b_mem
  exact lt_commonLength (fork.shares_left a a_mem b b_mem) a_size b_size
    (a_bit.trans b_bit.symm)

theorem shares_right_succ (fork : Fork key first left middle right)
    (longer : gap key first left middle < (key first).size) :
    Shares key (gap key first left middle + 1) (middle :: right) := by
  intro a a_mem b b_mem
  obtain ⟨a_size, a_bit⟩ := fork.bit_right longer a_mem
  obtain ⟨b_size, b_bit⟩ := fork.bit_right longer b_mem
  exact lt_commonLength (fork.outer a a_mem b b_mem) a_size b_size (a_bit.trans b_bit.symm)

theorem split_eq (fork : Fork key first left middle right) :
    split key first (left ++ middle :: right) = (left, middle :: right) := by
  unfold split
  simp only [fork.size_rootKey]
  split
  · rename_i ends
    rcases fork.inner with alone | shares
    · subst alone
      rfl
    · have whole := shares first List.mem_cons_self first List.mem_cons_self
      rw [commonLength_self] at whole
      omega
  · rename_i goes_on
    have least := fork.shares_left first List.mem_cons_self first List.mem_cons_self
    rw [commonLength_self] at least
    have longer : gap key first left middle < (key first).size := by omega
    have clear : ∀ a, a ∈ left → (!(key a).bit
        (gap key first left middle)) = true := by
      intro a member
      rw [(fork.bit_left longer (List.mem_cons_of_mem first member)).2]
      rfl
    have set := (fork.bit_right longer List.mem_cons_self).2
    rw [List.takeWhile_append_of_pos clear, List.dropWhile_append_of_pos clear]
    rw [List.takeWhile_cons_of_neg (by simp [set]),
      List.dropWhile_cons_of_neg (by simp [set]), List.append_nil]

theorem exists_split (fork : Fork key first left middle right) :
    ∃ next others, left ++ middle :: right = next :: others ∧
      split key first (next :: others) = (left, middle :: right) := by
  obtain ⟨next, others, same⟩ :=
    List.exists_cons_of_ne_nil (show left ++ middle :: right ≠ [] by simp)
  exact ⟨next, others, same, same ▸ fork.split_eq⟩

theorem map {β : Type} {f : β → α} {first middle : β} {left right : List β}
    (fork : Fork (fun b => key (f b)) first left middle right) :
    Fork key (f first) (left.map f) (f middle) (right.map f) where
  ascending := by
    have whole : Ascending key ((first :: (left ++ middle :: right)).map f) :=
      List.pairwise_map.mpr fork.ascending
    simpa only [List.map_cons, List.map_append] using whole
  inner := by
    rw [gap_map]
    rcases fork.inner with alone | shares
    · exact .inl (by rw [alone, List.map_nil])
    · exact .inr shares.map
  outer := by
    rw [gap_map]
    exact fork.outer.map

end Fork

/-- Where the first key goes on past the root's, it goes on with a clear bit and the
last key with a set one. -/
theorem bits_past_rootKey {first : α} {rest : List α}
    (ascending : Ascending key (first :: rest)) (more : rest ≠ [])
    (longer : (rootKey key first rest).size < (key first).size) :
    (key first).bit (rootKey key first rest).size = false ∧
      (key (last first rest)).bit (rootKey key first rest).size = true := by
  have later : last first rest ∈ rest := by
    cases rest with
    | nil => contradiction
    | cons next rest => exact last_mem next rest
  rw [size_rootKey_eq] at longer ⊢
  obtain ⟨inside, one⟩ := lt_iff.mp ((List.pairwise_cons.mp ascending).1 _ later)
  have apart := bit_ne_commonLength longer inside
  rw [one longer] at apart
  exact ⟨eq_false_of_ne_true apart, one longer⟩

theorem exists_fork_of_ends {first : α} {rest : List α}
    (ascending : Ascending key (first :: rest)) (more : rest ≠ [])
    (ends : (key first).size = (rootKey key first rest).size) :
    ∃ left middle right, rest = left ++ middle :: right ∧
      Fork key first left middle right := by
  cases rest with
  | nil => contradiction
  | cons middle right =>
      refine ⟨[], middle, right, rfl, ascending, .inl rfl, ?_⟩
      have shares := shares_rootKey ascending
      have bound := commonLength_le_left (key first) (key middle)
      intro a a_mem b b_mem
      have both :=
        shares a (List.mem_cons_of_mem first a_mem) b (List.mem_cons_of_mem first b_mem)
      exact Nat.le_trans bound (ends ▸ both)

/-- Items that share `n` bits fork before the first one that goes on with a set bit. -/
theorem fork_of_bits {n : Nat} {first middle : α} {left right : List α}
    (ascending : Ascending key (first :: (left ++ middle :: right)))
    (shares : Shares key n (first :: (left ++ middle :: right)))
    (longer : n < (key first).size)
    (clear : ∀ a ∈ first :: left, (key a).bit n = false)
    (set : (key middle).bit n = true) :
    Fork key first left middle right := by
  have sizes : ∀ a, a ∈ first :: (left ++ middle :: right) → n < (key a).size := by
    intro a member
    rcases List.mem_cons.mp member with rfl | later
    · exact longer
    · have less := lt_iff.mp ((List.pairwise_cons.mp ascending).1 a later)
      exact Nat.lt_of_le_of_lt (shares first List.mem_cons_self a member) less.1
  have on_left : first :: left ⊆ first :: (left ++ middle :: right) :=
    List.subset_append_left (first :: left) (middle :: right)
  have meets : gap key first left middle = n := by
    have member := last_mem first left
    apply Nat.le_antisymm
    · apply Nat.le_of_not_lt
      intro further
      have same := bit_eq_of_lt_commonLength further
      rw [clear _ member, set] at same
      contradiction
    · exact shares _ (on_left member) middle (by simp)
  refine ⟨ascending, .inr ?_, ?_⟩
  · rw [meets]
    intro a a_mem b b_mem
    exact lt_commonLength (shares a (on_left a_mem) b (on_left b_mem))
      (sizes a (on_left a_mem)) (sizes b (on_left b_mem))
      ((clear a a_mem).trans (clear b b_mem).symm)
  · rw [meets]
    exact shares.subset (List.subset_append_right (first :: left) (middle :: right))

theorem exists_fork_of_goes_on {first : α} {rest : List α}
    (ascending : Ascending key (first :: rest)) (more : rest ≠ [])
    (longer : (rootKey key first rest).size < (key first).size) :
    ∃ left middle right, rest = left ++ middle :: right ∧
      Fork key first left middle right := by
  have shares := shares_rootKey ascending
  obtain ⟨zero, one⟩ := bits_past_rootKey ascending more longer
  have ends := last_mem first rest
  generalize (rootKey key first rest).size = n at *
  obtain ⟨middle, found⟩ :
      ∃ middle, rest.find? (fun a => (key a).bit n) = some middle := by
    apply Option.isSome_iff_exists.mp
    apply List.find?_isSome.mpr
    rcases List.mem_cons.mp ends with same | later
    · rw [same, zero] at one
      contradiction
    · exact ⟨_, later, one⟩
  obtain ⟨set, left, right, parts, clear⟩ := List.find?_eq_some_iff_append.mp found
  subst parts
  have clear_left : ∀ a ∈ first :: left, (key a).bit n = false :=
    List.forall_mem_cons.mpr ⟨zero, by simpa using clear⟩
  exact ⟨left, middle, right, rfl, fork_of_bits ascending shares longer clear_left set⟩

theorem exists_fork {first : α} {rest : List α} (ascending : Ascending key (first :: rest))
    (more : rest ≠ []) :
    ∃ left middle right, rest = left ++ middle :: right ∧
      Fork key first left middle right := by
  have whole := shares_rootKey ascending first List.mem_cons_self first List.mem_cons_self
  rw [commonLength_self] at whole
  rcases Nat.eq_or_lt_of_le whole with ends | longer
  · exact exists_fork_of_ends ascending more ends.symm
  · exact exists_fork_of_goes_on ascending more longer

@[elab_as_elim] theorem fork_induction {motive : α → List α → Prop}
    (single : ∀ first, motive first [])
    (join : ∀ first left middle right, Fork key first left middle right →
      motive first left → motive middle right → motive first (left ++ middle :: right)) :
    ∀ {first : α} {rest : List α}, Ascending key (first :: rest) → motive first rest := by
  intro first rest ascending
  induction size : rest.length using Nat.strongRecOn generalizing first rest with
  | ind n ih =>
      by_cases more : rest = []
      · subst more
        exact single first
      · obtain ⟨left, middle, right, rfl, fork⟩ := exists_fork ascending more
        rw [List.length_append, List.length_cons] at size
        exact join first left middle right fork
          (ih left.length (by omega) fork.ascending_left rfl)
          (ih right.length (by omega) fork.ascending_right rfl)

/-! The trie that is built. -/

@[simp] theorem build_nil (first : Subtree) : build first [] = first := by
  rw [build]

theorem branchBytes_eq (left right : Subtree) :
    branchBytes left right = (branchPreimage left right).bytes := by
  simp [branchBytes, branchPreimage, Preimage.bytes]

theorem branchAt_eq_merge (key : TrieKey) (left right : Subtree) :
    branchAt key left right = .merge key left right := by
  rw [branchAt, branchBytes_eq]
  rfl

theorem Fork.build_eq {first middle : Subtree} {left right : List Subtree}
    (fork : Fork Subtree.key first left middle right) :
    build first (left ++ middle :: right) =
      .merge ((last first left).key.commonPrefix middle.key) (build first left)
        (build middle right) := by
  obtain ⟨next, others, same, parts⟩ := fork.exists_split
  have root := fork.rootKey_eq
  rw [same] at root ⊢
  rw [build]
  split
  · rename_i whole
    rw [parts] at whole
    cases whole
  · rename_i whole
    rw [parts] at whole
    cases whole
    rw [branchAt_eq_merge, root]

theorem key_build {first : Subtree} {rest : List Subtree}
    (ascending : Ascending Subtree.key (first :: rest)) (more : rest ≠ []) :
    (build first rest).key = rootKey Subtree.key first rest := by
  obtain ⟨left, middle, right, rfl, fork⟩ := exists_fork ascending more
  rw [fork.build_eq, fork.rootKey_eq]
  rfl

theorem size_build {first : Subtree} {rest : List Subtree}
    (ascending : Ascending Subtree.key (first :: rest)) :
    (build first rest).key.size = (rootKey Subtree.key first rest).size := by
  by_cases more : rest = []
  · subst more
    rw [build_nil, size_rootKey_eq, last, List.getLast_singleton, commonLength_self]
  · rw [key_build ascending more]

theorem bit_build {first : Subtree} {rest : List Subtree}
    (ascending : Ascending Subtree.key (first :: rest)) {i : Nat}
    (below : i < (build first rest).key.size) :
    (build first rest).key.bit i = first.key.bit i := by
  by_cases more : rest = []
  · subst more
    rw [build_nil]
  · obtain ⟨left, middle, right, rfl, fork⟩ := exists_fork ascending more
    have shares := fork.shares_left first List.mem_cons_self _ (last_mem first left)
    rw [size_build ascending, fork.size_rootKey, gap] at below
    rw [fork.build_eq, Subtree.merge, bit_commonPrefix, decide_eq_true below,
      Bool.true_and]
    exact (bit_eq_of_lt_commonLength (Nat.lt_of_lt_of_le below shares)).symm

theorem commonLength_build {first : Subtree} {rest : List Subtree}
    (ascending : Ascending Subtree.key (first :: rest)) {a : Subtree}
    (member : a ∈ first :: rest) :
    commonLength (build first rest).key a.key = (build first rest).key.size := by
  apply Nat.le_antisymm (commonLength_le_left _ _)
  have shares := shares_rootKey ascending first List.mem_cons_self a member
  rw [← size_build ascending] at shares
  refine le_commonLength_iff.mpr
    ⟨Nat.le_refl _, Nat.le_trans shares (commonLength_le_right _ _), ?_⟩
  intro i below
  rw [bit_build ascending below]
  exact bit_eq_of_lt_commonLength (Nat.lt_of_lt_of_le below shares)

theorem le_commonLength_build {n : Nat} {first : Subtree} {rest : List Subtree}
    (ascending : Ascending Subtree.key (first :: rest))
    (shares : Shares Subtree.key n (first :: rest)) {a : Subtree}
    (member : a ∈ first :: rest) :
    n ≤ commonLength (build first rest).key a.key := by
  rw [commonLength_build ascending member, size_build ascending]
  exact le_size_rootKey shares

namespace Fork

variable {first middle : Subtree} {left right : List Subtree}

theorem commonPrefix_build (fork : Fork Subtree.key first left middle right) :
    (build first left).key.commonPrefix (build middle right).key =
      (last first left).key.commonPrefix middle.key := by
  have on_left := commonLength_build fork.ascending_left (last_mem first left)
  have on_right := commonLength_build fork.ascending_right List.mem_cons_self
  have left_size := le_size_rootKey fork.shares_left
  have right_size := le_size_rootKey fork.outer
  rw [← size_build fork.ascending_left] at left_size
  rw [← size_build fork.ascending_right] at right_size
  have sizes : commonLength (build first left).key (build middle right).key =
      gap Subtree.key first left middle := by
    apply Nat.le_antisymm
    · have bound_left :=
        commonLength_le_left (build first left).key (build middle right).key
      have bound_right :=
        commonLength_le_right (build first left).key (build middle right).key
      have outer := min_commonLength_le (last first left).key (build first left).key
        (build middle right).key
      have inner := min_commonLength_le (last first left).key
        (build middle right).key middle.key
      rw [commonLength_comm (last first left).key] at outer
      rw [gap]
      omega
    · have outer := min_commonLength_le (build first left).key (last first left).key
        (build middle right).key
      have inner := min_commonLength_le (last first left).key middle.key
        (build middle right).key
      rw [commonLength_comm middle.key] at inner
      rw [gap] at left_size right_size ⊢
      omega
  apply commonPrefix_congr sizes
  intro i below
  exact bit_eq_of_lt_commonLength (by omega)

theorem commonLength_build_build (fork : Fork Subtree.key first left middle right) :
    commonLength (build first left).key (build middle right).key =
      gap Subtree.key first left middle := by
  rw [← size_commonPrefix, fork.commonPrefix_build, size_commonPrefix, gap]

/-- The trie on the left comes before the one on the right, unless the latter sits
where the two are joined. -/
theorem build_lt (fork : Fork Subtree.key first left middle right)
    (deeper : right = [] ∨ Shares Subtree.key (gap Subtree.key first left middle + 1)
      (middle :: right)) :
    compare (build first left).key (build middle right).key = .lt := by
  have step := lt_iff.mp (fork.lt_of_mem (last_mem first left) List.mem_cons_self)
  have inside : gap Subtree.key first left middle < (build middle right).key.size := by
    rcases deeper with alone | shares
    · subst alone
      rw [build_nil]
      exact step.1
    · rw [size_build fork.ascending_right]
      exact le_size_rootKey shares
  apply lt_iff.mpr
  rw [fork.commonLength_build_build]
  refine ⟨inside, ?_⟩
  intro longer
  have on_left := commonLength_build fork.ascending_left (last_mem first left)
  have bound := commonLength_le_right (build first left).key (last first left).key
  rw [bit_build fork.ascending_right inside]
  exact step.2 (by rw [← gap]; omega)

end Fork

end MerkleProof.MapProof.Trie
