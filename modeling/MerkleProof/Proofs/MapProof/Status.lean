import Mathlib.Data.List.Chain
import MerkleProof.Proofs.MapProof.Check
import MerkleProof.Proofs.MapProof.Root

/-! The fault that a check reports is the first one that the entries have.  Neighbours
are all that is compared, and the first two of them that do not ascend tell which
fault of order it is. -/

namespace MerkleProof

def IsFirst {α : Type} (holds : α → Prop) (items : List α) (a : α) : Prop :=
  ∃ earlier later, items = earlier ++ a :: later ∧ holds a ∧ ∀ b ∈ earlier, ¬holds b

section

variable {α : Type} {holds : α → Prop} {items : List α} {a b : α}

@[simp] theorem not_isFirst_nil : ¬IsFirst holds [] a := by
  intro ⟨earlier, later, same, _⟩
  cases earlier <;> contradiction

theorem isFirst_cons_iff :
    IsFirst holds (b :: items) a ↔ holds b ∧ a = b ∨ ¬holds b ∧ IsFirst holds items a := by
  constructor
  · intro ⟨earlier, later, same, here, before⟩
    cases earlier with
    | nil =>
        obtain ⟨rfl, rfl⟩ := List.cons.inj same
        exact .inl ⟨here, rfl⟩
    | cons c earlier =>
        obtain ⟨rfl, rfl⟩ := List.cons.inj same
        obtain ⟨not_b, before⟩ := List.forall_mem_cons.mp before
        exact .inr ⟨not_b, earlier, later, rfl, here, before⟩
  · intro either
    rcases either with ⟨here, rfl⟩ | ⟨not_b, earlier, later, rfl, here, before⟩
    · exact ⟨[], items, rfl, here, List.forall_mem_nil _⟩
    · exact ⟨b :: earlier, later, rfl, here, List.forall_mem_cons.mpr ⟨not_b, before⟩⟩

end

namespace MapProof

open TrieKey Trie

variable {entries : List Entry} {fault : Fault} {strict : Bool}

/-! What is wrong with the order. -/

/-- The first two neighbours that do not ascend compare in the given way, the
second with the first. -/
def FirstFall (entries : List Entry) (step : Ordering) : Prop :=
  ∃ before a b after, entries = before ++ a :: b :: after ∧
    (before ++ [a]).IsChain (fun x y => compare x.key y.key = .lt) ∧
      compare b.key a.key = step

theorem firstFall_cons_iff {a b : Entry} {rest : List Entry} {step : Ordering} :
    FirstFall (a :: b :: rest) step ↔
      compare b.key a.key = step ∨
        compare a.key b.key = .lt ∧ FirstFall (b :: rest) step := by
  constructor
  · intro ⟨before, x, y, after, same, chain, falls⟩
    cases before with
    | nil =>
        cases same
        exact .inl falls
    | cons c before =>
        obtain ⟨rfl, tail⟩ := List.cons.inj same
        obtain ⟨first, chain⟩ := List.isChain_cons.mp chain
        refine .inr ⟨?_, before, x, y, after, tail, chain, falls⟩
        apply first
        cases before <;> cases tail <;> rfl
  · intro either
    rcases either with falls | ⟨rises, before, x, y, after, same, chain, falls⟩
    · exact ⟨[], a, b, rest, rfl, List.isChain_singleton a, falls⟩
    · refine ⟨a :: before, x, y, after, congrArg (a :: ·) same, ?_, falls⟩
      refine List.isChain_cons.mpr ⟨?_, chain⟩
      intro c head
      have head_eq : c = b := by
        cases before <;> cases same <;> cases head <;> rfl
      rw [head_eq]
      exact rises

theorem orderFault?_eq_some_iff : orderFault? entries = some fault ↔
    FirstFall entries .lt ∧ fault = .invalidOrder ∨
      FirstFall entries .eq ∧ fault = .duplicatePath := by
  fun_induction orderFault? entries with
  | case1 a b rest falls =>
      have rises : compare a.key b.key ≠ .lt := by
        rw [Std.OrientedCmp.gt_of_lt falls]
        nofun
      simp [firstFall_cons_iff, falls, rises, eq_comm]
  | case2 a b rest same =>
      have rises : compare a.key b.key ≠ .lt := by
        rw [Std.OrientedCmp.eq_comm.mp same]
        nofun
      simp [firstFall_cons_iff, same, rises, eq_comm]
  | case3 a b rest rises ih =>
      rw [firstFall_cons_iff, firstFall_cons_iff, rises,
        Std.OrientedCmp.lt_of_gt rises, ih]
      simp
  | case4 entries short =>
      have none (step : Ordering) : ¬FirstFall entries step := by
        intro ⟨before, a, b, after, same, _⟩
        cases before with
        | nil => exact short a b after same
        | cons c before => cases before <;> exact short _ _ _ same
      simp [none]

/-! What is wrong with the rest. -/

theorem all_isGenuine_iff : entries.all Entry.isGenuine = true ↔
    ∀ key digest value, Entry.leaf key digest value ∈ entries → digest = sha256 value := by
  rw [List.all_eq_true]
  constructor
  · intro genuine key digest value member
    exact of_decide_eq_true (genuine _ member)
  · intro genuine e member
    cases e with
    | leaf key digest value => exact decide_eq_true (genuine key digest value member)
    | branch key digest => rfl

theorem joinEntries_eq_error_iff : joinEntries entries = .error fault ↔
    (∃ key digest, entries = [.branch key digest]) ∧ fault = .nonTerminalNode := by
  fun_cases joinEntries entries with
  | case3 key digest => simp [eq_comm]
  | _ => simp

/-- Whether a check that may insist on canonical keys turns the entries down for them. -/
def refusesKeys (strict : Bool) (entries : List Entry) : Bool :=
  strict && !entries.all fun e => e.key.isCanonical

theorem rootHash_of_refusesKeys (refused : refusesKeys strict entries = true) :
    rootHash strict entries = .error .nonCanonicalKey :=
  if_pos refused

theorem rootHash_of_acceptsKeys (accepted : ¬refusesKeys strict entries = true) :
    rootHash strict entries =
      match orderFault? entries with
      | some fault => .error fault
      | none =>
          if entries.all Entry.isGenuine then joinEntries entries
          else .error .invalidLeafHash :=
  if_neg accepted

namespace Fault

def inOrder : List Fault :=
  [.nonCanonicalKey, .invalidOrder, .duplicatePath, .invalidLeafHash, .nonTerminalNode]

/-- Whether the entries have a fault; the first of these is a fault only if canonical
keys are insisted on. -/
def IsIn (strict : Bool) (entries : List Entry) : Fault → Prop
  | .nonCanonicalKey => strict = true ∧ ∃ e ∈ entries, e.key.isCanonical = false
  | .invalidOrder => FirstFall entries .lt
  | .duplicatePath => FirstFall entries .eq
  | .invalidLeafHash =>
      ∃ key digest value, Entry.leaf key digest value ∈ entries ∧ digest ≠ sha256 value
  | .nonTerminalNode => ∃ key digest, entries = [.branch key digest]

theorem nonCanonicalKey_isIn_iff :
    Fault.nonCanonicalKey.IsIn strict entries ↔ refusesKeys strict entries = true := by
  simp [IsIn, refusesKeys]

theorem order_isIn_iff (order : fault = .invalidOrder ∨ fault = .duplicatePath) :
    fault.IsIn strict entries ↔ orderFault? entries = some fault := by
  rw [orderFault?_eq_some_iff]
  rcases order with rfl | rfl <;> simp [IsIn]

theorem invalidLeafHash_isIn_iff :
    Fault.invalidLeafHash.IsIn strict entries ↔ entries.all Entry.isGenuine = false := by
  rw [← Bool.not_eq_true, all_isGenuine_iff]
  simp [IsIn]

end Fault

theorem rootHash_eq_error_iff : rootHash strict entries = .error fault ↔
    IsFirst (Fault.IsIn strict entries) Fault.inOrder fault := by
  simp only [Fault.inOrder, isFirst_cons_iff, not_isFirst_nil, and_false, or_false,
    Fault.nonCanonicalKey_isIn_iff, Fault.order_isIn_iff (.inl rfl),
    Fault.order_isIn_iff (.inr rfl), Fault.invalidLeafHash_isIn_iff]
  by_cases keys : refusesKeys strict entries = true
  · rw [rootHash_of_refusesKeys keys]
    simp only [keys, true_and, not_true_eq_false, false_and, or_false, Except.error.injEq]
    exact eq_comm
  · rw [rootHash_of_acceptsKeys keys]
    cases order : orderFault? entries with
    | some other =>
        rcases orderFault?_eq_some_iff.mp order with ⟨_, rfl⟩ | ⟨_, rfl⟩
        · simpa [keys] using eq_comm
        · simpa [keys] using eq_comm
    | none =>
        cases genuine : entries.all Entry.isGenuine with
        | false => simpa [keys] using eq_comm
        | true => simp [keys, joinEntries_eq_error_iff, Fault.IsIn]

theorem exists_joinEntries_eq_ok_iff :
    (∃ root, joinEntries entries = .ok root) ↔
      ∀ key digest, entries ≠ [.branch key digest] := by
  constructor
  · intro ⟨root, joined⟩ key digest alone
    rw [alone] at joined
    contradiction
  · intro several
    cases joined : joinEntries entries with
    | ok root => exact ⟨root, rfl⟩
    | error fault =>
        obtain ⟨⟨key, digest, alone⟩, _⟩ := joinEntries_eq_error_iff.mp joined
        exact absurd alone (several key digest)

theorem exists_rootHash_eq_ok_iff :
    (∃ root, rootHash strict entries = .ok root) ↔
      (strict = true → ∀ e ∈ entries, e.key.isCanonical = true) ∧
        Ascending Entry.key entries ∧ (∀ e ∈ entries, e.isGenuine = true) ∧
          ∃ root, joinEntries entries = .ok root := by
  simp only [rootHash_eq_ok_iff, exists_and_left]

variable {p : MapProof} {config : Config}

theorem exists_check_eq_ok_iff :
    (∃ contents, check p config = .ok contents) ↔
      ∃ root, rootHash config.strictKeys p.entries = .ok root := by
  constructor
  · intro ⟨contents, checked⟩
    exact ⟨contents.rootHash, (check_eq_ok_iff.mp checked).1⟩
  · intro ⟨root, joined⟩
    exact ⟨⟨root, p.present, p.missing⟩, check_eq_ok_iff.mpr ⟨joined, rfl, rfl⟩⟩

theorem check_eq_error_iff :
    check p config = .error fault ↔
      rootHash config.strictKeys p.entries = .error fault := by
  rw [check]
  cases rootHash config.strictKeys p.entries <;> simp [Except.map]

/-- A proof is accepted if all its keys are canonical, as far as that is insisted on, if
each of them is smaller than all that come after it, if the digest of every leaf is that of
its value, and if there is more to it than one pruned subtree.  Otherwise the check reports
the first fault of the proof. -/
theorem check_reports_first_fault (p : MapProof) (config : Config) :
    ((∃ contents, check p config = .ok contents) ↔
      (config.strictKeys = true → ∀ e ∈ p.entries, e.key.isCanonical = true) ∧
      (∀ i j : Fin p.entries.length, i < j →
        compare (p.entries.get i).key (p.entries.get j).key = .lt) ∧
      (∀ key digest value, Entry.leaf key digest value ∈ p.entries →
        digest = sha256 value) ∧
      ∀ key digest, p.entries ≠ [.branch key digest]) ∧
    ∀ fault, check p config = .error fault ↔
      IsFirst (Fault.IsIn config.strictKeys p.entries) Fault.inOrder fault := by
  constructor
  · rw [exists_check_eq_ok_iff, exists_rootHash_eq_ok_iff, Ascending,
      List.pairwise_iff_get, ← all_isGenuine_iff, List.all_eq_true,
      exists_joinEntries_eq_ok_iff]
  · intro fault
    rw [check_eq_error_iff, rootHash_eq_error_iff]

end MapProof

end MerkleProof
