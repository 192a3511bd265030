import Mathlib.Data.List.Perm.Basic

/-! Lists whose items are read one by one, none of which may fail. -/

namespace MerkleProof

open List (Forall₂)

variable {α β : Type} {f : α → Option β}

theorem mapM_eq_some_iff {as : List α} {bs : List β} :
    as.mapM f = some bs ↔ Forall₂ (fun a b => f a = some b) as bs := by
  induction as generalizing bs with
  | nil =>
      rw [List.mapM_nil, List.forall₂_nil_left_iff]
      exact Option.some_inj.trans eq_comm
  | cons a as ih =>
      rw [List.mapM_cons, List.forall₂_cons_left_iff]
      cases first : f a with
      | none => simp
      | some b =>
          cases rest : as.mapM f with
          | none =>
              have never (others : List β) :
                  ¬Forall₂ (fun a b => f a = some b) as others := by
                rw [← ih, rest]
                nofun
              simp [never]
          | some others =>
              simp [← ih, rest, eq_comm]

theorem mem_mapM_iff {as : List α} {bs : List β}
    (read : as.mapM f = some bs) {b : β} : b ∈ bs ↔ ∃ a ∈ as, f a = some b := by
  induction mapM_eq_some_iff.mp read with
  | nil => simp
  | @cons a c as bs first rest ih =>
      rw [List.mem_cons, ih (mapM_eq_some_iff.mpr rest)]
      simp [first, eq_comm]

theorem exists_mapM_iff {as : List α} :
    (∃ bs, as.mapM f = some bs) ↔ ∀ a ∈ as, ∃ b, f a = some b := by
  induction as with
  | nil => simp
  | cons a as ih =>
      rw [List.forall_mem_cons, ← ih, List.mapM_cons]
      cases f a <;> cases as.mapM f <;> simp

theorem perm_of_mapM {as as' : List α} {bs : List β} (perm : as.Perm as')
    (read : as.mapM f = some bs) : ∃ bs', as'.mapM f = some bs' ∧ bs.Perm bs' := by
  obtain ⟨bs', each, perm'⟩ := List.perm_comp_forall₂ perm.symm (mapM_eq_some_iff.mp read)
  exact ⟨bs', mapM_eq_some_iff.mpr each, perm'.symm⟩

theorem rel_mapM_of_perm {as as' : List α} (perm : as.Perm as') :
    Option.Rel List.Perm (as.mapM f) (as'.mapM f) := by
  cases read : as.mapM f with
  | some bs =>
      obtain ⟨bs', read', perm'⟩ := perm_of_mapM perm read
      rw [read']
      exact .some perm'
  | none =>
      cases read' : as'.mapM f with
      | none => exact .none
      | some bs' =>
          obtain ⟨bs, other, -⟩ := perm_of_mapM perm.symm read'
          rw [read] at other
          contradiction

end MerkleProof
