import MerkleProof.Json.Printer
import MerkleProof.Json.Reader
import MerkleProof.Proofs.Json.Token

/-! Values are read back from their tokens, and texts, arrays and objects also from
what is written for them. -/

namespace MerkleProof.Json

namespace Progress

def run (p : Progress) (tokens : List Token) : Option Progress := tokens.foldlM step p

@[simp] theorem run_nil (p : Progress) : p.run [] = some p := rfl

@[simp] theorem run_cons (p : Progress) (t : Token) (tokens : List Token) :
    p.run (t :: tokens) = (p.step t).bind fun p => p.run tokens := rfl

@[simp] theorem run_append (p : Progress) (tokens more : List Token) :
    p.run (tokens ++ more) = (p.run tokens).bind fun p => p.run more := by
  rw [run, List.foldlM_append]
  rfl

theorem run_firstItem (v : Json) (frames : List Frame) :
    run (.firstItem frames) v.tokens = run (.value (.array [] :: frames)) v.tokens := by
  cases v with
  | array items => cases items <;> rfl
  | object members => cases members <;> rfl
  | _ => rfl

mutual

/-- A value is complete at the end of its tokens, in whatever it stands. -/
theorem run_tokens (v : Json) (frames : List Frame) :
    run (.value frames) v.tokens = some (.complete v frames) := by
  cases v with
  | null | bool value | number literal | string text => rfl
  | array items =>
      cases items with
      | nil => rfl
      | cons item items =>
          simp only [tokens, run_cons, run_append, step, begin, Option.bind_some,
            run_firstItem, run_tokens item, run_itemTokens items, List.reverse_singleton,
            List.singleton_append]
  | object members =>
      cases members with
      | nil => rfl
      | cons member members =>
          obtain ⟨name, value⟩ := member
          simp only [tokens, run_cons, run_append, step, begin, Option.bind_some,
            run_tokens value, run_memberTokens members, List.reverse_singleton,
            List.singleton_append]

theorem run_itemTokens (items : List Json) (v : Json) (done : List Json)
    (frames : List Frame) :
    run (.complete v (.array done :: frames)) (itemTokens items) =
      some (.complete (.array ((v :: done).reverse ++ items)) frames) := by
  cases items with
  | nil => rw [List.append_nil]; rfl
  | cons item items =>
      simp only [itemTokens, run_cons, run_append, step, Option.bind_some, run_tokens item,
        run_itemTokens items, List.reverse_cons, List.append_assoc, List.cons_append,
        List.nil_append]

theorem run_memberTokens (members : List (Option String × Json)) (v : Json)
    (done : List (Option String × Json)) (label : Option String) (frames : List Frame) :
    run (.complete v (.object done label :: frames)) (memberTokens members) =
      some (.complete (.object (((label, v) :: done).reverse ++ members)) frames) := by
  cases members with
  | nil => rw [List.append_nil]; rfl
  | cons member members =>
      obtain ⟨name, value⟩ := member
      simp only [memberTokens, run_cons, run_append, step, Option.bind_some,
        run_tokens value, run_memberTokens members, List.reverse_cons, List.append_assoc,
        List.cons_append, List.nil_append]

end

end Progress

theorem ofTokens?_tokens (v : Json) : ofTokens? v.tokens = some v := by
  have read := Progress.run_tokens v []
  rw [Progress.run] at read
  rw [ofTokens?, read]
  rfl

/-! What is written. -/

/-- A value that is made of texts, arrays and objects. -/
def Written (v : Json) : Prop := ∀ t ∈ v.tokens, t.Delimited

theorem written_ofText (text : String) : (ofText text).Written :=
  List.forall_mem_singleton.mpr rfl

theorem written_array {items : List Json} (written : ∀ item ∈ items, item.Written) :
    (array items).Written := by
  have later (items : List Json) (written : ∀ item ∈ items, item.Written) :
      ∀ t ∈ itemTokens items, t.Delimited := by
    induction items with
    | nil => exact List.forall_mem_singleton.mpr trivial
    | cons item items ih =>
        obtain ⟨first, rest⟩ := List.forall_mem_cons.mp written
        exact List.forall_mem_cons.mpr ⟨trivial,
          List.forall_mem_append.mpr ⟨first, ih rest⟩⟩
  cases items with
  | nil => exact List.forall_mem_cons.mpr ⟨trivial, List.forall_mem_singleton.mpr trivial⟩
  | cons item items =>
      obtain ⟨first, rest⟩ := List.forall_mem_cons.mp written
      exact List.forall_mem_cons.mpr
        ⟨trivial, List.forall_mem_append.mpr ⟨first, later items rest⟩⟩

theorem written_object {members : List (Option String × Json)}
    (written : ∀ m ∈ members, m.1.isSome = true ∧ m.2.Written) :
    (object members).Written := by
  have later (members : List (Option String × Json))
      (written : ∀ m ∈ members, m.1.isSome = true ∧ m.2.Written) :
      ∀ t ∈ memberTokens members, t.Delimited := by
    induction members with
    | nil => exact List.forall_mem_singleton.mpr trivial
    | cons m members ih =>
        obtain ⟨⟨named, value⟩, rest⟩ := List.forall_mem_cons.mp written
        simp only [memberTokens, List.forall_mem_cons, List.forall_mem_append]
        exact ⟨trivial, named, trivial, value, ih rest⟩
  cases members with
  | nil => exact List.forall_mem_cons.mpr ⟨trivial, List.forall_mem_singleton.mpr trivial⟩
  | cons m members =>
      obtain ⟨⟨named, value⟩, rest⟩ := List.forall_mem_cons.mp written
      simp only [Written, tokens, List.forall_mem_cons, List.forall_mem_append]
      exact ⟨trivial, named, trivial, value, later members rest⟩

theorem written_tagged {name : String} {body : Json} (written : body.Written) :
    (tagged name body).Written :=
  written_object (List.forall_mem_singleton.mpr ⟨rfl, written⟩)

theorem ofText?_render {v : Json} (written : v.Written) : ofText? v.render = some v := by
  rw [ofText?, ofSymbols?, render, String.toList_ofList, tokens?_flatMap_chars written,
    Option.bind_some, ofTokens?_tokens]

end MerkleProof.Json
