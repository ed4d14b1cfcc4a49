import Lsl.Proofs.Convert.Item
/-!
# What the conversion asks of a vocabulary

Of a registry the conversion asks the kinds and the fields of the tokens in the tree and nothing
else.  A field follows from the symbol alone, and a kind from the symbol and from whether the token
is registered; so a vocabulary matters only as far as its tokens occur.
-/

namespace Lsl

open Peg

theorem Kind.ofName?_eq_some_iff {name : String} {kind : Kind} :
    ofName? name = some kind ↔ kind.name = name := by
  constructor
  · intro h
    simpa using List.find?_some h
  · rintro rfl
    cases kind <;> decide

variable {τ : Type} [DecidableEq τ] [Vocabulary τ]

namespace Registry

/-- Two registries take a token for the same kind and the same field. -/
def AgreeAt (first second : Registry τ) (token : τ) : Prop :=
  first.kindFor? token = second.kindFor? token ∧ first.fieldFor token = second.fieldFor token

theorem kindFor?_build_eq_some_iff {tokens : List τ} {token : τ} {kind : Kind} :
    (build tokens).kindFor? token = some kind ↔
      token ∈ tokens ∧ kind.name = Text.pascalCase (Vocabulary.symbol token) := by
  rw [kindFor?_build, Option.ite_none_right_eq_some, kindNamed?, Kind.ofName?_eq_some_iff]

theorem agreeAt_build {first second : List τ} {token : τ} (h : token ∈ first ↔ token ∈ second) :
    AgreeAt (build first) (build second) token := by
  refine ⟨?_, by rw [fieldFor_build, fieldFor_build]⟩
  rw [kindFor?_build, kindFor?_build]
  simp only [h]

end Registry

/-! ## Registries that agree on a tree -/

variable {first second : Registry τ}

mutual

/-- The conversion of a tree is settled by what the registry says of the tokens in it. -/
theorem convert_congr : ∀ tree : ParseTree τ,
    (∀ node ∈ tree.walk, first.AgreeAt second node.token) →
    convert first tree = convert second tree
  | ⟨token, text, children⟩, h => by
    have hkind : first.kindFor? token = second.kindFor? token := (h _ List.mem_cons_self).1
    have hchildren : ∀ node ∈ ParseTree.walkAll children, first.AgreeAt second node.token :=
      fun node hnode => h node (List.mem_cons_of_mem _ hnode)
    unfold convert
    rw [hkind]
    split
    · next kind _ => rw [fillFields_congr kind.empty children hchildren]
    · match children with
      | [] | _ :: _ :: _ => rfl
      | [only] =>
        refine convert_congr only fun node hnode => hchildren node ?_
        rw [ParseTree.walkAll, List.mem_append]
        exact .inl hnode

theorem fillFields_congr (node : Node) : ∀ trees : List (ParseTree τ),
    (∀ inner ∈ ParseTree.walkAll trees, first.AgreeAt second inner.token) →
    fillFields first node trees = fillFields second node trees
  | [], _ => rfl
  | ⟨token, text, children⟩ :: rest, h => by
    rw [ParseTree.walkAll, List.forall_mem_append] at h
    obtain ⟨htree, hrest⟩ := h
    have hfield : first.fieldFor token = second.fieldFor token := (htree _ List.mem_cons_self).2
    have hvalues : convertAll first children = convertAll second children :=
      convertAll_congr children fun inner hinner => htree inner (List.mem_cons_of_mem _ hinner)
    have hvalue := convert_congr ⟨token, text, children⟩ htree
    have hnext (next : Node) : fillFields first next rest = fillFields second next rest :=
      fillFields_congr next rest hrest
    simp only [fillFields, hfield, hvalues, hvalue, hnext]

theorem convertAll_congr : ∀ trees : List (ParseTree τ),
    (∀ node ∈ ParseTree.walkAll trees, first.AgreeAt second node.token) →
    convertAll first trees = convertAll second trees
  | [], _ => rfl
  | tree :: rest, h => by
    rw [ParseTree.walkAll, List.forall_mem_append] at h
    rw [convertAll, convertAll, convert_congr tree h.1, convertAll_congr rest h.2]

end

/-- A token builds the kind that its symbol names if it is registered, and fills the field that its
symbol names in any case.  So vocabularies that register the same of the tokens in a tree convert it
to the same element, or fail with the same error. -/
theorem convert_build_eq_of_occurring :
    (∀ (tokens : List τ) (token : τ),
      (∀ kind : Kind, (Registry.build tokens).kindFor? token = some kind ↔
        token ∈ tokens ∧ kind.name = Text.pascalCase (Vocabulary.symbol token)) ∧
      (Registry.build tokens).fieldFor token = Text.snakeCase (Vocabulary.symbol token)) ∧
    ∀ (tree : ParseTree τ) (first second : List τ),
      (∀ node ∈ tree.walk, node.token ∈ first ↔ node.token ∈ second) →
      convert (.build first) tree = convert (.build second) tree := by
  constructor
  · intro tokens token
    exact ⟨fun _ => Registry.kindFor?_build_eq_some_iff, Registry.fieldFor_build tokens token⟩
  · intro tree first second h
    exact convert_congr tree fun node hnode => Registry.agreeAt_build (h node hnode)

/-- The raw tree of a statement, with a rule around the call in it that builds no kind. -/
def sampleReturn : ParseTree String :=
  ⟨"RETURN", "return g(a, 1)", [⟨"PRIMARY", "g(a, 1)", [⟨"CALL", "g(a, 1)",
    [⟨"NAME", "g", []⟩, ⟨"ARGUMENTS", "a, 1", [⟨"IDENT", "a", []⟩, ⟨"INTEGER", "1", []⟩]⟩]⟩]⟩]⟩

/-- Tokens that do not occur may be registered or not, and those that do in any order. -/
theorem convert_build_eq_of_occurring_sample :
    (∀ node ∈ sampleReturn.walk, node.token ∈ ["RETURN", "CALL", "NAME", "IDENT"] ↔
      node.token ∈ ["SCRIPT", "CALL", "IDENT", "RETURN", "NAME", "CALL"]) ∧
    convert (.build ["SCRIPT", "CALL", "IDENT", "RETURN", "NAME", "CALL"]) sampleReturn =
      .ok (.node (.ret (some (.node (.call (some "g") [.text "a", .text "1"]))))) := by
  have htokens : ∀ node ∈ sampleReturn.walk, node.token ∈ ["RETURN", "CALL", "NAME", "IDENT"] ↔
      node.token ∈ ["SCRIPT", "CALL", "IDENT", "RETURN", "NAME", "CALL"] := by decide +kernel
  have hfirst : convert (.build ["RETURN", "CALL", "NAME", "IDENT"]) sampleReturn =
      .ok (.node (.ret (some (.node (.call (some "g") [.text "a", .text "1"]))))) := by rfl
  exact ⟨htokens, (convert_build_eq_of_occurring.2 sampleReturn _ _ htokens).symm.trans hfirst⟩

end Lsl
