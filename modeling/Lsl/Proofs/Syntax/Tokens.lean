import Lsl.Proofs.Syntax.Splitting
/-!
# The tokens of a grouped expression

The tokens of an expression are the elements that it is grouped from, from left to right: texts, and
nodes other than expressions.  Whatever is grouped, with its operators in any place and with parts that
are grouped already, the tokens stay what they were.
-/

namespace Lsl

mutual

/-- The tokens of a node: those of the operation that an expression holds, and any other node itself. -/
def Node.tokens : Node → List Element
  | .value operation | .expression operation | .condition operation => operation.tokens
  | other => [.node other]

/-- The tokens of an element: a text itself, or those of a node. -/
def Element.tokens : Element → List Element
  | .text text => [.text text]
  | .node node => node.tokens

/-- The tokens of the left side, the center and the right side, as far as they are there. -/
def Operation.tokens : Operation → List Element
  | ⟨left?, center?, right?⟩ => nodeTokens? left? ++ elementTokens? center? ++ nodeTokens? right?

def nodeTokens? : Option Node → List Element
  | some node => node.tokens
  | none => []

def elementTokens? : Option Element → List Element
  | some element => element.tokens
  | none => []

end

theorem Operation.tokens_leaf (center : Element) :
    (Operation.leaf center).tokens = center.tokens := by
  simp [leaf, tokens, nodeTokens?, elementTokens?]

/-- As an operand, an element stands for its own tokens. -/
theorem Element.tokens_toOperand (element : Element) : element.toOperand.tokens = element.tokens := by
  cases element with
  | text text => rw [toOperand, Node.tokens, Operation.tokens_leaf]
  | node node =>
    rw [toOperand]
    split
    · rw [Element.tokens]
    · rw [Node.tokens, Operation.tokens_leaf]

/-- However elements are split, grouping them keeps their tokens. -/
theorem Splitting.tokens_group {s : Splitting} (values : List Element) :
    (∀ {operation}, s.group values = .ok operation →
      operation.tokens = values.flatMap Element.tokens) ∧
    ∀ {side?}, s.side values = .ok side? → nodeTokens? side? = values.flatMap Element.tokens := by
  refine group_induction (fun values operation => operation.tokens = values.flatMap Element.tokens)
    (fun values side? => nodeTokens? side? = values.flatMap Element.tokens) ?_ ?_ ?_ ?_ ?_ values
  · intro value
    rw [Operation.tokens_leaf, List.flatMap_singleton]
  · intro before after center left? right? hleft hright
    rw [Operation.tokens, List.flatMap_append, List.flatMap_cons, ← hleft, ← hright, elementTokens?,
      List.append_assoc]
  · rw [nodeTokens?, List.flatMap_nil]
  · intro value
    rw [nodeTokens?, value.tokens_toOperand, List.flatMap_singleton]
  · intro values operation hoperation
    rw [nodeTokens?, Node.tokens, hoperation]

/-- Grouping loses, doubles and moves no token, whatever is grouped. -/
theorem tokens_assemble {values : List Element} {operation : Operation}
    (h : assemble values = .ok operation) : operation.tokens = values.flatMap Element.tokens := by
  rw [assemble_eq_group] at h
  exact (Splitting.tokens_group values).1 h

def sampleSum : Operation :=
  ⟨some (.value (.leaf (.text "b"))), some (.text "+"), some (.value (.leaf (.text "c")))⟩

def sampleGrouped : Operation :=
  ⟨some (.value ⟨none, some (.text "-"), some (.value ⟨some (.condition sampleSum), some (.text "*"),
    some (.value ⟨none, some (.text "*"), some (.value (.leaf (.text "d")))⟩)⟩)⟩),
    some (.text "="), none⟩

/-- `- (b + c) * * d =`, where the sum is grouped already. -/
theorem tokens_assemble_sample :
    assemble [.text "-", .node (.condition sampleSum), .text "*", .text "*", .text "d", .text "="] =
      .ok sampleGrouped ∧
    sampleGrouped.tokens =
      [.text "-", .text "b", .text "+", .text "c", .text "*", .text "*", .text "d", .text "="] := by
  have hassemble : assemble [.text "-", .node (.condition sampleSum), .text "*", .text "*",
      .text "d", .text "="] = .ok sampleGrouped := by cbv
  exact ⟨hassemble, tokens_assemble hassemble⟩

end Lsl
