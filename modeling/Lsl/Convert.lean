import Lsl.Peg.ParseTree
import Lsl.Registry
import Lsl.Syntax.Setters
/-!
# From raw trees to syntax trees

A registry steers the conversion: a child's token decides which field of its parent it lands in.
Children without a field of their own fall back to the field `value`, and then to the overflow list
of their parent; a parent without one is an error, so that nothing is dropped.
-/

namespace Lsl

open Peg

variable {τ : Type} [DecidableEq τ] [Vocabulary τ]

mutual

/-- Converts a raw tree. A token without a kind is its text if it is a leaf, and stands for its
child if it has just one. -/
def convert (registry : Registry τ) : ParseTree τ → Except Error Element
  | ⟨token, text, children⟩ =>
    match registry.kindFor? token with
    | some kind => do
      let (node, overflow) ← fillFields registry kind.empty children
      if kind.acceptsOverflow then return .node (← Prod.fst <$> (node.setOverflow overflow).kept)
      else if overflow.isEmpty then return .node node
      else throw (.discardedSubtree kind overflow.length text)
    | none =>
      match children with
      | [] => .ok (.text text)
      | [only] => convert registry only
      | _ => .error (.malformedTree (Vocabulary.symbol token) children.length text)

/-- Converts the children of a node and assigns them to its fields one by one. The second component
holds those for which there is no field, in order. -/
def fillFields (registry : Registry τ) (node : Node) :
    List (ParseTree τ) → Except Error (Node × List Element)
  | [] => .ok (node, [])
  | ⟨token, text, children⟩ :: rest =>
    let field := registry.fieldFor token
    if Kind.isPlural field && node.kind.hasField field .list then do
      let values ← convertAll registry children
      let (node, _) ← (node.setList field values).kept
      fillFields registry node rest
    else do
      let value ← convert registry ⟨token, text, children⟩
      if node.kind.hasField field .single then
        let (node, _) ← (node.set field value).kept
        fillFields registry node rest
      else if node.kind.hasField "value" .single then
        let (node, _) ← (node.set "value" value).kept
        fillFields registry node rest
      else
        let (node, overflow) ← fillFields registry node rest
        return (node, value :: overflow)

/-- Converts raw trees in order. -/
def convertAll (registry : Registry τ) : List (ParseTree τ) → Except Error (List Element)
  | [] => .ok []
  | tree :: rest => do
    let value ← convert registry tree
    let values ← convertAll registry rest
    return value :: values

end

/-- Converts a raw tree that has to become a node. -/
def convertNode (registry : Registry τ) (tree : ParseTree τ) : Except Error Node := do
  match ← convert registry tree with
  | .node n => return n
  | .text t => throw (.malformedTree (Vocabulary.symbol tree.token) 0 t)

end Lsl
