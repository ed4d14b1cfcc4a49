import Lsl.Grammar.Rule
import Lsl.Peg.ParseTree
import Lsl.Proofs.Syntax.Splitting
/-!
# The words of a tree

The words that a raw tree covers and those that a syntax tree holds, both in the order of the source:
names, types, operators, numbers and strings.  Punctuation and keywords are told by the kind of a node
and are no words here.  Grouping a run of operands and operators keeps its words.
-/

namespace Lsl

open Peg

/-! ## Raw trees -/

/-- The rules whose matches are words. -/
def Rule.isLexeme : Rule → Bool
  | .name | .ident | .member | .typeName | .operator | .integer | .float | .string => true
  | _ => false

/-- The texts of the words in a raw tree, from left to right. -/
def Peg.ParseTree.lexemes (tree : ParseTree Rule) : List String :=
  (tree.walk.filter fun node => node.isLeaf && node.token.isLexeme).map ParseTree.text

/-- The way a word is written in a syntax tree, which knows a type by one name only. -/
def spelled (word : String) : String :=
  if word = "quaternion" then "rotation" else word

theorem Primitive.name_of_parse {word : String} {primitive : Primitive}
    (h : Primitive.parse word = .ok primitive) (hvoid : primitive.isVoid = false) :
    spelled word = primitive.name := by
  unfold Primitive.parse at h
  split at h <;> cases h <;> first | rfl | cases hvoid

theorem Peg.ParseTree.lexemes_leaf {r : Rule} (hr : r.isLexeme = true) (text : String) :
    ParseTree.lexemes ⟨r, text, []⟩ = [text] := by
  simp [ParseTree.lexemes, ParseTree.walk, ParseTree.walkAll, ParseTree.isLeaf, hr]

theorem Peg.ParseTree.lexemes_node {r : Rule} (hr : r.isLexeme = false) (text : String)
    (children : List (ParseTree Rule)) :
    ParseTree.lexemes ⟨r, text, children⟩ = children.flatMap ParseTree.lexemes := by
  simp only [ParseTree.lexemes, ParseTree.walk, ParseTree.walkAll_eq_flatMap, hr, Bool.and_false,
    Bool.false_eq_true, not_false_eq_true, List.filter_cons_of_neg, List.filter_flatMap,
    List.map_flatMap]
  rfl

/-! ## Syntax trees -/

/-- The name of a type that is there. -/
def typeLexemes (type? : Option Primitive) : List String :=
  (type?.map Primitive.name).toList

@[simp] theorem typeLexemes_none : typeLexemes none = [] := rfl

@[simp] theorem typeLexemes_some (type : Primitive) : typeLexemes (some type) = [type.name] := rfl

def Param.lexemes (param : Param) : List String :=
  typeLexemes param.type? ++ param.name?.toList

mutual

/-- The words in a node, in the order in which the source has them: an operator after its left
operand or its name, and the condition of a `do` loop after its block. -/
def Node.lexemes : Node → List String
  | .script script => script.lexemes
  | .function function => function.lexemes
  | .variable type? name? value? => typeLexemes type? ++ name?.toList ++ elementLexemes? value?
  | .param param => param.lexemes
  | .type primitive => [primitive.name]
  | .state state => state.lexemes
  | .stateChange target? | .jump target? | .label target? => target?.toList
  | .ret value? => elementLexemes? value?
  | .call name? arguments => name?.toList ++ elementLexemes arguments
  | .cast type? value? => typeLexemes type? ++ elementLexemes? value?
  | .body body => body.lexemes
  | .ifElse condition? body? else? =>
    nodeLexemes? condition? ++ bodyLexemes? body? ++ nodeLexemes? else?
  | .whileLoop condition? body? => nodeLexemes? condition? ++ bodyLexemes? body?
  | .doLoop condition? body? => bodyLexemes? body? ++ nodeLexemes? condition?
  | .forLoop precommands condition? loopcommands body? =>
    nodeLexemes precommands ++ nodeLexemes? condition? ++ nodeLexemes loopcommands ++
      bodyLexemes? body?
  | .list values => elementLexemes values
  | .vector x y z => x.lexemes ++ y.lexemes ++ z.lexemes
  | .quaternion x y z s => x.lexemes ++ y.lexemes ++ z.lexemes ++ s.lexemes
  | .value operation | .expression operation | .condition operation => operation.lexemes
  | .preMod operator? value? => operator?.toList ++ elementLexemes? value?
  | .postMod operator? value? => elementLexemes? value? ++ operator?.toList

def Element.lexemes : Element → List String
  | .text text => [text]
  | .node node => node.lexemes

def Operation.lexemes : Operation → List String
  | ⟨left?, center?, right?⟩ =>
    nodeLexemes? left? ++ elementLexemes? center? ++ nodeLexemes? right?

def Body.lexemes : Body → List String
  | ⟨statements⟩ => nodeLexemes statements

def FunctionDef.lexemes : FunctionDef → List String
  | ⟨type?, name?, params, body?⟩ =>
    typeLexemes type? ++ name?.toList ++ params.flatMap Param.lexemes ++ bodyLexemes? body?

def State.lexemes : State → List String
  | ⟨name?, events⟩ => name?.toList ++ functionLexemes events

def Script.lexemes : Script → List String
  | ⟨globals, states⟩ => nodeLexemes globals ++ stateLexemes states

def nodeLexemes? : Option Node → List String
  | some node => node.lexemes
  | none => []

def elementLexemes? : Option Element → List String
  | some element => element.lexemes
  | none => []

def bodyLexemes? : Option Body → List String
  | some body => body.lexemes
  | none => []

def nodeLexemes : List Node → List String
  | [] => []
  | node :: rest => node.lexemes ++ nodeLexemes rest

def elementLexemes : List Element → List String
  | [] => []
  | element :: rest => element.lexemes ++ elementLexemes rest

def functionLexemes : List FunctionDef → List String
  | [] => []
  | function :: rest => function.lexemes ++ functionLexemes rest

def stateLexemes : List State → List String
  | [] => []
  | state :: rest => state.lexemes ++ stateLexemes rest

end

@[simp] theorem nodeLexemes?_none : nodeLexemes? none = [] := by rw [nodeLexemes?]

@[simp] theorem nodeLexemes?_some (node : Node) : nodeLexemes? (some node) = node.lexemes := by
  rw [nodeLexemes?]

@[simp] theorem elementLexemes?_none : elementLexemes? none = [] := by rw [elementLexemes?]

@[simp] theorem elementLexemes?_some (element : Element) :
    elementLexemes? (some element) = element.lexemes := by
  rw [elementLexemes?]

@[simp] theorem bodyLexemes?_some (body : Body) : bodyLexemes? (some body) = body.lexemes := by
  rw [bodyLexemes?]

@[simp] theorem Element.lexemes_text (text : String) : (Element.text text).lexemes = [text] := by
  rw [Element.lexemes]

@[simp] theorem Element.lexemes_node (node : Node) : (Element.node node).lexemes = node.lexemes := by
  rw [Element.lexemes]

theorem nodeLexemes_eq_flatMap (nodes : List Node) :
    nodeLexemes nodes = nodes.flatMap Node.lexemes := by
  induction nodes with
  | nil => rfl
  | cons node rest ih => rw [nodeLexemes, ih, List.flatMap_cons]

theorem elementLexemes_eq_flatMap (elements : List Element) :
    elementLexemes elements = elements.flatMap Element.lexemes := by
  induction elements with
  | nil => rfl
  | cons element rest ih => rw [elementLexemes, ih, List.flatMap_cons]

@[simp] theorem elementLexemes_map {α : Type} (f : α → Node) (as : List α) :
    elementLexemes (as.map fun a => .node (f a)) = as.flatMap fun a => (f a).lexemes := by
  rw [elementLexemes_eq_flatMap, List.flatMap_map]
  simp only [Element.lexemes_node]

@[simp] theorem elementLexemes_map_node (nodes : List Node) :
    elementLexemes (nodes.map .node) = nodeLexemes nodes := by
  rw [nodeLexemes_eq_flatMap]
  exact elementLexemes_map id nodes

theorem functionLexemes_eq_flatMap (functions : List FunctionDef) :
    functionLexemes functions = functions.flatMap FunctionDef.lexemes := by
  induction functions with
  | nil => rfl
  | cons function rest ih => rw [functionLexemes, ih, List.flatMap_cons]

theorem stateLexemes_eq_flatMap (states : List State) :
    stateLexemes states = states.flatMap State.lexemes := by
  induction states with
  | nil => rfl
  | cons state rest ih => rw [stateLexemes, ih, List.flatMap_cons]

/-! ## Grouping -/

theorem Operation.lexemes_leaf (center : Element) :
    (Operation.leaf center).lexemes = center.lexemes := by
  simp [Operation.leaf, Operation.lexemes]

theorem Element.lexemes_toOperand (element : Element) :
    element.toOperand.lexemes = element.lexemes := by
  cases element with
  | text text => simp [Element.toOperand, Node.lexemes, Operation.lexemes_leaf]
  | node node =>
    rw [Element.toOperand]
    split
    · rw [Element.lexemes]
    · rw [Node.lexemes, Operation.lexemes_leaf]

/-- However elements are split, grouping them neither loses nor moves a word. -/
theorem Splitting.lexemes_group {s : Splitting} (values : List Element) :
    (∀ {operation}, s.group values = .ok operation →
      operation.lexemes = values.flatMap Element.lexemes) ∧
    ∀ {side?}, s.side values = .ok side? →
      nodeLexemes? side? = values.flatMap Element.lexemes := by
  refine group_induction (fun values operation => operation.lexemes = values.flatMap Element.lexemes)
    (fun values side? => nodeLexemes? side? = values.flatMap Element.lexemes) (fun value => ?_)
    (fun hleft hright => ?_) rfl (fun value => ?_) (fun hvalue => ?_) values
  · rw [Operation.lexemes_leaf, List.flatMap_singleton]
  · rw [Operation.lexemes, List.flatMap_append, List.flatMap_cons, ← hleft, ← hright,
      elementLexemes?_some, List.append_assoc]
  · rw [List.flatMap_singleton]
    exact value.lexemes_toOperand
  · rw [← hvalue]
    exact Node.lexemes.eq_def _

/-- Grouping a run neither loses nor moves a word. -/
theorem lexemes_assemble (values : List Element) {operation : Operation}
    (h : assemble values = .ok operation) :
    operation.lexemes = values.flatMap Element.lexemes := by
  rw [assemble_eq_group] at h
  exact (Splitting.lexemes_group values).1 h

end Lsl
