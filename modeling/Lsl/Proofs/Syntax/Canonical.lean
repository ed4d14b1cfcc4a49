import Lsl.Proofs.Syntax.WellShaped
/-!
# Canonical trees

The trees that are read back from their own written form.  Besides being well shaped, a canonical
tree has nothing that the written form leaves out (`settled`), and none of the few neighbours that
run into each other when they are written (`printable`).
-/

namespace Lsl

open Lexeme

/-! ## Nothing that the written form leaves out -/

/-- Whether an element is itself an expression node. -/
def Element.isExpression : Element → Bool
  | .node n => n.kind.isExpression
  | .text _ => false

mutual

/-- Whether what is written for a node determines it: a declaration has a value, no block only wraps
another block, and no value only wraps another value that is not in parentheses. -/
def Node.settled : Node → Bool
  | .function function => function.settled
  | .variable _ _ value? =>
    match value? with
    | some value => value.settled
    | none => false
  | .ret value? =>
    match value? with
    | some value => value.settled
    | none => true
  | .call _ arguments => areSettledElements arguments
  | .cast _ value? | .preMod _ value? | .postMod _ value? =>
    match value? with
    | some value => value.settledOperand
    | none => true
  | .body body => body.settled
  | .ifElse condition? body? else? =>
    (match condition? with
      | some condition => condition.settled
      | none => true) && (match body? with
      | some body => body.settled
      | none => true) && (match else? with
      | some other => other.settled
      | none => true)
  | .whileLoop condition? body? | .doLoop condition? body? =>
    (match condition? with
      | some condition => condition.settled
      | none => true) && (match body? with
      | some body => body.settled
      | none => true)
  | .forLoop precommands condition? loopcommands body? =>
    areSettled precommands && (match condition? with
      | some condition => condition.settled
      | none => true) && areSettled loopcommands && (match body? with
      | some body => body.settled
      | none => true)
  | .list values => areSettledElements values
  | .vector x y z => x.settled && y.settled && z.settled
  | .quaternion x y z s => x.settled && y.settled && z.settled && s.settled
  | .value operation | .expression operation | .condition operation => operation.settled
  | _ => true

def Element.settled : Element → Bool
  | .text _ => true
  | .node node => node.settled

/-- An operand that is a value node stands for a pair of parentheses, so it has two sides. -/
def Element.settledOperand : Element → Bool
  | .text _ => true
  | .node (.value operation) => operation.isBinary && operation.settled
  | .node node => node.settled

/-- The side of an operation is either in parentheses, or an operand that is not. -/
def Operation.settled : Operation → Bool
  | ⟨some (.value left), _, some (.value right)⟩ =>
    left.settled && (left.isBinary || !(left.center?.any Element.isExpression)) &&
      right.settled && (right.isBinary || !(right.center?.any Element.isExpression))
  | ⟨_, some center, _⟩ => center.settledOperand
  | _ => true

def Body.settled : Body → Bool
  | ⟨[.body _]⟩ => false
  | ⟨statements⟩ => areSettled statements

def FunctionDef.settled : FunctionDef → Bool
  | ⟨_, _, _, body?⟩ =>
    match body? with
    | some body => body.settled
    | none => true

def areSettled : List Node → Bool
  | [] => true
  | node :: rest => node.settled && areSettled rest

def areSettledElements : List Element → Bool
  | [] => true
  | element :: rest => element.settled && areSettledElements rest

end

def Script.settled (script : Script) : Bool :=
  script.globals.all Node.settled &&
    script.states.all fun state => state.events.all FunctionDef.settled

/-! ## Where the written form of an operand starts and ends -/

mutual

/-- The operand that a node stands for if it is a value without sides, which is written without
parentheses. -/
def Node.core : Node → Element
  | .value ⟨none, some center, none⟩ => center.core
  | other => .node other

def Element.core : Element → Element
  | .text t => .text t
  | .node n => n.core

end

mutual

/-- The operand that the written form of a node ends in. -/
def Node.lastOperand : Node → Element
  | .cast _ (some value) | .preMod _ (some value) => value.lastOperand
  | .value ⟨none, some center, none⟩ => center.lastOperand
  | other => .node other

def Element.lastOperand : Element → Element
  | .text t => .text t
  | .node n => n.lastOperand

end

/-- Whether the written form ends in a decimal integer, which takes up a dot after it. -/
def Node.endsInDigits (node : Node) : Bool :=
  match node.lastOperand with
  | .text digits => isDigits digits.toList
  | .node _ => false

/-- Whether the written form ends in a name, which takes up a dot and a modified name after it. -/
def Node.endsInName (node : Node) : Bool :=
  match node.lastOperand with
  | .text name => isName name.toList
  | .node _ => false

/-- Whether a node is written as a name with a modifier after it. -/
def Node.isModifiedName (node : Node) : Bool :=
  match node.core with
  | .node (.postMod _ (some (.text name))) => isName name.toList
  | _ => false

/-- Whether a node is written as a number that starts with a digit, which takes up a dot before it.
-/
def Node.isNumber (node : Node) : Bool :=
  match node.core with
  | .text digits => digits.toList.head?.any Char.isDigit
  | .node _ => false

/-! ## Literals that are not known to be complete

A vector literal is first tried as a rotation literal.  Where its closing angle comes, the try reads
on as if that were an operator.  Such a try is told by the number of components that it still needs
before its last one.  The tries of an operation are those that are going on at its end, and its
`strays` those that go on from its left side over its operator. -/

/-- The operators that read as modifiers of the operand after them. -/
def modifierOperators : List String :=
  ["-", "-=", "!="]

/-- The operators that read as the start of a literal. -/
def literalOperators : List String :=
  ["<", "<<"]

/-- The tries that need more than `count` further components, with what they need after these. -/
def triesAfter (count : Nat) (tries : List Nat) : List Nat :=
  (tries.filter (count ≤ ·)).map (· - count)

mutual

/-- The tries to read a literal that are going on at the end of an operand. In a vector literal
there is the one for the literal itself. -/
def Node.tries : Node → List Nat
  | .vector x y z => 0 :: (triesAfter 2 x.strays ++ (triesAfter 1 y.strays ++ z.remains))
  | .quaternion x y z s =>
    triesAfter 3 x.strays ++ (triesAfter 2 y.strays ++ (triesAfter 1 z.strays ++ s.remains))
  | .cast _ (some value) | .preMod _ (some value) => value.tries
  | .value ⟨none, some center, none⟩ => center.tries
  | _ => []

def Element.tries : Element → List Nat
  | .text _ => []
  | .node n => n.tries

/-- The tries to read a literal that are going on at the end of an operation. -/
def Operation.tries : Operation → List Nat
  | ⟨none, some center, none⟩ => center.tries
  | ⟨_, _, some right⟩ => right.tries
  | _ => []

/-- The tries to read a literal that go on over the operator of an operation. Where that starts a
literal by itself, there are those for this one, which need one or two components more. -/
def Operation.strays : Operation → List Nat
  | ⟨some left, some (.text symbol), some right⟩ =>
    if modifierOperators.contains symbol || (symbol == "." && right.isNumber) then left.tries
    else if literalOperators.contains symbol && !left.tries.isEmpty then [1, 2]
    else []
  | _ => []

/-- The tries that go on over the operator of a component. -/
def Element.strays : Element → List Nat
  | .node (.value o) => o.strays
  | _ => []

/-- The tries that are going on at the end of the last component. -/
def Element.remains : Element → List Nat
  | .node (.value o) => o.strays ++ o.tries
  | _ => []

end

/-- The operation of an element that is a node with one. -/
def Element.operation? : Element → Option Operation
  | .node n => n.operation?
  | .text _ => none

/-- In a list, a try that goes on from an element does not have an element for its last component
whose operator could close the literal. -/
def separable : List Operation → Bool
  | [] => true
  | operation :: rest =>
    (operation.strays.all fun count => rest[count]?.all Operation.fitsLast) && separable rest

/-- In a literal, moreover it does not have the last component for its last one, as the closing
angle would close the literal that is tried. -/
def closable : List Operation → Bool
  | [] => true
  | operation :: rest =>
    (operation.strays.all fun count =>
      count + 1 != rest.length && rest[count]?.all Operation.fitsLast) && closable rest

/-! ## Neighbours that do not run into each other -/

section

variable (allows : String → Bool)

mutual

/-- Whether no two neighbours in the written form of a node run into each other. Texts that are not
allowed do not occur. -/
def Node.printable : Node → Bool
  | .function function => function.printable
  | .variable _ _ value? | .ret value? | .cast _ value? | .preMod _ value? | .postMod _ value? =>
    match value? with
    | some value => value.printable
    | none => true
  | .call _ arguments =>
    arePrintableElements arguments && separable (arguments.filterMap Element.operation?)
  | .body body => body.printable
  | .ifElse condition? body? else? =>
    (match condition? with
      | some condition => condition.printable
      | none => true) && (match body? with
      | some body => body.printable
      | none => true) && (match else? with
      | some other => other.printable
      | none => true)
  | .whileLoop condition? body? | .doLoop condition? body? =>
    (match condition? with
      | some condition => condition.printable
      | none => true) && (match body? with
      | some body => body.printable
      | none => true)
  | .forLoop precommands condition? loopcommands body? =>
    arePrintable precommands && separable (precommands.filterMap Node.operation?) &&
      (match condition? with
      | some condition => condition.printable
      | none => true) &&
      arePrintable loopcommands && separable (loopcommands.filterMap Node.operation?) &&
      (match body? with
      | some body => body.printable
      | none => true)
  | .list values =>
    arePrintableElements values && separable (values.filterMap Element.operation?)
  | .vector x y z =>
    x.printable && y.printable && z.printable && closable ([x, y, z].filterMap Element.operation?)
  | .quaternion x y z s =>
    x.printable && y.printable && z.printable && s.printable &&
      closable ([x, y, z, s].filterMap Element.operation?)
  | .value operation | .expression operation | .condition operation => operation.printable
  | _ => true

def Element.printable : Element → Bool
  | .text t => allows t
  | .node n => n.printable

/-- Around the member operator there are no blanks, so that it could belong to a number or to a
name with a modifier. -/
def Operation.printable : Operation → Bool
  | ⟨some left, some (.text symbol), some right⟩ =>
    left.printable && right.printable &&
      !(symbol == "." && (left.endsInDigits || (left.endsInName && right.isModifiedName)))
  | ⟨_, some center, _⟩ => center.printable
  | _ => true

def Body.printable : Body → Bool
  | ⟨statements⟩ => arePrintable statements

def FunctionDef.printable : FunctionDef → Bool
  | ⟨_, _, _, body?⟩ =>
    match body? with
    | some body => body.printable
    | none => true

def arePrintable : List Node → Bool
  | [] => true
  | node :: rest => node.printable && arePrintable rest

def arePrintableElements : List Element → Bool
  | [] => true
  | element :: rest => element.printable && arePrintableElements rest

end

end

/-- Only the texts inside functions have to be allowed, as only these are indented. -/
def Script.printable (allows : String → Bool) (script : Script) : Bool :=
  (script.globals.all fun
    | .variable type? name? value? => (Node.variable type? name? value?).printable fun _ => true
    | node => node.printable allows) &&
    script.states.all fun state => state.events.all (FunctionDef.printable allows)

/-- A text without line ends. -/
def isLine (text : String) : Bool :=
  !text.toList.contains '\n'

/-- Whether a text has a carriage return right before a line end. -/
def hasReturn : List Char → Bool
  | [] => false
  | c :: rest => (c == '\r' && rest.head? == some '\n') || hasReturn rest

/-- A text that indenting by this width leaves as it is: it is on one line, or no blanks are put in
front of its lines and no line ends in a carriage return, which would go. -/
def isUnmoved (width : Nat) (text : String) : Bool :=
  isLine text || (width == 0 && !hasReturn text.toList)

/-- The trees that are read back from their own written form. -/
def Script.canonical (script : Script) : Bool :=
  script.wellShaped && script.settled && script.printable isLine

/-! ## Operations without sides, lists of values and commands -/

theorem Operation.settled_leaf (center : Element) :
    Operation.settled ⟨none, some center, none⟩ = center.settledOperand := by
  rw [Operation.settled]
  nofun

theorem Operation.printable_leaf {allows : String → Bool} (center : Element) :
    Operation.printable allows ⟨none, some center, none⟩ = center.printable allows := by
  rw [Operation.printable]
  nofun

theorem areSettledElements_map (os : List Operation) :
    areSettledElements (os.map fun o => .node (.value o)) = os.all Operation.settled := by
  induction os with
  | nil => rfl
  | cons o os ih =>
    rw [List.map_cons, areSettledElements, Element.settled, Node.settled, ih, List.all_cons]

theorem arePrintableElements_map {allows : String → Bool} (os : List Operation) :
    arePrintableElements allows (os.map fun o => .node (.value o)) =
      os.all (Operation.printable allows) := by
  induction os with
  | nil => rfl
  | cons o os ih =>
    rw [List.map_cons, arePrintableElements, Element.printable, Node.printable, ih, List.all_cons]

/-- The commands of a loop are expressions. -/
theorem exists_expressions {nodes : List Node}
    (h : areWellShaped (· = .expression) nodes = true) :
    ∃ os : List Operation, nodes = os.map .expression ∧ ∀ o ∈ os, o.wellShaped = true := by
  induction nodes with
  | nil => exact ⟨[], rfl, List.forall_mem_nil _⟩
  | cons node nodes ih =>
    rw [areWellShaped, Bool.and_eq_true, Bool.and_eq_true, decide_eq_true_eq] at h
    obtain ⟨⟨hkind, hnode⟩, hnodes⟩ := h
    obtain ⟨os, rfl, hos⟩ := ih hnodes
    cases node <;> first | (cases hkind; done) | skip
    next o =>
      rw [Node.wellShaped] at hnode
      exact ⟨o :: os, rfl, List.forall_mem_cons.2 ⟨hnode, hos⟩⟩

theorem areWellShaped_expressions (os : List Operation) :
    areWellShaped (· = .expression) (os.map .expression) = os.all Operation.wellShaped := by
  induction os with
  | nil => rfl
  | cons o os ih =>
    rw [List.map_cons, areWellShaped, Node.wellShaped, ih, List.all_cons]
    rfl

theorem areSettled_expressions (os : List Operation) :
    areSettled (os.map .expression) = os.all Operation.settled := by
  induction os with
  | nil => rfl
  | cons o os ih => rw [List.map_cons, areSettled, Node.settled, ih, List.all_cons]

theorem arePrintable_expressions {allows : String → Bool} (os : List Operation) :
    arePrintable allows (os.map .expression) = os.all (Operation.printable allows) := by
  induction os with
  | nil => rfl
  | cons o os ih => rw [List.map_cons, arePrintable, Node.printable, ih, List.all_cons]

theorem filterMap_operation? (operations : List Operation) :
    (operations.map fun o => Element.node (.value o)).filterMap Element.operation? = operations := by
  rw [List.filterMap_map]
  exact List.filterMap_some

end Lsl
