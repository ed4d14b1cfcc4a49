import Lsl.Syntax.Primitive
/-!
# The syntax tree

A node owns its parts outright and has no link to its parent.  Parts that a tree under construction
may lack are optional; a vector and a rotation literal always have all their components.
-/

namespace Lsl

/-- A parameter of a function. -/
structure Param where
  type? : Option Primitive := none
  name? : Option String := none
  deriving DecidableEq, Repr

mutual

/-- A node of the syntax tree. -/
inductive Node where
  | script (script : Script)
  | function (function : FunctionDef)
  | variable (type? : Option Primitive) (name? : Option String) (value? : Option Element)
  | param (param : Param)
  | type (primitive : Primitive)
  | state (state : State)
  | stateChange (target? : Option String)
  | jump (target? : Option String)
  | label (target? : Option String)
  | ret (value? : Option Element)
  | call (name? : Option String) (arguments : List Element)
  | cast (type? : Option Primitive) (value? : Option Element)
  | body (body : Body)
  | ifElse (condition? : Option Node) (body? : Option Body) (else? : Option Node)
  | whileLoop (condition? : Option Node) (body? : Option Body)
  | doLoop (condition? : Option Node) (body? : Option Body)
  | forLoop (precommands : List Node) (condition? : Option Node) (loopcommands : List Node)
      (body? : Option Body)
  | list (values : List Element)
  | vector (x y z : Element)
  | quaternion (x y z s : Element)
  | value (operation : Operation)
  | expression (operation : Operation)
  | condition (operation : Operation)
  | preMod (operator? : Option String) (value? : Option Element)
  | postMod (operator? : Option String) (value? : Option Element)

/-- What a subtree turns into: the text of a leaf, or a node. -/
inductive Element where
  | text (text : String)
  | node (node : Node)

/-- An ordered block of statements and declarations. -/
structure Body where
  statements : List Node

/-- A function of the script or an event handler of a state. Without a type it returns nothing. -/
structure FunctionDef where
  type? : Option Primitive
  name? : Option String
  params : List Param
  body? : Option Body

/-- A state with its event handlers; the default state has no name. -/
structure State where
  name? : Option String
  events : List FunctionDef

/-- A whole script: global variables and functions in source order, then the states. -/
structure Script where
  globals : List Node
  states : List State

/-- An operator, or a lone operand, in the center with optional operands at either side. -/
structure Operation where
  left? : Option Node
  center? : Option Element
  right? : Option Node

end

/-- The kind of a node. -/
def Node.kind : Node → Kind
  | .script _ => .script
  | .function _ => .function
  | .variable _ _ _ => .variable
  | .param _ => .param
  | .type _ => .type
  | .state _ => .state
  | .stateChange _ => .stateChange
  | .jump _ => .jump
  | .label _ => .label
  | .ret _ => .ret
  | .call _ _ => .call
  | .cast _ _ => .cast
  | .body _ => .body
  | .ifElse _ _ _ => .ifElse
  | .whileLoop _ _ => .whileLoop
  | .doLoop _ _ => .doLoop
  | .forLoop _ _ _ _ => .forLoop
  | .list _ => .list
  | .vector _ _ _ => .vector
  | .quaternion _ _ _ _ => .quaternion
  | .value _ => .value
  | .expression _ => .expression
  | .condition _ => .condition
  | .preMod _ _ => .preMod
  | .postMod _ _ => .postMod

/-- The component that a literal has where none is given. -/
def Element.zero : Element :=
  .text "0.0"

/-- A node of this kind with all its optional parts absent and all its lists empty. -/
def Kind.empty : Kind → Node
  | .script => .script ⟨[], []⟩
  | .function => .function ⟨none, none, [], none⟩
  | .variable => .variable none none none
  | .param => .param {}
  | .type => .type .void
  | .state => .state ⟨none, []⟩
  | .stateChange => .stateChange none
  | .jump => .jump none
  | .label => .label none
  | .ret => .ret none
  | .call => .call none []
  | .cast => .cast none none
  | .body => .body ⟨[]⟩
  | .ifElse => .ifElse none none none
  | .whileLoop => .whileLoop none none
  | .doLoop => .doLoop none none
  | .forLoop => .forLoop [] none [] none
  | .list => .list []
  | .vector => .vector .zero .zero .zero
  | .quaternion => .quaternion .zero .zero .zero .zero
  | .value => .value ⟨none, none, none⟩
  | .expression => .expression ⟨none, none, none⟩
  | .condition => .condition ⟨none, none, none⟩
  | .preMod => .preMod none none
  | .postMod => .postMod none none

@[simp] theorem Kind.kind_empty (kind : Kind) : kind.empty.kind = kind := by
  cases kind <;> rfl

namespace Element

/-- The kind of an element that is a node. -/
def kind? : Element → Option Kind
  | text _ => none
  | node n => some n.kind

/-- A short description: the quoted text of a leaf, or the name of a node's kind. -/
def describe : Element → String
  | text t => s!"`{t}`"
  | node n => n.kind.name

/-- The descriptions of several elements, separated by blanks. -/
def describeAll (elements : List Element) : String :=
  String.intercalate " " (elements.map describe)

end Element

namespace Operation

/-- The operation that consists of a lone operand. -/
def leaf (center : Element) : Operation :=
  ⟨none, some center, none⟩

/-- Whether there is an operand at either side. -/
def isBinary (operation : Operation) : Bool :=
  operation.left?.isSome || operation.right?.isSome

end Operation

/-- The operation that an expression node holds. -/
def Node.operation? : Node → Option Operation
  | .value o | .expression o | .condition o => some o
  | _ => none

namespace Body

/-- Makes `node` the statement number `index`, the later ones moved up. -/
def insert (body : Body) (index : Nat) (node : Node) : Edited Body Unit :=
  if index ≤ body.statements.length then (⟨body.statements.insertIdx index node⟩, .ok ())
  else (body, .error (.indexOutOfBounds index body.statements.length))

/-- The block with `node` as a further last statement. -/
def push (body : Body) (node : Node) : Body :=
  ⟨body.statements ++ [node]⟩

/-- Whether the block only wraps another block. -/
def isRedundant (body : Body) : Bool :=
  match body.statements with
  | [.body _] => true
  | _ => false

end Body

/-- Whether the function returns nothing. -/
def FunctionDef.isVoid (function : FunctionDef) : Bool :=
  function.type?.all Primitive.isVoid

section

variable {m : Type → Type} [Monad m] (f : FunctionDef → m FunctionDef)

/-- Replaces the function that a global is, if it is one. -/
def Node.mapFunctionM : Node → m Node
  | .function g => Node.function <$> f g
  | other => pure other

/-- Replaces every event handler of a state. -/
def State.mapFunctionsM (state : State) : m State := do
  return ⟨state.name?, ← state.events.mapM f⟩

/-- Replaces every function, those of the script first and then the event handlers of each state. -/
def Script.mapFunctionsM (script : Script) : m Script := do
  let globals ← script.globals.mapM (Node.mapFunctionM f)
  let states ← script.states.mapM (State.mapFunctionsM f)
  return ⟨globals, states⟩

end

namespace Script

/-- Every function, those of the script first and then the event handlers of each state. -/
def functions (script : Script) : List FunctionDef :=
  script.globals.filterMap (fun
    | .function function => some function
    | _ => none) ++
  script.states.flatMap State.events

end Script

end Lsl
