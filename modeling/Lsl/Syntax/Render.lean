import Lsl.Syntax.Node
import Lsl.Text.Lines
/-!
# Writing a tree as source text

`Node.render` writes a node in canonical form.  What a node needs to know of its surroundings is the
kind of the enclosing node: it decides whether an operation is put in parentheses and whether an
expression ends in a semicolon.
-/

namespace Lsl

/-- Kinds inside which an operation with operands at its sides is put in parentheses. -/
def Kind.groupsOperands : Kind → Bool
  | .value | .expression | .condition | .cast | .preMod | .postMod => true
  | _ => false

/-- The written form of an optional type; nothing for an absent or a void one. -/
def renderType : Option Primitive → String
  | some primitive => if primitive.isVoid then "" else primitive.name
  | none => ""

/-- The written form of a parameter. -/
def Param.render (param : Param) : String :=
  renderType param.type? ++ " " ++ param.name?.getD ""

/-- The written form of a block without statements. -/
def emptyBlock : String :=
  "\x7b\n\x7d"

/-- A declaration from its written value, or from the default of its type if it has no value. -/
def renderVariable (type? : Option Primitive) (name? : Option String) (value? : Option String) :
    String :=
  let type := renderType type?
  let declared := if type.isEmpty then name?.getD "" else type ++ " " ++ name?.getD ""
  match value?.or (type?.bind Primitive.defaultLiteral) with
  | some value => declared ++ " = " ++ value ++ ";"
  | none => declared ++ ";"

/-- A function from its written block. -/
def renderFunction (type? : Option Primitive) (name? : Option String) (params : List Param)
    (body : String) : String :=
  let type := if type?.all Primitive.isVoid then "" else renderType type? ++ " "
  type ++ name?.getD "" ++ "(" ++ String.intercalate ", " (params.map Param.render) ++ ")\n" ++ body

/-- A state from its written event handlers, each of which is indented. -/
def renderState (width : Nat) (name? : Option String) (events : List String) : String :=
  let header := match name? with
    | some name => "state " ++ name
    | none => "default"
  if events.isEmpty then header ++ " " ++ emptyBlock
  else header ++ " \x7b\n" ++ String.intercalate "\n" (events.map (Text.indent width)) ++ "\n\x7d"

/-- A block from its written statements, each of which is indented. -/
def renderBlock (width : Nat) (statements : List String) : String :=
  if statements.isEmpty then emptyBlock
  else "\x7b\n" ++ String.intercalate "\n" (statements.map (Text.indent width)) ++ "\n\x7d"

/-- An operation from its written parts. The member operator is written without blanks. -/
def renderOperation (left? : Option String) (center : String) (right? : Option String) : String :=
  match left?, right? with
  | some left, some right =>
    if center = "." then left ++ "." ++ right else left ++ " " ++ center ++ " " ++ right
  | some left, none => left ++ center
  | none, some right => center ++ right
  | none, none => center

/-- A modifier in front of a written value. A blank keeps two operators from becoming one. -/
def renderPreMod (operator value : String) : String :=
  match value.toList with
  | c :: _ => if c ∈ ['-', '+', '!', '~'] then operator ++ " " ++ value else operator ++ value
  | [] => operator ++ value

mutual

/-- The written form of a node inside a node of the kind `parent?`. -/
def Node.renderIn (width : Nat) (parent? : Option Kind) : Node → String
  | .script script => script.render width
  | .function function => function.render width
  | .variable type? name? value? =>
    renderVariable type? name? (match value? with
      | some value => some (value.renderIn width .variable)
      | none => none)
  | .param param => param.render
  | .type primitive => renderType (some primitive)
  | .state state => state.render width
  | .stateChange target? => "state " ++ target?.getD "default" ++ ";"
  | .jump target? => "jump " ++ target?.getD "" ++ ";"
  | .label target? => "@" ++ target?.getD "" ++ ";"
  | .ret value? =>
    match value? with
    | some value => "return " ++ value.renderIn width .ret ++ ";"
    | none => "return;"
  | .call name? arguments =>
    name?.getD "" ++ "(" ++ String.intercalate ", " (renderElements width .call arguments) ++ ")"
  | .cast type? value? =>
    "(" ++ renderType type? ++ ")" ++ (match value? with
      | some value => value.renderIn width .cast
      | none => "")
  | .body body => body.render width
  | .ifElse condition? body? else? =>
    "if (" ++ (match condition? with
      | some condition => condition.renderIn width (some .ifElse)
      | none => "") ++ ")\n" ++ (match body? with
      | some body => body.render width
      | none => emptyBlock) ++ "\nelse\n" ++ (match else? with
      | some other => other.renderIn width (some .ifElse)
      | none => ";")
  | .whileLoop condition? body? =>
    "while (" ++ (match condition? with
      | some condition => condition.renderIn width (some .whileLoop)
      | none => "") ++ ")\n" ++ (match body? with
      | some body => body.render width
      | none => emptyBlock)
  | .doLoop condition? body? =>
    "do\n" ++ (match body? with
      | some body => body.render width
      | none => emptyBlock) ++ "\nwhile (" ++ (match condition? with
      | some condition => condition.renderIn width (some .doLoop)
      | none => "") ++ ");"
  | .forLoop precommands condition? loopcommands body? =>
    "for (" ++ String.intercalate ", " (renderNodes width .forLoop precommands) ++ "; " ++
      (match condition? with
      | some condition => condition.renderIn width (some .forLoop)
      | none => "") ++ "; " ++
      String.intercalate ", " (renderNodes width .forLoop loopcommands) ++ ")\n" ++
      (match body? with
      | some body => body.render width
      | none => emptyBlock)
  | .list values => "[" ++ String.intercalate ", " (renderElements width .list values) ++ "]"
  | .vector x y z =>
    "<" ++ String.intercalate ", "
      [x.renderIn width .vector, y.renderIn width .vector, z.renderIn width .vector] ++ ">"
  | .quaternion x y z s =>
    "<" ++ String.intercalate ", "
      [x.renderIn width .quaternion, y.renderIn width .quaternion, z.renderIn width .quaternion,
        s.renderIn width .quaternion] ++ ">"
  | .value operation => operation.renderIn width .value parent?
  | .expression operation =>
    let text := operation.renderIn width .expression parent?
    if parent? = some .body then text ++ ";" else text
  | .condition operation => operation.renderIn width .condition parent?
  | .preMod operator? value? =>
    renderPreMod (operator?.getD "") (match value? with
      | some value => value.renderIn width .preMod
      | none => "")
  | .postMod operator? value? =>
    (match value? with
      | some value => value.renderIn width .postMod
      | none => "") ++ operator?.getD ""

/-- The written form of an element inside a node of the kind `parent`. -/
def Element.renderIn (width : Nat) (parent : Kind) : Element → String
  | .text t => t
  | .node n => n.renderIn width (some parent)

/-- The written form of a block. A block that only wraps another block is written as that block. -/
def Body.render (width : Nat) : Body → String
  | ⟨[.body inner]⟩ => inner.render width
  | ⟨statements⟩ => renderBlock width (renderNodes width .body statements)

/-- The written form of a function; an absent block is written as an empty one. -/
def FunctionDef.render (width : Nat) : FunctionDef → String
  | ⟨type?, name?, params, body?⟩ =>
    renderFunction type? name? params (match body? with
      | some body => body.render width
      | none => emptyBlock)

/-- The written form of a state. -/
def State.render (width : Nat) : State → String
  | ⟨name?, events⟩ => renderState width name? (renderFunctions width events)

/-- The written form of a script: its globals and its states, each from a new line on. -/
def Script.render (width : Nat) : Script → String
  | ⟨globals, states⟩ =>
    String.intercalate "\n" (renderNodes width .script globals ++ renderStates width states)

/-- The written form of the operation of a node of the kind `kind` inside one of the kind `parent?`.
-/
def Operation.renderIn (width : Nat) (kind : Kind) (parent? : Option Kind) : Operation → String
  | ⟨left?, center?, right?⟩ =>
    let text := renderOperation
      (match left? with
        | some left => some (left.renderIn width (some kind))
        | none => none)
      (match center? with
        | some center => center.renderIn width kind
        | none => "")
      (match right? with
        | some right => some (right.renderIn width (some kind))
        | none => none)
    if (left?.isSome || right?.isSome) && parent?.any Kind.groupsOperands then "(" ++ text ++ ")"
    else text

/-- The written forms of nodes inside a node of the kind `parent`. -/
def renderNodes (width : Nat) (parent : Kind) : List Node → List String
  | [] => []
  | node :: rest => node.renderIn width (some parent) :: renderNodes width parent rest

/-- The written forms of elements inside a node of the kind `parent`. -/
def renderElements (width : Nat) (parent : Kind) : List Element → List String
  | [] => []
  | element :: rest => element.renderIn width parent :: renderElements width parent rest

/-- The written forms of functions. -/
def renderFunctions (width : Nat) : List FunctionDef → List String
  | [] => []
  | function :: rest => function.render width :: renderFunctions width rest

/-- The written forms of states. -/
def renderStates (width : Nat) : List State → List String
  | [] => []
  | state :: rest => state.render width :: renderStates width rest

end

theorem renderNodes_eq_map (width : Nat) (parent : Kind) (nodes : List Node) :
    renderNodes width parent nodes = nodes.map (Node.renderIn width (some parent)) := by
  induction nodes with
  | nil => rfl
  | cons node rest ih => rw [renderNodes, ih, List.map_cons]

theorem renderElements_eq_map (width : Nat) (parent : Kind) (elements : List Element) :
    renderElements width parent elements = elements.map (Element.renderIn width parent) := by
  induction elements with
  | nil => rfl
  | cons element rest ih => rw [renderElements, ih, List.map_cons]

theorem renderFunctions_eq_map (width : Nat) (functions : List FunctionDef) :
    renderFunctions width functions = functions.map (FunctionDef.render width) := by
  induction functions with
  | nil => rfl
  | cons function rest ih => rw [renderFunctions, ih, List.map_cons]

theorem renderStates_eq_map (width : Nat) (states : List State) :
    renderStates width states = states.map (State.render width) := by
  induction states with
  | nil => rfl
  | cons state rest ih => rw [renderStates, ih, List.map_cons]

/-! ## The written forms of single nodes -/

namespace Node

variable (width : Nat) (parent? : Option Kind)

theorem renderIn_function (function : FunctionDef) :
    (Node.function function).renderIn width parent? = function.render width := rfl

theorem renderIn_variable (type? : Option Primitive) (name? : Option String) (value : Element) :
    (Node.variable type? name? (some value)).renderIn width parent? =
      renderVariable type? name? (some (value.renderIn width .variable)) := rfl

theorem renderIn_stateChange (target? : Option String) :
    (Node.stateChange target?).renderIn width parent? =
      "state " ++ target?.getD "default" ++ ";" := rfl

theorem renderIn_jump (target? : Option String) :
    (Node.jump target?).renderIn width parent? = "jump " ++ target?.getD "" ++ ";" := rfl

theorem renderIn_label (target? : Option String) :
    (Node.label target?).renderIn width parent? = "@" ++ target?.getD "" ++ ";" := rfl

theorem renderIn_ret : (Node.ret none).renderIn width parent? = "return;" := rfl

theorem renderIn_ret_value (value : Element) :
    (Node.ret (some value)).renderIn width parent? =
      "return " ++ value.renderIn width .ret ++ ";" := rfl

theorem renderIn_call (name? : Option String) (arguments : List Element) :
    (Node.call name? arguments).renderIn width parent? =
      name?.getD "" ++ "(" ++ String.intercalate ", " (renderElements width .call arguments) ++
        ")" := rfl

theorem renderIn_cast (type? : Option Primitive) (value : Element) :
    (Node.cast type? (some value)).renderIn width parent? =
      "(" ++ renderType type? ++ ")" ++ value.renderIn width .cast := rfl

theorem renderIn_body (body : Body) :
    (Node.body body).renderIn width parent? = body.render width := rfl

theorem renderIn_ifElse (condition : Node) (body : Body) (else? : Option Node) :
    (Node.ifElse (some condition) (some body) else?).renderIn width parent? =
      "if (" ++ condition.renderIn width (some .ifElse) ++ ")\n" ++ body.render width ++
        "\nelse\n" ++ else?.elim ";" (Node.renderIn width (some .ifElse)) := by
  cases else? <;> rfl

theorem renderIn_whileLoop (condition : Node) (body : Body) :
    (Node.whileLoop (some condition) (some body)).renderIn width parent? =
      "while (" ++ condition.renderIn width (some .whileLoop) ++ ")\n" ++ body.render width := rfl

theorem renderIn_doLoop (condition : Node) (body : Body) :
    (Node.doLoop (some condition) (some body)).renderIn width parent? =
      "do\n" ++ body.render width ++ "\nwhile (" ++ condition.renderIn width (some .doLoop) ++
        ");" := rfl

theorem renderIn_forLoop (precommands loopcommands : List Node) (condition? : Option Node)
    (body : Body) :
    (Node.forLoop precommands condition? loopcommands (some body)).renderIn width parent? =
      "for (" ++ String.intercalate ", " (renderNodes width .forLoop precommands) ++ "; " ++
        condition?.elim "" (Node.renderIn width (some .forLoop)) ++ "; " ++
        String.intercalate ", " (renderNodes width .forLoop loopcommands) ++ ")\n" ++
        body.render width := by
  cases condition? <;> rfl

theorem renderIn_list (values : List Element) :
    (Node.list values).renderIn width parent? =
      "[" ++ String.intercalate ", " (renderElements width .list values) ++ "]" := rfl

theorem renderIn_vector (x y z : Element) :
    (Node.vector x y z).renderIn width parent? =
      "<" ++ String.intercalate ", "
        [x.renderIn width .vector, y.renderIn width .vector, z.renderIn width .vector] ++ ">" := rfl

theorem renderIn_quaternion (x y z s : Element) :
    (Node.quaternion x y z s).renderIn width parent? =
      "<" ++ String.intercalate ", "
        [x.renderIn width .quaternion, y.renderIn width .quaternion, z.renderIn width .quaternion,
          s.renderIn width .quaternion] ++ ">" := rfl

theorem renderIn_value (operation : Operation) :
    (Node.value operation).renderIn width parent? = operation.renderIn width .value parent? := rfl

theorem renderIn_expression (operation : Operation) :
    (Node.expression operation).renderIn width parent? =
      if parent? = some .body then operation.renderIn width .expression parent? ++ ";"
      else operation.renderIn width .expression parent? := rfl

theorem renderIn_condition (operation : Operation) :
    (Node.condition operation).renderIn width parent? =
      operation.renderIn width .condition parent? := rfl

theorem renderIn_preMod (operator? : Option String) (value : Element) :
    (Node.preMod operator? (some value)).renderIn width parent? =
      renderPreMod (operator?.getD "") (value.renderIn width .preMod) := rfl

theorem renderIn_postMod (operator? : Option String) (value : Element) :
    (Node.postMod operator? (some value)).renderIn width parent? =
      value.renderIn width .postMod ++ operator?.getD "" := rfl

end Node

/-- The number of blanks per level of nesting where none is chosen. -/
def defaultIndentWidth : Nat := 2

/-- The written form of a node that stands by itself. -/
def Node.render (node : Node) (width : Nat := defaultIndentWidth) : String :=
  node.renderIn width none

/-- The written form of an element that stands by itself. -/
def Element.render : Element → String
  | .text t => t
  | .node n => n.render

end Lsl
