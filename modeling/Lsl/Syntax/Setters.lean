import Lsl.Syntax.Operator
/-!
# Assigning the fields of a node

A node's declared fields are assigned by name, in place.  A setter checks the new value against the
field, writes it, and gives back the element that it displaced.
-/

namespace Lsl

namespace Element

/-- The text that the field of a node is to hold. -/
def expectText (kind : Kind) (field : String) : Element → Except Error String
  | .text t => .ok t
  | other => .error (.fieldMismatch kind field other.describe)

/-- The node that the field of a node is to hold. -/
def expectNode (kind : Kind) (field : String) : Element → Except Error Node
  | .node n => .ok n
  | other => .error (.fieldMismatch kind field other.describe)

/-- The type that the field of a node is to hold. -/
def expectType (kind : Kind) (field : String) : Element → Except Error Primitive
  | .node (.type primitive) => .ok primitive
  | other => .error (.fieldMismatch kind field other.describe)

/-- The block that the field of a node is to hold. -/
def expectBody (kind : Kind) (field : String) : Element → Except Error Body
  | .node (.body body) => .ok body
  | other => .error (.fieldMismatch kind field other.describe)

/-- The state that the list field of a node is to hold. -/
def expectState (kind : Kind) (field : String) : Element → Except Error State
  | .node (.state state) => .ok state
  | other => .error (.fieldMismatch kind field other.describe)

/-- The parameter that the list field of a node is to hold. -/
def expectParam (kind : Kind) (field : String) : Element → Except Error Param
  | .node (.param param) => .ok param
  | other => .error (.fieldMismatch kind field other.describe)

/-- The function that the list field of a node is to hold. -/
def expectFunction (kind : Kind) (field : String) : Element → Except Error FunctionDef
  | .node (.function function) => .ok function
  | other => .error (.fieldMismatch kind field other.describe)

def ofType (primitive : Primitive) : Element :=
  .node (.type primitive)

def ofBody (body : Body) : Element :=
  .node (.body body)

end Element

/-- A global of a script is a variable or a function. -/
def Node.isGlobal : Node → Bool
  | .variable _ _ _ | .function _ => true
  | _ => false

/-- A script accepts its globals when all are nodes, and then when each may be a global. -/
def expectGlobals (values : List Element) : Except Error (List Node) := do
  let globals ← values.mapM (Element.expectNode .script "globals")
  match globals.find? (!·.isGlobal) with
  | some other => throw (.fieldMismatch .script "globals" other.kind.name)
  | none => return globals

namespace Node

/-- Assigns a single field, and gives the element that the field held before; a type that is still
void counts as absent. -/
def set (node : Node) (field : String) (value : Element) : Edited Node (Option Element) :=
  match node, field with
  | .function f, "type" =>
    .replace node (value.expectType .function field) (fun new => .function { f with type? := new })
      (f.type?.map .ofType)
  | .function f, "name" =>
    .replace node (value.expectText .function field) (fun new => .function { f with name? := new })
      (f.name?.map .text)
  | .function f, "body" =>
    .replace node (value.expectBody .function field) (fun new => .function { f with body? := new })
      (f.body?.map .ofBody)
  | .variable type? name? value?, "type" =>
    .replace node (value.expectType .variable field) (fun new => .variable new name? value?)
      (type?.map .ofType)
  | .variable type? name? value?, "name" =>
    .replace node (value.expectText .variable field) (fun new => .variable type? new value?)
      (name?.map .text)
  | .variable type? name? value?, "value" => (.variable type? name? value, .ok value?)
  | .param p, "type" =>
    .replace node (value.expectType .param field) (fun new => .param { p with type? := new })
      (p.type?.map .ofType)
  | .param p, "name" =>
    .replace node (value.expectText .param field) (fun new => .param { p with name? := new })
      (p.name?.map .text)
  | .type primitive, "value" =>
    match value with
    | .text name =>
      .replace node (Primitive.parse name) .type
        (if primitive.isVoid then none else some (.text primitive.name))
    | other => (node, .error (.unknownType other.describe))
  | .state s, "name" =>
    .replace node (value.expectText .state field) (fun new => .state { s with name? := new })
      (s.name?.map .text)
  | .stateChange target?, "value" =>
    .replace node (value.expectText .stateChange field) (fun new => .stateChange new)
      (target?.map .text)
  | .jump target?, "value" =>
    .replace node (value.expectText .jump field) (fun new => .jump new) (target?.map .text)
  | .label target?, "value" =>
    .replace node (value.expectText .label field) (fun new => .label new) (target?.map .text)
  | .ret value?, "value" => (.ret value, .ok value?)
  | .call name? arguments, "name" =>
    .replace node (value.expectText .call field) (fun new => .call new arguments)
      (name?.map .text)
  | .cast type? value?, "type" =>
    .replace node (value.expectType .cast field) (fun new => .cast new value?)
      (type?.map .ofType)
  | .cast type? value?, "value" => (.cast type? value, .ok value?)
  | .ifElse condition? body? else?, "condition" =>
    .replace node (value.expectNode .ifElse field) (fun new => .ifElse new body? else?)
      (condition?.map .node)
  | .ifElse condition? body? else?, "body" =>
    .replace node (value.expectBody .ifElse field) (fun new => .ifElse condition? new else?)
      (body?.map .ofBody)
  | .ifElse condition? body? else?, "else" =>
    .replace node (value.expectNode .ifElse field) (fun new => .ifElse condition? body? new)
      (else?.map .node)
  | .whileLoop condition? body?, "condition" =>
    .replace node (value.expectNode .whileLoop field) (fun new => .whileLoop new body?)
      (condition?.map .node)
  | .whileLoop condition? body?, "body" =>
    .replace node (value.expectBody .whileLoop field) (fun new => .whileLoop condition? new)
      (body?.map .ofBody)
  | .doLoop condition? body?, "condition" =>
    .replace node (value.expectNode .doLoop field) (fun new => .doLoop new body?)
      (condition?.map .node)
  | .doLoop condition? body?, "body" =>
    .replace node (value.expectBody .doLoop field) (fun new => .doLoop condition? new)
      (body?.map .ofBody)
  | .forLoop pre condition? loop body?, "condition" =>
    .replace node (value.expectNode .forLoop field) (fun new => .forLoop pre new loop body?)
      (condition?.map .node)
  | .forLoop pre condition? loop body?, "body" =>
    .replace node (value.expectBody .forLoop field) (fun new => .forLoop pre condition? loop new)
      (body?.map .ofBody)
  | .value o, field => Prod.map .value id (setOperand .value o field)
  | .expression o, field => Prod.map .expression id (setOperand .expression o field)
  | .condition o, field => Prod.map .condition id (setOperand .condition o field)
  | .preMod operator? value?, "operator" =>
    .replace node (value.expectText .preMod field) (fun new => .preMod new value?)
      (operator?.map .text)
  | .preMod operator? value?, "value" => (.preMod operator? value, .ok value?)
  | .postMod operator? value?, "operator" =>
    .replace node (value.expectText .postMod field) (fun new => .postMod new value?)
      (operator?.map .text)
  | .postMod operator? value?, "value" => (.postMod operator? value, .ok value?)
  | other, field => (other, .error (.noSuchField other.kind field 1))
where
  setOperand (kind : Kind) (o : Operation) (field : String) : Edited Operation (Option Element) :=
    match field with
    | "left" =>
      .replace o (value.expectNode kind field) (fun new => { o with left? := new })
        (o.left?.map .node)
    | "center" => ({ o with center? := value }, .ok o.center?)
    | "right" =>
      .replace o (value.expectNode kind field) (fun new => { o with right? := new })
        (o.right?.map .node)
    | field => (o, .error (.noSuchField kind field 1))

/-- Replaces a list field as a whole, and gives the list that the field held before. -/
def setList (node : Node) (field : String) (values : List Element) :
    Edited Node (List Element) :=
  match node, field with
  | .script s, "globals" =>
    .replace node (expectGlobals values) (fun globals => .script { s with globals })
      (s.globals.map .node)
  | .script s, "states" =>
    .replace node (values.mapM (Element.expectState .script field))
      (fun states => .script { s with states }) (s.states.map (.node ∘ .state))
  | .function f, "params" =>
    .replace node (values.mapM (Element.expectParam .function field))
      (fun params => .function { f with params }) (f.params.map (.node ∘ .param))
  | .state s, "events" =>
    .replace node (values.mapM (Element.expectFunction .state field))
      (fun events => .state { s with events }) (s.events.map (.node ∘ .function))
  | .call name? arguments, "arguments" => (.call name? values, .ok arguments)
  | .forLoop pre condition? loop body?, "precommands" =>
    .replace node (values.mapM (Element.expectNode .forLoop field))
      (fun commands => .forLoop commands condition? loop body?) (pre.map .node)
  | .forLoop pre condition? loop body?, "loopcommands" =>
    .replace node (values.mapM (Element.expectNode .forLoop field))
      (fun commands => .forLoop pre condition? commands body?) (loop.map .node)
  | other, field => (other, .error (.noSuchField other.kind field values.length))

/-- The literal with these three components. -/
def vectorOf : List Element → Except Error Node
  | [x, y, z] => .ok (.vector x y z)
  | values => .error (.wrongArity .vector 3 values.length)

/-- The literal with these four components. -/
def quaternionOf : List Element → Except Error Node
  | [x, y, z, s] => .ok (.quaternion x y z s)
  | values => .error (.wrongArity .quaternion 4 values.length)

/-- Installs the children for which a node declares no field: the statements of a block, the values
of a literal, the operands and operators of an expression. -/
def setOverflow (node : Node) (values : List Element) : Edited Node Unit :=
  match node with
  | .body _ =>
    .replace node (values.mapM (Element.expectNode .body "statements"))
      (fun statements => .body ⟨statements⟩) ()
  | .list _ => (.list values, .ok ())
  | .vector _ _ _ => .replace node (vectorOf values) id ()
  | .quaternion _ _ _ _ => .replace node (quaternionOf values) id ()
  | .value _ => .replace node (assemble values) .value ()
  | .expression _ => .replace node (assemble values) .expression ()
  | .condition _ => .replace node (assemble values) .condition ()
  | other =>
    if values.isEmpty then (other, .ok ())
    else (other,
      .error (.discardedSubtree other.kind values.length (Element.describeAll values)))

end Node

/-- The axes of a vector or rotation literal. -/
inductive Axis where
  | x
  | y
  | z
  | s
  deriving DecidableEq, Repr

namespace Node

/-- The component of a literal along an axis; only a rotation has the axis `s`. -/
def component? : Node → Axis → Option Element
  | .vector x _ _, .x => some x
  | .vector _ y _, .y => some y
  | .vector _ _ z, .z => some z
  | .quaternion x _ _ _, .x => some x
  | .quaternion _ y _ _, .y => some y
  | .quaternion _ _ z _, .z => some z
  | .quaternion _ _ _ s, .s => some s
  | _, _ => none

/-- The literal with the component along an axis replaced. -/
def setComponent? : Node → Axis → Element → Option Node
  | .vector _ y z, .x, new => some (.vector new y z)
  | .vector x _ z, .y, new => some (.vector x new z)
  | .vector x y _, .z, new => some (.vector x y new)
  | .quaternion _ y z s, .x, new => some (.quaternion new y z s)
  | .quaternion x _ z s, .y, new => some (.quaternion x new z s)
  | .quaternion x y _ s, .z, new => some (.quaternion x y new s)
  | .quaternion x y z _, .s, new => some (.quaternion x y z new)
  | _, _, _ => none

end Node

end Lsl
