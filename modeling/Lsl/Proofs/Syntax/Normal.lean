import Lsl.Proofs.Roundtrip.Expression
import Lsl.Proofs.Syntax.Written
/-!
# Normal trees

Some nodes only stand around another one and leave no trace in the written form: a block around a
lone block, and an expression node around a lone operand where the node further out is an operand or
an operation too.  The normal tree of a tree is without these, and its declarations have the values
that they are written with.
-/

namespace Lsl

/-! ## Nodes that only wrap another one -/

/-- What an expression node without sides stands for. -/
def Node.loneCenter? (node : Node) : Option Element :=
  match node.operation? with
  | some ⟨none, some center, none⟩ => some center
  | _ => none

/-- An element without the expression node that may be wrapped around it. -/
def Element.unwrapped : Element → Element
  | .text t => .text t
  | .node n => n.loneCenter?.getD (.node n)

/-- A node without the expression node that may be wrapped around it. What is left has to be an
expression node, as the sides of operations are. -/
def Node.unwrapped (node : Node) : Node :=
  match node.loneCenter? with
  | some (.node inner) => if inner.kind.isExpression then inner else node
  | _ => node

/-- An operation without the expression nodes wrapped around its lone operand or its sides. -/
def Operation.unwrapped : Operation → Operation
  | ⟨none, some center, none⟩ => ⟨none, some center.unwrapped, none⟩
  | ⟨left?, center?, right?⟩ => ⟨left?.map Node.unwrapped, center?, right?.map Node.unwrapped⟩

/-- A block without the block that may be wrapped around it. -/
def Body.unwrapped : Body → Body
  | ⟨[.body inner]⟩ => inner
  | body => body

/-- The value of a declaration: the default of its type if it is declared without one. -/
def declaredValue? (type? : Option Primitive) (value? : Option Element) : Option Element :=
  value?.or ((type?.bind Primitive.defaultLiteral).map .text)

/-! ## Normal trees -/

mutual

/-- The normal tree of a node. Parts come before the whole. -/
def Node.normal : Node → Node
  | .script script => .script script.normal
  | .function function => .function function.normal
  | .variable type? name? value? =>
    .variable type? name? (declaredValue? type? (normalElement? value?))
  | .param param => .param param
  | .type primitive => .type primitive
  | .state state => .state state.normal
  | .stateChange target? => .stateChange target?
  | .jump target? => .jump target?
  | .label target? => .label target?
  | .ret value? => .ret (normalElement? value?)
  | .call name? arguments => .call name? (normalElements arguments)
  | .cast type? value? => .cast type? ((normalElement? value?).map Element.unwrapped)
  | .body body => .body body.normal
  | .ifElse condition? body? else? =>
    .ifElse (normalNode? condition?) (normalBody? body?) (normalNode? else?)
  | .whileLoop condition? body? => .whileLoop (normalNode? condition?) (normalBody? body?)
  | .doLoop condition? body? => .doLoop (normalNode? condition?) (normalBody? body?)
  | .forLoop precommands condition? loopcommands body? =>
    .forLoop (normalNodes precommands) (normalNode? condition?) (normalNodes loopcommands)
      (normalBody? body?)
  | .list values => .list (normalElements values)
  | .vector x y z => .vector x.normal y.normal z.normal
  | .quaternion x y z s => .quaternion x.normal y.normal z.normal s.normal
  | .value operation => .value operation.normal
  | .expression operation => .expression operation.normal
  | .condition operation => .condition operation.normal
  | .preMod operator? value? => .preMod operator? ((normalElement? value?).map Element.unwrapped)
  | .postMod operator? value? => .postMod operator? ((normalElement? value?).map Element.unwrapped)

def Element.normal : Element → Element
  | .text t => .text t
  | .node n => .node n.normal

def Body.normal : Body → Body
  | ⟨statements⟩ => Body.unwrapped ⟨normalNodes statements⟩

def FunctionDef.normal : FunctionDef → FunctionDef
  | ⟨type?, name?, params, body?⟩ => ⟨type?, name?, params, normalBody? body?⟩

def State.normal : State → State
  | ⟨name?, events⟩ => ⟨name?, normalFunctions events⟩

def Script.normal : Script → Script
  | ⟨globals, states⟩ => ⟨normalNodes globals, normalStates states⟩

def Operation.normal : Operation → Operation
  | ⟨left?, center?, right?⟩ =>
    Operation.unwrapped ⟨normalNode? left?, normalElement? center?, normalNode? right?⟩

def normalNode? : Option Node → Option Node
  | some node => some node.normal
  | none => none

def normalElement? : Option Element → Option Element
  | some element => some element.normal
  | none => none

def normalBody? : Option Body → Option Body
  | some body => some body.normal
  | none => none

def normalNodes : List Node → List Node
  | [] => []
  | node :: rest => node.normal :: normalNodes rest

def normalElements : List Element → List Element
  | [] => []
  | element :: rest => element.normal :: normalElements rest

def normalFunctions : List FunctionDef → List FunctionDef
  | [] => []
  | function :: rest => function.normal :: normalFunctions rest

def normalStates : List State → List State
  | [] => []
  | state :: rest => state.normal :: normalStates rest

end

@[simp] theorem isSome_normalNode? (node? : Option Node) :
    (normalNode? node?).isSome = node?.isSome := by
  cases node? with
  | none => rw [normalNode?]
  | some node =>
    rw [normalNode?]
    rfl

theorem Body.isRedundant_cons_cons (first second : Node) (rest : List Node) :
    Body.isRedundant ⟨first :: second :: rest⟩ = false := by
  cases first <;> rfl

theorem isRedundant_normalNodes (statements : List Node) :
    Body.isRedundant ⟨normalNodes statements⟩ = Body.isRedundant ⟨statements⟩ := by
  match statements with
  | [] => rw [normalNodes]
  | [statement] => cases statement <;> simp only [normalNodes, Node.normal, Body.isRedundant]
  | _ :: _ :: _ =>
    rw [normalNodes, normalNodes, Body.isRedundant_cons_cons, Body.isRedundant_cons_cons]

/-! ## What is written

An expression node groups operands, and so does the node around it, so that what stands in its place
is put in parentheses just as before.  Neither of them is a block, which is all that a semicolon
depends on. -/

section

variable {width : Nat} {parent : Kind}

theorem Kind.ne_body_of_groupsOperands {kind : Kind} (h : kind.groupsOperands = true) :
    kind ≠ .body := by
  rintro rfl
  cases h

/-- Among operands a node is written in one way only. -/
theorem Node.renderIn_of_groupsOperands {parent' : Kind} (h : parent.groupsOperands = true)
    (h' : parent'.groupsOperands = true) (node : Node) :
    node.renderIn width (some parent) = node.renderIn width (some parent') := by
  have hany : (some parent).any Kind.groupsOperands = (some parent').any Kind.groupsOperands := by
    rw [Option.any_some, Option.any_some, h, h']
  cases node with
  | value operation => exact Operation.renderIn_congr hany operation
  | condition operation => exact Operation.renderIn_congr hany operation
  | expression operation =>
    rw [renderIn_expression, renderIn_expression, Operation.renderIn_congr hany operation,
      if_neg (by simpa using Kind.ne_body_of_groupsOperands h),
      if_neg (by simpa using Kind.ne_body_of_groupsOperands h')]
  | ifElse => rw [renderIn_ifElse_eq, renderIn_ifElse_eq]
  | whileLoop => rw [renderIn_whileLoop_eq, renderIn_whileLoop_eq]
  | doLoop => rw [renderIn_doLoop_eq, renderIn_doLoop_eq]
  | forLoop => rw [renderIn_forLoop_eq, renderIn_forLoop_eq]
  | _ => rfl

theorem Element.renderIn_of_groupsOperands {parent' : Kind} (h : parent.groupsOperands = true)
    (h' : parent'.groupsOperands = true) (element : Element) :
    element.renderIn width parent = element.renderIn width parent' := by
  cases element with
  | text t => rfl
  | node node => exact Node.renderIn_of_groupsOperands h h' node

/-- An expression node around a lone operand is written as that operand. -/
theorem Node.renderIn_of_loneCenter {node : Node} {center : Element}
    (h : node.loneCenter? = some center) (hparent : parent.groupsOperands = true) :
    node.renderIn width (some parent) = center.renderIn width parent := by
  have hbody := Kind.ne_body_of_groupsOperands hparent
  have written {kind : Kind} (hkind : kind.groupsOperands = true) :
      Operation.renderIn width kind (some parent) ⟨none, some center, none⟩ =
        center.renderIn width parent :=
    Element.renderIn_of_groupsOperands hkind hparent center
  unfold loneCenter? at h
  split at h
  · next hoperation =>
    cases h
    cases node with
    | value => cases hoperation; exact written rfl
    | condition => cases hoperation; exact written rfl
    | expression =>
      cases hoperation
      rw [renderIn_expression, if_neg (by simpa using hbody)]
      exact written rfl
    | _ => cases hoperation
  · cases h

theorem Element.renderIn_unwrapped (hparent : parent.groupsOperands = true) (element : Element) :
    element.unwrapped.renderIn width parent = element.renderIn width parent := by
  cases element with
  | text t => rfl
  | node node =>
    rw [Element.unwrapped]
    cases h : node.loneCenter? with
    | none => rfl
    | some center => exact (Node.renderIn_of_loneCenter h hparent).symm

theorem Node.renderIn_unwrapped (hparent : parent.groupsOperands = true) (node : Node) :
    node.unwrapped.renderIn width (some parent) = node.renderIn width (some parent) := by
  unfold Node.unwrapped
  split
  · next inner h =>
    split
    · exact (Node.renderIn_of_loneCenter h hparent).symm
    · rfl
  · rfl

theorem Operation.renderIn_unwrapped {kind : Kind} (hkind : kind.groupsOperands = true)
    (parent? : Option Kind) (operation : Operation) :
    operation.unwrapped.renderIn width kind parent? = operation.renderIn width kind parent? := by
  unfold Operation.unwrapped
  split
  · simp only [Operation.renderIn_eq, Option.map_some, Element.renderIn_unwrapped hkind]
  · simp only [Operation.renderIn_eq, Option.map_map, Option.isSome_map, Function.comp_def,
      Node.renderIn_unwrapped hkind]

theorem Body.render_unwrapped (body : Body) : body.unwrapped.render width = body.render width := by
  unfold Body.unwrapped
  split <;> rfl

theorem renderVariable_declaredValue? (type? : Option Primitive) (name? : Option String)
    (value? : Option Element) :
    renderVariable type? name? ((declaredValue? type? value?).map (Element.renderIn width parent)) =
      renderVariable type? name? (value?.map (Element.renderIn width parent)) := by
  cases value? with
  | some value => rfl
  | none =>
    cases type? with
    | none => rfl
    | some type => cases type <;> rfl

theorem renderIn_unwrapped? (hparent : parent.groupsOperands = true) (element? : Option Element) :
    (element?.map Element.unwrapped).map (Element.renderIn width parent) =
      element?.map (Element.renderIn width parent) := by
  rw [Option.map_map]
  exact Option.map_congr fun element _ => Element.renderIn_unwrapped hparent element

mutual

/-- A node is written as its normal tree is. -/
theorem Node.renderIn_normal : ∀ (node : Node) (parent? : Option Kind),
    node.normal.renderIn width parent? = node.renderIn width parent?
  | .script script, _ => by rw [Node.normal]; exact script.render_normal
  | .function function, _ => by rw [Node.normal]; exact function.render_normal
  | .variable type? name? value?, _ => by
    rw [Node.normal, Node.renderIn_variable_eq, Node.renderIn_variable_eq, renderVariable_declaredValue?,
      renderIn_normalElement?]
  | .param _, _ => by rw [Node.normal]
  | .type _, _ => by rw [Node.normal]
  | .state state, _ => by rw [Node.normal]; exact state.render_normal
  | .stateChange _, _ => by rw [Node.normal]
  | .jump _, _ => by rw [Node.normal]
  | .label _, _ => by rw [Node.normal]
  | .ret value?, _ => by
    rw [Node.normal, Node.renderIn_ret_eq, Node.renderIn_ret_eq, renderIn_normalElement?]
  | .call name? arguments, _ => by
    rw [Node.normal, Node.renderIn_call, Node.renderIn_call, renderElements_normalElements]
  | .cast type? value?, _ => by
    rw [Node.normal, Node.renderIn_cast_eq, Node.renderIn_cast_eq, renderIn_unwrapped? rfl,
      renderIn_normalElement?]
  | .body body, _ => by rw [Node.normal]; exact body.render_normal
  | .ifElse condition? body? else?, _ => by
    rw [Node.normal, Node.renderIn_ifElse_eq, Node.renderIn_ifElse_eq, renderIn_normalNode?,
      render_normalBody?, renderIn_normalNode?]
  | .whileLoop condition? body?, _ => by
    rw [Node.normal, Node.renderIn_whileLoop_eq, Node.renderIn_whileLoop_eq, renderIn_normalNode?,
      render_normalBody?]
  | .doLoop condition? body?, _ => by
    rw [Node.normal, Node.renderIn_doLoop_eq, Node.renderIn_doLoop_eq, renderIn_normalNode?,
      render_normalBody?]
  | .forLoop precommands condition? loopcommands body?, _ => by
    rw [Node.normal, Node.renderIn_forLoop_eq, Node.renderIn_forLoop_eq, renderNodes_normalNodes,
      renderIn_normalNode?, renderNodes_normalNodes, render_normalBody?]
  | .list values, _ => by
    rw [Node.normal, Node.renderIn_list, Node.renderIn_list, renderElements_normalElements]
  | .vector x y z, _ => by
    rw [Node.normal, Node.renderIn_vector, Node.renderIn_vector, x.renderIn_normal, y.renderIn_normal,
      z.renderIn_normal]
  | .quaternion x y z s, _ => by
    rw [Node.normal, Node.renderIn_quaternion, Node.renderIn_quaternion, x.renderIn_normal,
      y.renderIn_normal, z.renderIn_normal, s.renderIn_normal]
  | .value operation, _ => by
    rw [Node.normal, Node.renderIn_value, Node.renderIn_value, operation.renderIn_normal rfl]
  | .expression operation, _ => by
    rw [Node.normal, Node.renderIn_expression, Node.renderIn_expression, operation.renderIn_normal rfl]
  | .condition operation, _ => by
    rw [Node.normal, Node.renderIn_condition, Node.renderIn_condition, operation.renderIn_normal rfl]
  | .preMod operator? value?, _ => by
    rw [Node.normal, Node.renderIn_preMod_eq, Node.renderIn_preMod_eq, renderIn_unwrapped? rfl,
      renderIn_normalElement?]
  | .postMod operator? value?, _ => by
    rw [Node.normal, Node.renderIn_postMod_eq, Node.renderIn_postMod_eq, renderIn_unwrapped? rfl,
      renderIn_normalElement?]

theorem Element.renderIn_normal : ∀ (element : Element) (parent : Kind),
    element.normal.renderIn width parent = element.renderIn width parent
  | .text _, _ => by rw [Element.normal]
  | .node node, parent => by rw [Element.normal]; exact node.renderIn_normal (some parent)

theorem Body.render_normal : ∀ body : Body, body.normal.render width = body.render width
  | ⟨statements⟩ => by
    rw [Body.normal, Body.render_unwrapped, Body.render_eq, Body.render_eq, isRedundant_normalNodes,
      renderNodes_normalNodes]

theorem FunctionDef.render_normal : ∀ function : FunctionDef,
    function.normal.render width = function.render width
  | ⟨_, _, _, body?⟩ => by
    rw [FunctionDef.normal, FunctionDef.render_eq, FunctionDef.render_eq, render_normalBody?]

theorem State.render_normal : ∀ state : State, state.normal.render width = state.render width
  | ⟨_, events⟩ => by
    rw [State.normal, State.render, State.render, renderFunctions_normalFunctions]

theorem Script.render_normal : ∀ script : Script,
    script.normal.render width = script.render width
  | ⟨globals, states⟩ => by
    rw [Script.normal, Script.render, Script.render, renderNodes_normalNodes,
      renderStates_normalStates]

theorem Operation.renderIn_normal : ∀ (operation : Operation) {kind : Kind} {parent? : Option Kind},
    kind.groupsOperands = true →
    operation.normal.renderIn width kind parent? = operation.renderIn width kind parent?
  | ⟨left?, center?, right?⟩, _, _, hkind => by
    rw [Operation.normal, Operation.renderIn_unwrapped hkind, Operation.renderIn_eq,
      Operation.renderIn_eq, renderIn_normalNode?, renderIn_normalElement?, renderIn_normalNode?,
      isSome_normalNode?, isSome_normalNode?]

theorem renderIn_normalNode? : ∀ (node? : Option Node) (parent? : Option Kind),
    (normalNode? node?).map (Node.renderIn width parent?) = node?.map (Node.renderIn width parent?)
  | none, _ => by rw [normalNode?]
  | some node, parent? => by
    rw [normalNode?, Option.map_some, Option.map_some, node.renderIn_normal]

theorem renderIn_normalElement? : ∀ (element? : Option Element) (parent : Kind),
    (normalElement? element?).map (Element.renderIn width parent) =
      element?.map (Element.renderIn width parent)
  | none, _ => by rw [normalElement?]
  | some element, parent => by
    rw [normalElement?, Option.map_some, Option.map_some, element.renderIn_normal]

theorem render_normalBody? : ∀ body? : Option Body,
    (normalBody? body?).map (Body.render width) = body?.map (Body.render width)
  | none => by rw [normalBody?]
  | some body => by rw [normalBody?, Option.map_some, Option.map_some, body.render_normal]

theorem renderNodes_normalNodes : ∀ (nodes : List Node) (parent : Kind),
    renderNodes width parent (normalNodes nodes) = renderNodes width parent nodes
  | [], _ => by rw [normalNodes]
  | node :: rest, parent => by
    rw [normalNodes, renderNodes, renderNodes, node.renderIn_normal, renderNodes_normalNodes rest]

theorem renderElements_normalElements : ∀ (elements : List Element) (parent : Kind),
    renderElements width parent (normalElements elements) = renderElements width parent elements
  | [], _ => by rw [normalElements]
  | element :: rest, parent => by
    rw [normalElements, renderElements, renderElements, element.renderIn_normal,
      renderElements_normalElements rest]

theorem renderFunctions_normalFunctions : ∀ functions : List FunctionDef,
    renderFunctions width (normalFunctions functions) = renderFunctions width functions
  | [] => by rw [normalFunctions]
  | function :: rest => by
    rw [normalFunctions, renderFunctions, renderFunctions, function.render_normal,
      renderFunctions_normalFunctions rest]

theorem renderStates_normalStates : ∀ states : List State,
    renderStates width (normalStates states) = renderStates width states
  | [] => by rw [normalStates]
  | state :: rest => by
    rw [normalStates, renderStates, renderStates, state.render_normal,
      renderStates_normalStates rest]

end

/-- Every node is written as its normal tree is, whatever the width of an indentation. -/
theorem Node.render_normal_eq (node : Node) (width : Nat) :
    node.normal.render width = node.render width :=
  node.renderIn_normal none

end

end Lsl
