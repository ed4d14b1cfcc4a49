import Lsl.Proofs.Syntax.Normal
/-!
# Restored trees

The tree that the written form of a well-shaped tree is read as.  It is the normal tree but for the
declarations without a value: the literal that is written for them is read as a value, not as a text.
Like a normal tree, a restored one is written as the tree it comes from.
-/

namespace Lsl

/-- A value that is a lone word. -/
def Element.ofWord (word : String) : Element :=
  .node (.value (.leaf (.text word)))

/-- The value of a declaration without one, as it is read from the literal that is written for it. -/
def Primitive.initial? : Primitive → Option Element
  | .void => none
  | .integer => some (.ofWord "0")
  | .float => some (.ofWord "0.0")
  | .string | .key => some (.ofWord "\"\"")
  | .vector =>
    some (.node (.value (.leaf (.node (.vector (.ofWord "0.0") (.ofWord "0.0") (.ofWord "0.0"))))))
  | .rotation =>
    some (.node (.value (.leaf (.node
      (.quaternion (.ofWord "0.0") (.ofWord "0.0") (.ofWord "0.0") (.ofWord "0.0"))))))
  | .list => some (.node (.value (.leaf (.node (.list [])))))

mutual

/-- What is read back for a node. Only statements and globals have declarations in them, and inside
an expression there is nothing to restore beyond its normal tree. -/
def Node.restored : Node → Node
  | .function function => .function function.restored
  | .variable type? name? value? =>
    .variable type? name? ((normalElement? value?).or (type?.bind Primitive.initial?))
  | .ret value? => .ret (normalElement? value?)
  | .body body => .body body.restored
  | .ifElse condition? body? else? =>
    .ifElse (normalNode? condition?) (restoredBody? body?) (restoredNode? else?)
  | .whileLoop condition? body? => .whileLoop (normalNode? condition?) (restoredBody? body?)
  | .doLoop condition? body? => .doLoop (normalNode? condition?) (restoredBody? body?)
  | .forLoop precommands condition? loopcommands body? =>
    .forLoop (normalNodes precommands) (normalNode? condition?) (normalNodes loopcommands)
      (restoredBody? body?)
  | .expression operation => .expression operation.normal
  | other => other

def Body.restored : Body → Body
  | ⟨statements⟩ => Body.unwrapped ⟨restoredNodes statements⟩

def FunctionDef.restored : FunctionDef → FunctionDef
  | ⟨type?, name?, params, body?⟩ => ⟨type?, name?, params, restoredBody? body?⟩

def restoredNode? : Option Node → Option Node
  | some node => some node.restored
  | none => none

def restoredBody? : Option Body → Option Body
  | some body => some body.restored
  | none => none

def restoredNodes : List Node → List Node
  | [] => []
  | node :: rest => node.restored :: restoredNodes rest

end

def State.restored (state : State) : State :=
  ⟨state.name?, state.events.map FunctionDef.restored⟩

/-- What is read back for a script. -/
def Script.restored (script : Script) : Script :=
  ⟨script.globals.map Node.restored, script.states.map State.restored⟩

@[simp] theorem Node.kind_restored (node : Node) : node.restored.kind = node.kind := by
  cases node <;> simp only [Node.restored, Node.kind]

theorem isRedundant_restoredNodes (statements : List Node) :
    Body.isRedundant ⟨restoredNodes statements⟩ = Body.isRedundant ⟨statements⟩ := by
  match statements with
  | [] => rw [restoredNodes]
  | [statement] =>
    cases statement <;> simp only [restoredNodes, Node.restored, Body.isRedundant]
  | _ :: _ :: _ =>
    rw [restoredNodes, restoredNodes, Body.isRedundant_cons_cons, Body.isRedundant_cons_cons]

section

variable {width : Nat}

/-- The value that is read from the literal of a type is written as that literal. -/
theorem renderVariable_initial? (type? : Option Primitive) (name? : Option String)
    (value? : Option Element) :
    renderVariable type? name?
        ((value?.or (type?.bind Primitive.initial?)).map (Element.renderIn width .variable)) =
      renderVariable type? name? (value?.map (Element.renderIn width .variable)) := by
  cases value? with
  | some value => rfl
  | none =>
    cases type? with
    | none => rfl
    | some type => cases type <;> rfl

mutual

/-- A node is written as the one that is read back for it. -/
theorem Node.renderIn_restored : ∀ (node : Node) (parent? : Option Kind),
    node.restored.renderIn width parent? = node.renderIn width parent?
  | .function function, _ => by rw [Node.restored]; exact function.render_restored
  | .variable type? name? value?, _ => by
    rw [Node.restored, Node.renderIn_variable_eq, Node.renderIn_variable_eq, renderVariable_initial?,
      renderIn_normalElement?]
  | .ret value?, _ => by
    rw [Node.restored, Node.renderIn_ret_eq, Node.renderIn_ret_eq, renderIn_normalElement?]
  | .body body, _ => by rw [Node.restored]; exact body.render_restored
  | .ifElse condition? body? else?, _ => by
    rw [Node.restored, Node.renderIn_ifElse_eq, Node.renderIn_ifElse_eq, renderIn_normalNode?,
      render_restoredBody?, renderIn_restoredNode?]
  | .whileLoop condition? body?, _ => by
    rw [Node.restored, Node.renderIn_whileLoop_eq, Node.renderIn_whileLoop_eq, renderIn_normalNode?,
      render_restoredBody?]
  | .doLoop condition? body?, _ => by
    rw [Node.restored, Node.renderIn_doLoop_eq, Node.renderIn_doLoop_eq, renderIn_normalNode?,
      render_restoredBody?]
  | .forLoop precommands condition? loopcommands body?, _ => by
    rw [Node.restored, Node.renderIn_forLoop_eq, Node.renderIn_forLoop_eq,
      renderNodes_normalNodes, renderIn_normalNode?, renderNodes_normalNodes, render_restoredBody?]
  | .expression operation, _ => by
    rw [Node.restored, Node.renderIn_expression, Node.renderIn_expression,
      operation.renderIn_normal rfl]
  | .script _, _ | .param _, _ | .type _, _ | .state _, _ | .stateChange _, _ | .jump _, _
  | .label _, _ | .call _ _, _ | .cast _ _, _ | .list _, _ | .vector _ _ _, _
  | .quaternion _ _ _ _, _ | .value _, _ | .condition _, _ | .preMod _ _, _ | .postMod _ _, _ => by
    simp only [Node.restored]

theorem Body.render_restored : ∀ body : Body, body.restored.render width = body.render width
  | ⟨statements⟩ => by
    rw [Body.restored, Body.render_unwrapped, Body.render_eq, Body.render_eq,
      isRedundant_restoredNodes, renderNodes_restoredNodes]

theorem FunctionDef.render_restored : ∀ function : FunctionDef,
    function.restored.render width = function.render width
  | ⟨_, _, _, body?⟩ => by
    rw [FunctionDef.restored, FunctionDef.render_eq, FunctionDef.render_eq, render_restoredBody?]

theorem renderIn_restoredNode? : ∀ (node? : Option Node) (parent? : Option Kind),
    (restoredNode? node?).map (Node.renderIn width parent?) = node?.map (Node.renderIn width parent?)
  | none, _ => by rw [restoredNode?]
  | some node, parent? => by
    rw [restoredNode?, Option.map_some, Option.map_some, node.renderIn_restored]

theorem render_restoredBody? : ∀ body? : Option Body,
    (restoredBody? body?).map (Body.render width) = body?.map (Body.render width)
  | none => by rw [restoredBody?]
  | some body => by rw [restoredBody?, Option.map_some, Option.map_some, body.render_restored]

theorem renderNodes_restoredNodes : ∀ (nodes : List Node) (parent : Kind),
    renderNodes width parent (restoredNodes nodes) = renderNodes width parent nodes
  | [], _ => by rw [restoredNodes]
  | node :: rest, parent => by
    rw [restoredNodes, renderNodes, renderNodes, node.renderIn_restored,
      renderNodes_restoredNodes rest]

end

theorem State.render_restored (state : State) :
    state.restored.render width = state.render width := by
  obtain ⟨name?, events⟩ := state
  have hevents : (events.map FunctionDef.restored).map (FunctionDef.render width) =
      events.map (FunctionDef.render width) := by
    rw [List.map_map]
    exact List.map_congr_left fun event _ => event.render_restored
  rw [State.restored, State.render, State.render, renderFunctions_eq_map, renderFunctions_eq_map,
    hevents]

theorem Script.render_restored (script : Script) :
    script.restored.render width = script.render width := by
  obtain ⟨globals, states⟩ := script
  have hglobals : (globals.map Node.restored).map (Node.renderIn width (some .script)) =
      globals.map (Node.renderIn width (some .script)) := by
    rw [List.map_map]
    exact List.map_congr_left fun node _ => node.renderIn_restored _
  have hstates : (states.map State.restored).map (State.render width) =
      states.map (State.render width) := by
    rw [List.map_map]
    exact List.map_congr_left fun state _ => state.render_restored
  rw [Script.restored, Script.render, Script.render, renderNodes_eq_map, renderNodes_eq_map,
    renderStates_eq_map, renderStates_eq_map, hglobals, hstates]

end

end Lsl
