import Lsl.Proofs.Syntax.Splitting
import Lsl.Proofs.Syntax.WellShaped
/-!
# What holds everywhere in a tree

The nodes inside a node, and the conditions that a sound tree meets at each of them: a literal has
as many components as its kind has axes, and the globals of a script are variables and functions.  A
node is sound when it meets them itself and its children are sound, which is how all operations on
trees are shown to keep soundness.
-/

namespace Lsl

/-! ## The nodes inside a node -/

/-- The node that an element is, if it is one. -/
def Element.nodes : Element → List Node
  | .text _ => []
  | .node n => [n]

@[simp] theorem Element.mem_nodes {element : Element} {node : Node} :
    node ∈ element.nodes ↔ element = .node node := by
  cases element with
  | text t => simp [Element.nodes]
  | node n => simp [Element.nodes, eq_comm]

/-- The node in a field that a tree under construction may lack. -/
def elementNodes (value? : Option Element) : List Node :=
  value?.toList.flatMap Element.nodes

def typeNodes (type? : Option Primitive) : List Node :=
  type?.toList.map .type

def bodyNodes (body? : Option Body) : List Node :=
  body?.toList.map .body

def Operation.children (operation : Operation) : List Node :=
  operation.left?.toList ++ elementNodes operation.center? ++ operation.right?.toList

/-- The nodes that a node has as its parts. -/
def Node.children : Node → List Node
  | .script s => s.globals ++ s.states.map .state
  | .function f => typeNodes f.type? ++ f.params.map .param ++ bodyNodes f.body?
  | .variable type? _ value? | .cast type? value? => typeNodes type? ++ elementNodes value?
  | .param p => typeNodes p.type?
  | .type _ | .stateChange _ | .jump _ | .label _ => []
  | .state s => s.events.map .function
  | .ret value? | .preMod _ value? | .postMod _ value? => elementNodes value?
  | .call _ values | .list values => values.flatMap Element.nodes
  | .body block => block.statements
  | .ifElse condition? body? else? => condition?.toList ++ bodyNodes body? ++ else?.toList
  | .whileLoop condition? body? | .doLoop condition? body? => condition?.toList ++ bodyNodes body?
  | .forLoop precommands condition? loopcommands body? =>
    precommands ++ condition?.toList ++ loopcommands ++ bodyNodes body?
  | .vector x y z => [x, y, z].flatMap Element.nodes
  | .quaternion x y z s => [x, y, z, s].flatMap Element.nodes
  | .value o | .expression o | .condition o => o.children

/-- The nodes of a tree: its root and, further in, the children of its nodes. -/
inductive Node.Within : Node → Node → Prop
  | refl (root : Node) : Within root root
  | child {node child root : Node} : child ∈ root.children → Within node child → Within node root

/-! ## Sound trees -/

/-- The components of a literal, in order. -/
def Node.components : Node → List Element
  | .vector x y z => [x, y, z]
  | .quaternion x y z s => [x, y, z, s]
  | _ => []

/-- The axes along which a literal of this kind has components, in order. -/
def Kind.axes : Kind → List Axis
  | .vector => [.x, .y, .z]
  | .quaternion => [.x, .y, .z, .s]
  | _ => []

/-- What a sound tree has at each of its nodes. -/
structure Node.Proper (node : Node) : Prop where
  vector : node.kind = .vector → node.components.length = 3
  quaternion : node.kind = .quaternion → node.components.length = 4
  read : node.kind.axes.map node.component? = node.components.map some
  write : ∀ axis ∈ node.kind.axes, ∀ value, (node.setComponent? axis value).isSome = true
  globals : ∀ script, node = .script script → ∀ child ∈ script.globals, child.isGlobal = true

/-- Only a script can fail to be proper: a literal has all its components by its making. -/
theorem Node.proper_of_kind_ne_script {node : Node} (h : node.kind ≠ .script) : node.Proper where
  vector hkind := by
    cases node <;> cases hkind
    rfl
  quaternion hkind := by
    cases node <;> cases hkind
    rfl
  read := by cases node <;> rfl
  write := by
    intro axis haxis value
    cases node <;> cases axis <;> simp [Kind.axes, Node.kind, Node.setComponent?] at haxis ⊢
  globals := by
    rintro script rfl
    exact absurd rfl h

theorem Node.proper_script {script : Script}
    (h : ∀ child ∈ script.globals, child.isGlobal = true) : (Node.script script).Proper where
  vector := nofun
  quaternion := nofun
  read := rfl
  write := nofun
  globals := by
    rintro _ ⟨⟩
    exact h

/-- A tree is sound when each of its nodes is proper. -/
def Node.Sound (root : Node) : Prop :=
  ∀ node : Node, node.Within root → node.Proper

theorem Node.sound_iff {root : Node} :
    root.Sound ↔ root.Proper ∧ ∀ child ∈ root.children, child.Sound := by
  constructor
  · intro h
    exact ⟨h root (.refl root), fun child hchild node hnode => h node (.child hchild hnode)⟩
  · rintro ⟨hproper, hchildren⟩ node hnode
    cases hnode with
    | refl => exact hproper
    | child hchild hnode => exact hchildren _ hchild node hnode

/-- A node other than a script is sound when its children are. -/
theorem Node.sound_iff_of_ne_script {root : Node} (h : root.kind ≠ .script) :
    root.Sound ↔ ∀ child ∈ root.children, child.Sound := by
  rw [sound_iff, and_iff_right (proper_of_kind_ne_script h)]

/-- An element is sound when it is a text or a sound node. -/
def Element.Sound (element : Element) : Prop :=
  ∀ node ∈ element.nodes, node.Sound

theorem Element.sound_node {node : Node} : (Element.node node).Sound ↔ node.Sound := by
  simp [Element.Sound, Element.nodes]

theorem Element.sound_text (text : String) : (Element.text text).Sound := by
  simp [Element.Sound, Element.nodes]

/-! ## Grouping -/

theorem Node.sound_value {operation : Operation}
    (h : ∀ child ∈ operation.children, child.Sound) : (Node.value operation).Sound :=
  (sound_iff_of_ne_script (by nofun)).2 h

theorem Operation.sound_leaf {center : Element} (h : center.Sound) :
    ∀ child ∈ (Operation.leaf center).children, child.Sound := by
  intro child hchild
  exact h child (by simpa [Operation.leaf, Operation.children, elementNodes] using hchild)

theorem Element.sound_toOperand {element : Element} (h : element.Sound) :
    element.toOperand.Sound := by
  cases element with
  | text t => exact Node.sound_value (Operation.sound_leaf h)
  | node n =>
    rw [Element.toOperand]
    split
    · exact Element.sound_node.1 h
    · exact Node.sound_value (Operation.sound_leaf h)

/-- Grouping sound elements gives a sound operation: all that it adds is value nodes. -/
theorem sound_assemble {values : List Element} {operation : Operation}
    (h : assemble values = .ok operation) (hvalues : ∀ value ∈ values, value.Sound) :
    ∀ child ∈ operation.children, child.Sound := by
  rw [assemble_eq_group] at h
  refine (Splitting.group_induction
    (fun values operation => (∀ value ∈ values, value.Sound) →
      ∀ child ∈ operation.children, child.Sound)
    (fun values side? => (∀ value ∈ values, value.Sound) → ∀ node ∈ side?, node.Sound)
    ?_ ?_ ?_ ?_ ?_ values).1 h hvalues
  · intro value hvalue
    exact Operation.sound_leaf (hvalue value (by simp))
  · intro before after center left? right? hleft hright hvalues child hchild
    simp only [Operation.children, elementNodes, Option.toList_some, List.flatMap_singleton,
      List.mem_append, Option.mem_toList] at hchild
    rcases hchild with (hchild | hchild) | hchild
    · exact hleft (fun value hvalue => hvalues value (by simp [hvalue])) child hchild
    · exact hvalues center (by simp) child hchild
    · exact hright (fun value hvalue => hvalues value (by simp [hvalue])) child hchild
  · intro _ node hnode
    cases hnode
  · rintro value hvalue _ ⟨⟩
    exact Element.sound_toOperand (hvalue value (by simp))
  · rintro values operation hoperation hvalues _ ⟨⟩
    exact Node.sound_value (hoperation hvalues)

/-! ## Well-shaped trees are sound -/

theorem Node.isGlobal_of_kind {node : Node} (h : node.kind.isGlobal = true) :
    node.isGlobal = true := by
  cases node <;> first | rfl | cases h

theorem Element.wellShaped_of_value {element : Element} {node : Node}
    (h : element.isWellShapedValue = true) (hnode : node ∈ element.nodes) :
    node.wellShaped = true := by
  cases Element.mem_nodes.1 hnode
  cases node <;> simp_all [Element.isWellShapedValue]

theorem Element.wellShaped_of_operand {element : Element} {node : Node}
    (h : element.isWellShapedOperand = true) (hnode : node ∈ element.nodes) :
    node.wellShaped = true := by
  cases Element.mem_nodes.1 hnode
  rw [isWellShapedOperand, Bool.and_eq_true] at h
  exact h.2

section

variable {node : Node}

theorem wellShaped_of_mem_typeNodes {type? : Option Primitive}
    (h : (type?.isNone || typed type?) = true) (hnode : node ∈ typeNodes type?) :
    node.wellShaped = true := by
  cases type? with
  | none => cases hnode
  | some primitive =>
    obtain rfl : node = .type primitive := List.mem_singleton.1 hnode
    exact h

theorem wellShaped_of_mem_values {values : List Element} (h : areWellShapedValues values = true)
    (hnode : node ∈ values.flatMap Element.nodes) : node.wellShaped = true := by
  obtain ⟨value, hvalue, hnode⟩ := List.mem_flatMap.1 hnode
  rw [areWellShapedValues_eq_all, List.all_eq_true] at h
  exact Element.wellShaped_of_value (h value hvalue) hnode

theorem wellShaped_of_mem_nodes {allowed : Kind → Bool} {nodes : List Node}
    (h : areWellShaped allowed nodes = true) (hnode : node ∈ nodes) : node.wellShaped = true := by
  rw [areWellShaped_eq_all, List.all_eq_true] at h
  exact (Bool.and_eq_true_iff.1 (h node hnode)).2

theorem wellShaped_of_mem_bodyNodes {body? : Option Body}
    (h : (match body? with
      | some body => body.wellShaped
      | none => false) = true) (hnode : node ∈ bodyNodes body?) : node.wellShaped = true := by
  cases body? with
  | none => cases h
  | some body =>
    obtain rfl : node = .body body := List.mem_singleton.1 hnode
    rwa [Node.wellShaped]

theorem wellShaped_of_mem_condition {condition? : Option Node}
    (h : (match condition? with
      | some (.condition operation) => operation.wellShaped
      | _ => false) = true) (hnode : node ∈ condition?.toList) : node.wellShaped = true := by
  obtain rfl : condition? = some node := Option.mem_toList.1 hnode
  cases node <;> first | cases h | rwa [Node.wellShaped]

theorem wellShaped_of_mem_value {value? : Option Element}
    (h : (match value? with
      | some value => value.isWellShapedValue
      | none => true) = true) (hnode : node ∈ elementNodes value?) : node.wellShaped = true := by
  cases value? with
  | none => cases hnode
  | some value => exact Element.wellShaped_of_value h (by simpa [elementNodes] using hnode)

theorem wellShaped_of_mem_operand {value? : Option Element}
    (h : (match value? with
      | some value => value.isWellShapedOperand
      | none => false) = true) (hnode : node ∈ elementNodes value?) : node.wellShaped = true := by
  cases value? with
  | none => cases hnode
  | some value => exact Element.wellShaped_of_operand h (by simpa [elementNodes] using hnode)

end

theorem Operation.wellShaped_of_mem_children {operation : Operation} {node : Node}
    (h : operation.wellShaped = true) (hnode : node ∈ operation.children) :
    node.wellShaped = true := by
  unfold Operation.wellShaped at h
  split at h
  · simp only [Bool.and_eq_true] at h
    obtain rfl | rfl : node = .value _ ∨ node = .value _ := by
      simpa [Operation.children, elementNodes, Element.nodes] using hnode
    · rw [Node.wellShaped_value, h.1.1]
    · rw [Node.wellShaped_value, h.2]
  · rw [Bool.and_eq_true] at h
    refine Element.wellShaped_of_operand h.1 ?_
    simpa [Operation.children, elementNodes] using hnode
  · cases h

theorem Script.wellShaped_of_mem_children {script : Script} {node : Node}
    (h : script.wellShaped = true) (hnode : node ∈ (Node.script script).children) :
    node.wellShaped = true := by
  obtain ⟨globals, states⟩ := script
  rw [Script.wellShaped, Bool.and_eq_true, areWellShapedStates_eq_all, List.all_eq_true] at h
  rcases List.mem_append.1 hnode with hnode | hnode
  · exact wellShaped_of_mem_nodes h.1 hnode
  · obtain ⟨state, hstate, rfl⟩ := List.mem_map.1 hnode
    rw [Node.wellShaped, h.2 state hstate]

theorem FunctionDef.wellShaped_of_mem_children {function : FunctionDef} {node : Node}
    (h : function.wellShaped = true) (hnode : node ∈ (Node.function function).children) :
    node.wellShaped = true := by
  obtain ⟨type?, name?, params, body?⟩ := function
  rw [FunctionDef.wellShaped.eq_def] at h
  simp only [Bool.and_eq_true, List.all_eq_true] at h
  obtain ⟨⟨⟨htype, -⟩, hparams⟩, hbody⟩ := h
  rw [Node.children, List.mem_append, List.mem_append] at hnode
  rcases hnode with (hnode | hnode) | hnode
  · exact wellShaped_of_mem_typeNodes htype hnode
  · obtain ⟨param, hparam, rfl⟩ := List.mem_map.1 hnode
    rw [Node.wellShaped, hparams param hparam]
  · exact wellShaped_of_mem_bodyNodes hbody hnode

theorem State.wellShaped_of_mem_children {state : State} {node : Node}
    (h : state.wellShaped = true) (hnode : node ∈ (Node.state state).children) :
    node.wellShaped = true := by
  obtain ⟨name?, events⟩ := state
  rw [State.wellShaped, Bool.and_eq_true, areWellShapedFunctions_eq_all, List.all_eq_true] at h
  obtain ⟨event, hevent, rfl⟩ := List.mem_map.1 hnode
  rw [Node.wellShaped, h.2 event hevent]

/-- Well-shapedness is inherited. -/
theorem Node.wellShaped_of_mem_children {root child : Node} (h : root.wellShaped = true)
    (hchild : child ∈ root.children) : child.wellShaped = true := by
  rw [Node.wellShaped.eq_def] at h
  cases root with
  | script _ => exact Script.wellShaped_of_mem_children h hchild
  | function _ => exact FunctionDef.wellShaped_of_mem_children h hchild
  | «variable» type? name? value? =>
    simp only [Bool.and_eq_true] at h
    rcases List.mem_append.1 hchild with hchild | hchild
    · exact wellShaped_of_mem_typeNodes (by rw [h.1.1, Bool.or_true]) hchild
    · exact wellShaped_of_mem_value h.2 hchild
  | param p =>
    have htype := (Bool.and_eq_true_iff.1 h).1
    exact wellShaped_of_mem_typeNodes (by rw [htype, Bool.or_true]) hchild
  | state _ => exact State.wellShaped_of_mem_children h hchild
  | ret _ => exact wellShaped_of_mem_value h hchild
  | call _ _ => exact wellShaped_of_mem_values (Bool.and_eq_true_iff.1 h).2 hchild
  | cast type? value? =>
    simp only [Bool.and_eq_true] at h
    rcases List.mem_append.1 hchild with hchild | hchild
    · exact wellShaped_of_mem_typeNodes (by rw [h.1, Bool.or_true]) hchild
    · exact wellShaped_of_mem_operand h.2 hchild
  | body body =>
    obtain ⟨_⟩ := body
    dsimp only at h
    rw [Body.wellShaped] at h
    exact wellShaped_of_mem_nodes h hchild
  | ifElse condition? body? else? =>
    simp only [Bool.and_eq_true] at h
    simp only [Node.children, List.mem_append] at hchild
    rcases hchild with (hchild | hchild) | hchild
    · exact wellShaped_of_mem_condition h.1.1 hchild
    · exact wellShaped_of_mem_bodyNodes h.1.2 hchild
    · obtain rfl : else? = some child := Option.mem_toList.1 hchild
      cases child <;> first | cases h.2 | rw [Node.wellShaped]; exact h.2
  | whileLoop condition? body? =>
    simp only [Bool.and_eq_true] at h
    rcases List.mem_append.1 hchild with hchild | hchild
    · exact wellShaped_of_mem_condition h.1 hchild
    · exact wellShaped_of_mem_bodyNodes h.2 hchild
  | doLoop condition? body? =>
    simp only [Bool.and_eq_true] at h
    rcases List.mem_append.1 hchild with hchild | hchild
    · exact wellShaped_of_mem_condition h.1 hchild
    · exact wellShaped_of_mem_bodyNodes h.2 hchild
  | forLoop _ condition? _ _ =>
    simp only [Bool.and_eq_true] at h
    obtain ⟨⟨⟨hpre, hcondition⟩, hloop⟩, hbody⟩ := h
    simp only [Node.children, List.mem_append] at hchild
    rcases hchild with ((hchild | hchild) | hchild) | hchild
    · exact wellShaped_of_mem_nodes hpre hchild
    · obtain rfl : condition? = some child := Option.mem_toList.1 hchild
      cases child <;> first | cases hcondition | rw [Node.wellShaped]; exact hcondition
    · exact wellShaped_of_mem_nodes hloop hchild
    · exact wellShaped_of_mem_bodyNodes hbody hchild
  | list _ => exact wellShaped_of_mem_values h hchild
  | vector x y z =>
    have hvalues : areWellShapedValues [x, y, z] = true := by simp_all [areWellShapedValues]
    exact wellShaped_of_mem_values hvalues hchild
  | quaternion x y z s =>
    have hvalues : areWellShapedValues [x, y, z, s] = true := by simp_all [areWellShapedValues]
    exact wellShaped_of_mem_values hvalues hchild
  | value _ => exact Operation.wellShaped_of_mem_children h hchild
  | expression _ => exact Operation.wellShaped_of_mem_children h hchild
  | condition _ => exact Operation.wellShaped_of_mem_children h hchild
  | preMod _ _ => exact wellShaped_of_mem_operand (Bool.and_eq_true_iff.1 h).2 hchild
  | postMod _ operand? =>
    obtain _ | _ | _ := operand?
    · cases hchild
    · cases hchild
    · cases (Bool.and_eq_true_iff.1 h).2
  | type _ | stateChange _ | jump _ | label _ => cases hchild

theorem Node.proper_of_wellShaped {node : Node} (h : node.wellShaped = true) : node.Proper := by
  by_cases hkind : node.kind = .script
  · cases node <;> cases hkind
    next script =>
    obtain ⟨globals, states⟩ := script
    rw [Node.wellShaped, Script.wellShaped, Bool.and_eq_true, areWellShaped_eq_all,
      List.all_eq_true] at h
    refine proper_script fun child hchild => isGlobal_of_kind ?_
    exact (Bool.and_eq_true_iff.1 (h.1 child hchild)).1
  · exact proper_of_kind_ne_script hkind

theorem Node.sound_of_wellShaped {root : Node} (h : root.wellShaped = true) : root.Sound := by
  intro node hnode
  induction hnode with
  | refl => exact proper_of_wellShaped h
  | child hchild _ ih => exact ih (wellShaped_of_mem_children h hchild)

end Lsl
