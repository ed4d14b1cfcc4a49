import Lsl.Proofs.Syntax.Parts
import Mathlib.Data.List.Basic
/-!
# Editing keeps trees sound

Each way to change a node gives a node of the same kind, and when what it puts in is sound, a sound
node stays sound.
-/

namespace Lsl

/-! ## What a field accepts -/

namespace Element

variable {value : Element} {kind : Kind} {field : String}

theorem eq_of_expectText {text : String} (h : value.expectText kind field = .ok text) :
    value = .text text := by
  unfold expectText at h
  split at h <;> cases h
  rfl

theorem eq_of_expectNode {node : Node} (h : value.expectNode kind field = .ok node) :
    value = .node node := by
  unfold expectNode at h
  split at h <;> cases h
  rfl

theorem eq_of_expectType {primitive : Primitive}
    (h : value.expectType kind field = .ok primitive) : value = .node (.type primitive) := by
  unfold expectType at h
  split at h <;> cases h
  rfl

theorem eq_of_expectBody {body : Body} (h : value.expectBody kind field = .ok body) :
    value = .node (.body body) := by
  unfold expectBody at h
  split at h <;> cases h
  rfl

theorem eq_of_expectState {state : State} (h : value.expectState kind field = .ok state) :
    value = .node (.state state) := by
  unfold expectState at h
  split at h <;> cases h
  rfl

theorem eq_of_expectParam {param : Param} (h : value.expectParam kind field = .ok param) :
    value = .node (.param param) := by
  unfold expectParam at h
  split at h <;> cases h
  rfl

theorem eq_of_expectFunction {function : FunctionDef}
    (h : value.expectFunction kind field = .ok function) : value = .node (.function function) := by
  unfold expectFunction at h
  split at h <;> cases h
  rfl

end Element

/-- A list that is accepted element by element is made of what was accepted. -/
theorem eq_map_of_mapM {α : Type} {accept : Element → Except Error α} {wrap : α → Node}
    (haccept : ∀ {value a}, accept value = .ok a → value = .node (wrap a)) {values : List Element}
    {as : List α} (h : values.mapM accept = .ok as) :
    values = as.map fun a => .node (wrap a) := by
  induction values generalizing as with
  | nil =>
    cases h
    rfl
  | cons value values ih =>
    rw [List.mapM_cons] at h
    obtain ⟨a, hvalue, h⟩ := exists_of_bind_eq_ok h
    obtain ⟨rest, hrest, h⟩ := exists_of_bind_eq_ok h
    cases h
    rw [haccept hvalue, ih hrest, List.map_cons]

/-- What is accepted of sound elements is sound. -/
theorem sound_of_mapM {α : Type} {accept : Element → Except Error α} {wrap : α → Node}
    (haccept : ∀ {value a}, accept value = .ok a → value = .node (wrap a)) {values : List Element}
    (hvalues : ∀ value ∈ values, value.Sound) {as : List α} (h : values.mapM accept = .ok as) :
    ∀ a ∈ as, (wrap a).Sound := by
  intro a ha
  rw [eq_map_of_mapM haccept h] at hvalues
  exact Element.sound_node.1 (hvalues _ (List.mem_map_of_mem ha))

theorem globals_of_expectGlobals {values : List Element} {globals : List Node}
    (h : expectGlobals values = .ok globals) :
    values.mapM (Element.expectNode .script "globals") = .ok globals ∧
      ∀ child ∈ globals, child.isGlobal = true := by
  unfold expectGlobals at h
  obtain ⟨nodes, hnodes, h⟩ := exists_of_bind_eq_ok h
  split at h
  · cases h
  · next hfind =>
    cases h
    refine ⟨hnodes, fun child hchild => ?_⟩
    simpa using List.find?_eq_none.1 hfind child hchild

/-! ## Failing in place -/

/-- An operation in place writes nothing if it fails. -/
def Edited.Atomic {σ α : Type} (value : σ) (edited : Edited σ α) : Prop :=
  ∀ e, edited.2 = .error e → edited.1 = value

namespace Edited

variable {σ α β : Type} {value : σ}

theorem atomic_ok (new : σ) (a : α) : Atomic value (new, .ok a) := by
  rintro e ⟨⟩

theorem atomic_error (e : Error) : Atomic value ((value, .error e) : Edited σ α) :=
  fun _ _ => rfl

/-- A check comes before its write. -/
theorem atomic_replace (checked : Except Error β) (write : β → σ) (previous : α) :
    Atomic value (replace value checked write previous) := by
  unfold replace
  split
  · exact atomic_ok _ _
  · exact atomic_error _

/-- An operation on a part is one on the whole. -/
theorem Atomic.map {τ : Type} {edited : Edited σ α} (h : Atomic value edited) (wrap : σ → τ) :
    Atomic (wrap value) (Prod.map wrap id edited) :=
  fun e he => congrArg wrap (h e he)

end Edited

namespace Node

open Edited

theorem atomic_set (node : Node) (field : String) (value : Element) :
    Atomic node (node.set field value) := by
  have hoperand (kind : Kind) (o : Operation) : Atomic o (set.setOperand value kind o field) := by
    unfold set.setOperand
    split
    · exact atomic_replace _ _ _
    · exact atomic_ok _ _
    · exact atomic_replace _ _ _
    · exact atomic_error _
  unfold set
  split
  case h_9 =>
    split
    · exact atomic_replace _ _ _
    · exact atomic_error _
  all_goals first
    | exact atomic_replace _ _ _
    | exact atomic_ok _ _
    | exact (hoperand _ _).map _
    | exact atomic_error _

theorem atomic_setList (node : Node) (field : String) (values : List Element) :
    Atomic node (node.setList field values) := by
  unfold setList
  split <;> first
    | exact atomic_replace _ _ _
    | exact atomic_ok _ _
    | exact atomic_error _

theorem atomic_setOverflow (node : Node) (values : List Element) :
    Atomic node (node.setOverflow values) := by
  unfold setOverflow
  split <;> first
    | exact atomic_replace _ _ _
    | exact atomic_ok _ _
    | split <;> first | exact atomic_ok _ _ | exact atomic_error _

end Node

theorem Body.atomic_insert (body : Body) (index : Nat) (node : Node) :
    Edited.Atomic body (body.insert index node) := by
  unfold insert
  split
  · exact Edited.atomic_ok _ _
  · exact Edited.atomic_error _

/-! ## Changes of a node -/

/-- A change that gives a node of the same kind, and a sound one for a sound one. -/
structure Node.Keeps (node node' : Node) : Prop where
  kind : node'.kind = node.kind
  sound : node.Sound → node'.Sound

namespace Node

variable {node node' : Node}

theorem Keeps.refl (node : Node) : node.Keeps node :=
  ⟨rfl, id⟩

theorem Keeps.trans {node'' : Node} (h : node.Keeps node') (h' : node'.Keeps node'') :
    node.Keeps node'' :=
  ⟨h'.kind.trans h.kind, fun hsound => h'.sound (h.sound hsound)⟩

/-- A change that only takes in sound children. -/
theorem Keeps.of_children (hkind : node'.kind = node.kind) (hproper : node.Proper → node'.Proper)
    (hchildren : ∀ child ∈ node'.children, child ∈ node.children ∨ child.Sound) :
    node.Keeps node' where
  kind := hkind
  sound h := by
    rw [sound_iff] at h ⊢
    refine ⟨hproper h.1, fun child hchild => ?_⟩
    rcases hchildren child hchild with hold | hnew
    · exact h.2 child hold
    · exact hnew

/-- Where there is no script, only the children are to be looked at. -/
theorem Keeps.of_ne_script (hkind : node'.kind = node.kind) (hscript : node'.kind ≠ .script)
    (hchildren : ∀ child ∈ node'.children, child ∈ node.children ∨ child.Sound) :
    node.Keeps node' :=
  .of_children hkind (fun _ => proper_of_kind_ne_script hscript) hchildren

/-- A checked write keeps what it keeps of what passes the check. -/
theorem Keeps.replace {α β : Type} {checked : Except Error β} {write : β → Node} {previous : α}
    (h : ∀ new, checked = .ok new → node.Keeps (write new)) :
    node.Keeps (Edited.replace node checked write previous).1 := by
  unfold Edited.replace
  split
  · next new => exact h new rfl
  · exact .refl node

theorem children_setOperand (kind : Kind) (o : Operation) (field : String) (value : Element) :
    ∀ child ∈ (set.setOperand value kind o field).1.children,
      child ∈ o.children ∨ child ∈ value.nodes := by
  unfold set.setOperand
  split
  case h_2 => grind [Operation.children, elementNodes]
  case h_4 => exact fun child hchild => .inl hchild
  all_goals
    unfold Edited.replace
    split
    · next hpart =>
      obtain rfl := Element.eq_of_expectNode hpart
      grind [Operation.children, Element.mem_nodes]
    · exact fun child hchild => .inl hchild

theorem keeps_set {value : Element} (hvalue : value.Sound) (node : Node) (field : String) :
    node.Keeps (node.set field value).1 := by
  unfold Node.set
  split
  -- what a field accepts is the value itself, unwrapped
  all_goals try refine .replace fun new hpart => ?_
  all_goals first
    | obtain rfl := Element.eq_of_expectType hpart
    | obtain rfl := Element.eq_of_expectText hpart
    | obtain rfl := Element.eq_of_expectBody hpart
    | obtain rfl := Element.eq_of_expectNode hpart
    | skip
  case h_9 =>
    split
    · exact .replace fun _ _ => .of_ne_script rfl (by rintro ⟨⟩) (by rintro _ ⟨⟩)
    · exact .refl _
  all_goals try exact .refl _
  all_goals
    refine .of_ne_script rfl (by rintro ⟨⟩) fun child hchild => ?_
    first
    | exact (children_setOperand _ _ field value child hchild).imp_right (hvalue child)
    | grind [Node.children, typeNodes, bodyNodes, elementNodes, Element.Sound, Element.mem_nodes]

theorem keeps_setList {values : List Element} (hvalues : ∀ value ∈ values, value.Sound)
    (node : Node) (field : String) : node.Keeps (node.setList field values).1 := by
  unfold setList
  split
  all_goals try refine .replace fun new hpart => ?_
  · obtain ⟨hpart, hglobals⟩ := globals_of_expectGlobals hpart
    have hsound := sound_of_mapM Element.eq_of_expectNode hvalues hpart
    refine .of_children rfl (fun _ => proper_script hglobals) fun child hchild => ?_
    grind [Node.children]
  · have hsound := sound_of_mapM Element.eq_of_expectState hvalues hpart
    refine .of_children rfl (fun h => proper_script ?_) fun child hchild => ?_
    · have hglobals := h.globals _ rfl
      exact hglobals
    · grind [Node.children]
  · have hsound := sound_of_mapM Element.eq_of_expectParam hvalues hpart
    refine .of_ne_script rfl (by rintro ⟨⟩) fun child hchild => ?_
    grind [Node.children]
  · have hsound := sound_of_mapM Element.eq_of_expectFunction hvalues hpart
    refine .of_ne_script rfl (by rintro ⟨⟩) fun child hchild => ?_
    grind [Node.children]
  · refine .of_ne_script rfl (by rintro ⟨⟩) fun child hchild => ?_
    grind [Node.children, Element.Sound]
  · have hsound := sound_of_mapM Element.eq_of_expectNode hvalues hpart
    refine .of_ne_script rfl (by rintro ⟨⟩) fun child hchild => ?_
    grind [Node.children]
  · have hsound := sound_of_mapM Element.eq_of_expectNode hvalues hpart
    refine .of_ne_script rfl (by rintro ⟨⟩) fun child hchild => ?_
    grind [Node.children]
  · exact .refl _

/-- The literals keep their number of components, as no other number is accepted. -/
theorem keeps_setOverflow {values : List Element} (hvalues : ∀ value ∈ values, value.Sound)
    (node : Node) : node.Keeps (node.setOverflow values).1 := by
  have hnodes : ∀ child ∈ values.flatMap Element.nodes, child.Sound := by
    intro child hchild
    obtain ⟨value, hvalue, hchild⟩ := List.mem_flatMap.1 hchild
    exact hvalues value hvalue child hchild
  unfold setOverflow
  split
  all_goals try refine .replace fun new hpart => ?_
  · have hsound := sound_of_mapM Element.eq_of_expectNode hvalues hpart
    exact .of_ne_script rfl (by rintro ⟨⟩) fun child hchild => .inr (hsound child hchild)
  · exact .of_ne_script rfl (by rintro ⟨⟩) fun child hchild => .inr (hnodes child hchild)
  · unfold vectorOf at hpart
    split at hpart <;> cases hpart
    exact .of_ne_script rfl (by rintro ⟨⟩) fun child hchild => .inr (hnodes child hchild)
  · unfold quaternionOf at hpart
    split at hpart <;> cases hpart
    exact .of_ne_script rfl (by rintro ⟨⟩) fun child hchild => .inr (hnodes child hchild)
  iterate 3
    exact .of_ne_script rfl (by rintro ⟨⟩) fun child hchild =>
      .inr (sound_assemble hpart hvalues child hchild)
  · split <;> exact .refl _

section

variable {values : List Element} (haxes : node.kind.axes ≠ [])

include haxes

/-- A literal takes in as many components as it has axes. -/
theorem components_setOverflow (h : values.length = node.kind.axes.length) :
    (node.setOverflow values).2 = .ok () ∧ (node.setOverflow values).1.components = values := by
  cases node <;> try exact absurd rfl haxes
  case vector =>
    obtain ⟨x, y, z, rfl⟩ := List.length_eq_three.1 h
    exact ⟨rfl, rfl⟩
  case quaternion =>
    obtain ⟨x, values, rfl⟩ := List.exists_cons_of_length_eq_add_one h
    obtain ⟨y, z, s, rfl⟩ := List.length_eq_three.1 (Nat.succ.inj h)
    exact ⟨rfl, rfl⟩

/-- A literal takes in no other number of components. -/
theorem setOverflow_of_length_ne (h : values.length ≠ node.kind.axes.length) :
    node.setOverflow values =
      (node, .error (.wrongArity node.kind node.kind.axes.length values.length)) := by
  cases node <;> try exact absurd rfl haxes
  case vector =>
    have herror : vectorOf values = .error (.wrongArity .vector 3 values.length) := by
      unfold vectorOf
      split
      · exact absurd rfl h
      · rfl
    rw [setOverflow, herror]
    rfl
  case quaternion =>
    have herror : quaternionOf values = .error (.wrongArity .quaternion 4 values.length) := by
      unfold quaternionOf
      split
      · exact absurd rfl h
      · rfl
    rw [setOverflow, herror]
    rfl

end

theorem keeps_setComponent? {axis : Axis} {value : Element} (hvalue : value.Sound)
    (h : node.setComponent? axis value = some node') : node.Keeps node' := by
  unfold setComponent? at h
  split at h <;> cases h
  all_goals
    refine .of_ne_script rfl (by rintro ⟨⟩) fun child hchild => ?_
    grind [Node.children, Element.Sound, Element.mem_nodes]

end Node

end Lsl
