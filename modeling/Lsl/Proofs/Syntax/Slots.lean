import Lsl.Proofs.Syntax.Editing
import Lsl.Proofs.Syntax.Tokens
/-!
# What the fields of a node hold

A node is read as the list of its declared fields, each with the elements in it, and next to that the
elements that it takes in without a field.  A setter that succeeds writes one field of that list and
leaves the others as they are.
-/

namespace Lsl

/-- The declared fields of a node in their order, each with the elements in it. -/
def Node.slots : Node → List (String × List Element)
  | .script s => [("globals", s.globals.map .node), ("states", s.states.map (.node ∘ .state))]
  | .function f =>
    [("type", (f.type?.map .ofType).toList), ("name", (f.name?.map .text).toList),
      ("params", f.params.map (.node ∘ .param)), ("body", (f.body?.map .ofBody).toList)]
  | .variable type? name? value? =>
    [("type", (type?.map .ofType).toList), ("name", (name?.map .text).toList),
      ("value", value?.toList)]
  | .param p => [("type", (p.type?.map .ofType).toList), ("name", (p.name?.map .text).toList)]
  | .type primitive => [("value", [.text primitive.name])]
  | .state s => [("name", (s.name?.map .text).toList), ("events", s.events.map (.node ∘ .function))]
  | .stateChange target? | .jump target? | .label target? =>
    [("value", (target?.map .text).toList)]
  | .ret value? => [("value", value?.toList)]
  | .call name? arguments => [("name", (name?.map .text).toList), ("arguments", arguments)]
  | .cast type? value? => [("type", (type?.map .ofType).toList), ("value", value?.toList)]
  | .body _ | .list _ | .vector _ _ _ | .quaternion _ _ _ _ => []
  | .ifElse condition? body? else? =>
    [("condition", (condition?.map .node).toList), ("body", (body?.map .ofBody).toList),
      ("else", (else?.map .node).toList)]
  | .whileLoop condition? body? | .doLoop condition? body? =>
    [("condition", (condition?.map .node).toList), ("body", (body?.map .ofBody).toList)]
  | .forLoop precommands condition? loopcommands body? =>
    [("precommands", precommands.map .node), ("condition", (condition?.map .node).toList),
      ("loopcommands", loopcommands.map .node), ("body", (body?.map .ofBody).toList)]
  | .value o | .expression o | .condition o =>
    [("left", (o.left?.map .node).toList), ("center", o.center?.toList),
      ("right", (o.right?.map .node).toList)]
  | .preMod operator? value? | .postMod operator? value? =>
    [("operator", (operator?.map .text).toList), ("value", value?.toList)]

/-- The elements that a field of this name holds. -/
def Node.slot (node : Node) (field : String) : List Element :=
  (node.slots.lookup field).getD []

/-- What a node takes in without a field: the statements of a block, the values of a literal, the
tokens of an expression. -/
def Node.gathered : Node → List Element
  | .body ⟨statements⟩ => statements.map .node
  | .list values => values
  | .vector x y z => [x, y, z]
  | .quaternion x y z s => [x, y, z, s]
  | .value o | .expression o | .condition o => o.tokens
  | _ => []

/-- How a node of this kind holds an element in a field: a type goes by its own name. -/
def Kind.stored : Kind → Element → Element
  | .type, .text name => .text ((Primitive.parse name).toOption.elim name Primitive.name)
  | _, element => element

/-- How a node of this kind holds an element without a field: an expression holds its tokens. -/
def Kind.spread (kind : Kind) (element : Element) : List Element :=
  if kind.isExpression then element.tokens else [element]

/-- The fields with one of them replaced. -/
def writeSlot (field : String) (values : List Element) (slots : List (String × List Element)) :
    List (String × List Element) :=
  slots.map fun slot => if slot.1 = field then (slot.1, values) else slot

theorem Kind.flatMap_spread {kind : Kind} (hkind : kind.isExpression = false)
    (values : List Element) : values.flatMap kind.spread = values := by
  have hspread : kind.spread = fun element => [element] := by
    funext element
    rw [spread, hkind]
    rfl
  rw [hspread, List.flatMap_singleton']

theorem lookup_writeSlot {field : String} {values : List Element} (other : String)
    (slots : List (String × List Element)) :
    (writeSlot field values slots).lookup other =
      (slots.lookup other).map fun old => if other = field then values else old := by
  induction slots with
  | nil => rfl
  | cons slot slots ih =>
    obtain ⟨name, old⟩ := slot
    rw [writeSlot, List.map_cons, ← writeSlot]
    by_cases hname : other = name
    · subst hname
      by_cases hfield : other = field <;> simp [hfield]
    · have hne : (other == name) = false := beq_false_of_ne hname
      by_cases hfield : name = field
      · subst hfield
        simp only [if_true, List.lookup_cons, hne, ih]
      · simp only [hfield, if_false, List.lookup_cons, hne, ih]

namespace Edited

variable {σ α β : Type} {P : σ → Prop}

/-- An operation in place that leaves something with a property, if it succeeds. -/
def Leaves (P : σ → Prop) (edited : Edited σ α) : Prop :=
  ∀ a, edited.2 = .ok a → P edited.1

theorem leaves_ok {new : σ} (h : P new) (a : α) : Leaves P (new, .ok a) :=
  fun _ _ => h

theorem leaves_error (value : σ) (e : Error) : Leaves P ((value, .error e) : Edited σ α) := by
  rintro a ⟨⟩

theorem leaves_replace {value : σ} {checked : Except Error β} {write : β → σ} {previous : α}
    (h : ∀ new, checked = .ok new → P (write new)) :
    Leaves P (replace value checked write previous) := by
  unfold replace
  split
  · next new => exact leaves_ok (h new rfl) _
  · exact leaves_error _ _

/-- What an operation on a part leaves shows in the whole. -/
theorem Leaves.map {τ : Type} {Q : τ → Prop} {wrap : σ → τ} {edited : Edited σ α}
    (h : Leaves P edited) (hwrap : ∀ value, P value → Q (wrap value)) :
    Leaves Q (Prod.map wrap id edited) :=
  fun a ha => hwrap _ (h a ha)

theorem Leaves.of_kept {edited : Edited σ α} {value : σ} {a : α} (h : Leaves P edited)
    (hkept : edited.kept = .ok (value, a)) : P value := by
  obtain ⟨new, result⟩ := edited
  cases result with
  | ok b =>
    cases hkept
    exact h _ rfl
  | error e => cases hkept

end Edited

namespace Node

open Edited

variable {node next : Node} {field : String} {value : Element} {values : List Element}

/-- The fields are those that the kind declares. -/
theorem map_fst_slots (node : Node) : node.slots.map Prod.fst = node.kind.fields.map Field.name := by
  cases node <;> rfl

theorem gathered_of_acceptsOverflow_eq_false (h : node.kind.acceptsOverflow = false) :
    node.gathered = [] := by
  cases node <;> first | rfl | cases h

/-- A node with one field written. -/
structure Writes (node : Node) (field : String) (values : List Element) (next : Node) : Prop where
  kind : next.kind = node.kind
  slots : next.slots = writeSlot field values node.slots

theorem writes_setOperand (kind : Kind) (o : Operation) (wrap : Operation → Node) 
    (hwrap : ∀ o, (wrap o).slots = (Node.value o).slots ∧ (wrap o).kind = kind) :
    Leaves (fun next => Writes (wrap o) field [value] (wrap next))
      (set.setOperand value kind o field) := by
  have hwrites {o next : Operation} (h : (Node.value next).slots = writeSlot field [value] (Node.value o).slots) :
     Writes (wrap o) field [value] (wrap next) :=
    ⟨by rw [(hwrap _).2, (hwrap _).2], by rw [(hwrap _).1, (hwrap _).1, h]⟩
  unfold set.setOperand
  split
  · refine leaves_replace fun new hnew => ?_
    obtain rfl := Element.eq_of_expectNode hnew
    exact hwrites rfl
  · exact leaves_ok (hwrites rfl) _
  · refine leaves_replace fun new hnew => ?_
    obtain rfl := Element.eq_of_expectNode hnew
    exact hwrites rfl
  · exact leaves_error _ _

theorem writes_set (node : Node) (field : String) (value : Element) :
    Leaves (Writes node field [node.kind.stored value]) (node.set field value) := by
  unfold set
  split
  -- what a field accepts is the value itself, unwrapped
  all_goals try refine leaves_replace fun new hnew => ?_
  all_goals first
    | obtain rfl := Element.eq_of_expectType hnew
    | obtain rfl := Element.eq_of_expectText hnew
    | obtain rfl := Element.eq_of_expectBody hnew
    | obtain rfl := Element.eq_of_expectNode hnew
    | skip
  case h_9 =>
    split
    · refine leaves_replace fun new hnew => ⟨rfl, ?_⟩
      simp only [kind, Kind.stored, hnew]
      rfl
    · exact leaves_error _ _
  all_goals first
    | exact ⟨rfl, rfl⟩
    | exact leaves_ok ⟨rfl, rfl⟩ _
    | exact leaves_error _ _
    | exact (writes_setOperand _ _ .value fun _ => ⟨rfl, rfl⟩).map fun _ h => h
    | exact (writes_setOperand _ _ .expression fun _ => ⟨rfl, rfl⟩).map fun _ h => h
    | exact (writes_setOperand _ _ .condition fun _ => ⟨rfl, rfl⟩).map fun _ h => h

theorem writes_setList (node : Node) (field : String) (values : List Element) :
    Leaves (Writes node field values) (node.setList field values) := by
  unfold setList
  split
  all_goals try refine leaves_replace fun new hnew => ?_
  · obtain rfl := eq_map_of_mapM Element.eq_of_expectNode (globals_of_expectGlobals hnew).1
    exact ⟨rfl, rfl⟩
  · obtain rfl := eq_map_of_mapM Element.eq_of_expectState hnew
    exact ⟨rfl, rfl⟩
  · obtain rfl := eq_map_of_mapM Element.eq_of_expectParam hnew
    exact ⟨rfl, rfl⟩
  · obtain rfl := eq_map_of_mapM Element.eq_of_expectFunction hnew
    exact ⟨rfl, rfl⟩
  · exact leaves_ok ⟨rfl, rfl⟩ _
  · obtain rfl := eq_map_of_mapM Element.eq_of_expectNode hnew
    exact ⟨rfl, rfl⟩
  · obtain rfl := eq_map_of_mapM Element.eq_of_expectNode hnew
    exact ⟨rfl, rfl⟩
  · exact leaves_error _ _

/-- A node that has taken in elements without a field. -/
structure Gathers (node : Node) (values : List Element) (next : Node) : Prop where
  kind : next.kind = node.kind
  gathered : next.gathered = values.flatMap node.kind.spread
  slots : node.kind.isExpression = false → next.slots = node.slots

theorem gathers_setOverflow (node : Node) (values : List Element) :
    Leaves (Gathers node values) (node.setOverflow values) := by
  unfold setOverflow
  split
  · refine leaves_replace fun statements hstatements => ⟨rfl, ?_, fun _ => rfl⟩
    have hvalues := eq_map_of_mapM Element.eq_of_expectNode hstatements
    exact hvalues.symm.trans (Kind.flatMap_spread rfl values).symm
  · exact leaves_ok ⟨rfl, (Kind.flatMap_spread rfl values).symm, fun _ => rfl⟩ _
  · refine leaves_replace fun new hnew => ?_
    unfold vectorOf at hnew
    split at hnew <;> cases hnew
    exact ⟨rfl, rfl, fun _ => rfl⟩
  · refine leaves_replace fun new hnew => ?_
    unfold quaternionOf at hnew
    split at hnew <;> cases hnew
    exact ⟨rfl, rfl, fun _ => rfl⟩
  iterate 3
    exact leaves_replace fun operation hoperation =>
      ⟨rfl, tokens_assemble hoperation, fun h => by cases h⟩
  · split
    · next hvalues =>
      rw [List.isEmpty_iff] at hvalues
      subst hvalues
      refine leaves_ok ⟨rfl, ?_, fun _ => rfl⟩ _
      unfold gathered
      split <;> first | rfl | grind
    · exact leaves_error _ _

end Node

end Lsl
