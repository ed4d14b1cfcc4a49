import Lsl.Proofs.Syntax.Fields
/-!
# Taking assignments back

Assigning a field changes no other one, and assigning what it gave back restores the node.  The
argument runs through `Node.slots`: they are all that there is of a node that has fields, a setter
writes one of them, and what stands in a field fits there.
-/

namespace Lsl

/-! ## Writing slots -/

section

variable {field : String} {slots : List (String × List Element)}

theorem writeSlot_writeSlot (values old : List Element) :
    writeSlot field values (writeSlot field old slots) = writeSlot field values slots := by
  rw [writeSlot, writeSlot, writeSlot, List.map_map]
  refine List.map_congr_left fun slot _ => ?_
  by_cases h : slot.1 = field <;> simp [h]

/-- Writing what a field holds changes nothing. -/
theorem writeSlot_lookup (hnames : (slots.map Prod.fst).Nodup) :
    writeSlot field ((slots.lookup field).getD []) slots = slots := by
  induction slots with
  | nil => rfl
  | cons slot slots ih =>
    obtain ⟨name, values⟩ := slot
    rw [List.map_cons, List.nodup_cons] at hnames
    rw [writeSlot, List.map_cons, ← writeSlot, List.lookup_cons]
    by_cases hname : name = field
    · subst hname
      have hrest : writeSlot name values slots = slots := by
        refine (List.map_congr_left fun slot hslot => if_neg ?_).trans (List.map_id slots)
        intro hsame
        exact hnames.1 (List.mem_map.2 ⟨slot, hslot, hsame⟩)
      simp [hrest]
    · have hne : (field == name) = false := beq_false_of_ne (Ne.symm hname)
      rw [if_neg hname, hne]
      exact congrArg _ (ih hnames.2)

end

/-! ## Slots as the whole of a node -/

theorem Primitive.name_injective : Function.Injective name := by
  intro p q h
  have hparse := congrArg parse h
  rw [parse_name, parse_name] at hparse
  exact Except.ok.inj hparse

theorem toList_inj {α : Type} {a? b? : Option α} : a?.toList = b?.toList ↔ a? = b? := by
  cases a? <;> cases b? <;> simp

theorem Element.ofType_inj {a b : Primitive} : ofType a = ofType b ↔ a = b := by
  simp [ofType]

theorem Element.ofBody_inj {a b : Body} : ofBody a = ofBody b ↔ a = b := by
  simp [ofBody]

attribute [ext] Script FunctionDef State Operation Param

namespace Node

theorem nodup_fields (kind : Kind) : (kind.fields.map Field.name).Nodup := by
  cases kind <;> decide

/-- The slots are all that there is of a node that has fields. -/
theorem eq_of_slots {node other : Node} (hfields : node.kind.fields ≠ [])
    (hkind : other.kind = node.kind) (hslots : other.slots = node.slots) : other = node := by
  cases node <;> try exact absurd rfl hfields
  all_goals
    cases other <;> try cases hkind
    simp only [slots, toList_inj, Option.map_inj_right, List.map_inj_right,
      Element.ofType_inj, Element.ofBody_inj, Element.text.injEq, Element.node.injEq, state.injEq,
      param.injEq, function.injEq, Function.comp_apply, imp_self, implies_true,
      Primitive.name_injective.eq_iff, List.cons.injEq, Prod.mk.injEq, true_and, and_true] at hslots
    grind [Script.ext, FunctionDef.ext, State.ext, Operation.ext, Param.ext]

/-! ## What stands in a field -/

section

variable {node : Node}
  (hglobals : ∀ script, node = .script script → ∀ global ∈ script.globals, global.isGlobal = true)

include hglobals

/-- What stands in the fields of a node fits there, if everything global in a script may be. -/
theorem fits_of_mem_slots :
    ∀ slot ∈ node.slots, slot.2.all (node.kind.content slot.1).fits = true := by
  have hoption {α : Type} {content : Content} {wrap : α → Element}
      (h : ∀ a, content.fits (wrap a) = true) (a? : Option α) :
      (a?.map wrap).toList.all content.fits = true := by
    cases a? <;> simp [h]
  have hlist {α : Type} {content : Content} {wrap : α → Element}
      (h : ∀ a, content.fits (wrap a) = true) (as : List α) :
      (as.map wrap).all content.fits = true := by
    simp [h]
  have helement (values : List Element) : values.all Content.element.fits = true :=
    List.all_eq_true.2 fun _ _ => rfl
  cases node <;> simp only [slots, List.forall_mem_cons, List.not_mem_nil, false_implies,
    implies_true, and_true]
  case script s =>
    refine ⟨List.all_eq_true.2 fun element helement => ?_, hlist (fun _ => rfl) _⟩
    obtain ⟨global, hglobal, rfl⟩ := List.mem_map.1 helement
    exact hglobals s rfl global hglobal
  -- The name that a type goes by is always one that is known.
  case type primitive => cases primitive <;> rfl
  all_goals
    and_intros <;> first
      | exact hoption (fun _ => rfl) _
      | exact hlist (fun _ => rfl) _
      | exact helement _

theorem fits_slot (field : String) :
    (node.slot field).all (node.kind.content field).fits = true := by
  rw [slot]
  cases hlookup : node.slots.lookup field with
  | none => rfl
  | some values =>
    obtain ⟨before, after, hslots, -⟩ := List.lookup_eq_some_iff.1 hlookup
    exact fits_of_mem_slots hglobals (field, values) (by simp [hslots])

end

section

variable {node : Node} {field : String}

/-- What stands in a field is held there as it is. -/
theorem stored_of_mem_slot {element : Element} (h : element ∈ node.slot field) :
    node.kind.stored element = element := by
  cases node <;> try rfl
  next primitive =>
    by_cases hfield : field = "value"
    · subst hfield
      obtain rfl : element = .text primitive.name := List.mem_singleton.1 h
      cases primitive <;> rfl
    · have hne : (field == "value") = false := beq_false_of_ne hfield
      rw [slot, slots, List.lookup_cons, hne] at h
      cases h

/-- A field that is written holds what was written, and the others what they held before. -/
theorem Writes.slot {next : Node} {values : List Element} (h : Writes node field values next)
    {shape : Shape} (hfield : node.kind.hasField field shape = true) (other : String) :
    next.slot other = if other = field then values else node.slot other := by
  have hname : field ∈ node.slots.map Prod.fst := by
    rw [map_fst_slots]
    exact List.mem_map.2 ⟨_, List.contains_iff_mem.1 hfield, rfl⟩
  obtain ⟨held, hheld, rfl⟩ := List.mem_map.1 hname
  have hsome : (node.slots.lookup held.1).isSome :=
    List.lookup_isSome_iff.2 ⟨held, hheld, beq_self_eq_true _⟩
  rw [Node.slot, h.slots, lookup_writeSlot]
  split
  · next hother =>
    obtain ⟨old, hold⟩ := Option.isSome_iff_exists.1 hsome
    rw [hother, hold, Option.map_some, Option.getD_some]
  · rw [Option.map_id', Node.slot]

/-- A field that is written back is as it was, and so is the node. -/
theorem Writes.restores {next again : Node} {values : List Element} {shape : Shape}
    (hfield : node.kind.hasField field shape = true) (h : Writes node field values next)
    (hagain : Writes next field (node.slot field) again) : again = node := by
  refine eq_of_slots ?_ (hagain.kind.trans h.kind) ?_
  · intro hnone
    rw [Kind.hasField, hnone] at hfield
    cases hfield
  · rw [hagain.slots, h.slots, writeSlot_writeSlot, Node.slot, writeSlot_lookup]
    rw [map_fst_slots]
    exact nodup_fields node.kind

end

/-! ## Setters and their undoing -/

section

variable {node next : Node} {field : String} {shape : Shape} {values : List Element}
  {α : Type} {gives : α → Prop} {previous : α} {edited : Edited Node α}

theorem Ends.of_ok (h : Ends node field shape values gives (next, .ok previous)) :
    node.kind.hasField field shape = true ∧ gives previous := by
  cases h with
  | fits hfield _ hgives => exact ⟨hfield, hgives⟩

theorem Ends.of_fits (h : Ends node field shape values gives edited)
    (hfield : node.kind.hasField field shape = true)
    (hfits : values.all (node.kind.content field).fits = true) :
    ∃ next previous, edited = (next, .ok previous) ∧ gives previous := by
  cases h with
  | stray hstray => cases hstray.symm.trans hfield
  | misfit _ hmisfit _ => cases hmisfit.symm.trans hfits
  | fits _ _ hgives => exact ⟨_, _, rfl, hgives⟩

end

section

variable {node next : Node} {field : String} {values : List Element}
  (hglobals : ∀ script, node = .script script → ∀ global ∈ script.globals, global.isGlobal = true)

include hglobals

/-- The element that a single field held can be put back. -/
theorem set_slot {old : Element} (hfield : node.kind.hasField field .single = true)
    (hslot : node.slot field = [old]) (h : Writes node field values next) :
    ∃ displaced, next.set field old = (node, .ok displaced) := by
  have hfits : [old].all (next.kind.content field).fits = true := by
    rw [h.kind, ← hslot]
    exact fits_slot hglobals field
  obtain ⟨again, displaced, hset, -⟩ := (ends_set next field old).of_fits (h.kind ▸ hfield) hfits
  have hstored : next.kind.stored old = old := by
    rw [h.kind]
    exact stored_of_mem_slot (hslot ▸ List.mem_singleton_self old)
  have hwrites := next.writes_set field old
  rw [hset, hstored, ← hslot] at hwrites
  obtain rfl : again = node := h.restores hfield (hwrites displaced rfl)
  exact ⟨displaced, hset⟩

/-- The elements that a list field held can be put back. -/
theorem setList_slot (hfield : node.kind.hasField field .list = true)
    (h : Writes node field values next) :
    next.setList field (node.slot field) = (node, .ok (next.slot field)) := by
  have hfits : (node.slot field).all (next.kind.content field).fits = true := by
    rw [h.kind]
    exact fits_slot hglobals field
  obtain ⟨again, displaced, hset, rfl⟩ :=
    (ends_setList next field _).of_fits (h.kind ▸ hfield) hfits
  have hwrites := next.writes_setList field (node.slot field)
  rw [hset] at hwrites
  obtain rfl : again = node := h.restores hfield (hwrites _ rfl)
  exact hset

/-- A setter that succeeds replaces one field and no other, and gives back what was there; putting
that back restores the node.  The fields are all that there is of the node (`eq_of_slots`).  Nothing
is given back for a single field that was empty, or held the type `void`. -/
theorem setters_undo (field : String) :
    (∀ value next previous, node.set field value = (next, .ok previous) →
      next.kind = node.kind ∧ next.slot field = [node.kind.stored value] ∧
      (∀ other ≠ field, next.slot other = node.slot other) ∧
      (∀ old, previous = some old →
        node.slot field = [old] ∧ ∃ displaced, next.set field old = (node, .ok displaced)) ∧
      (previous = none → node.slot field = [] ∨ node = .type .void)) ∧
    ∀ values next previous, node.setList field values = (next, .ok previous) →
      next.kind = node.kind ∧ previous = node.slot field ∧
      (∀ other ≠ field, next.slot other = node.slot other) ∧
      next.setList field previous = (node, .ok values) := by
  constructor
  · intro value next previous hset
    have hends := ends_set node field value
    have hwrites := node.writes_set field value
    rw [hset] at hends hwrites
    obtain ⟨hfield, hprevious⟩ := hends.of_ok
    have hwrites := hwrites previous rfl
    refine ⟨hwrites.kind, (hwrites.slot hfield field).trans (if_pos rfl),
      fun other hother => (hwrites.slot hfield other).trans (if_neg hother), ?_, ?_⟩
    · rintro old rfl
      obtain hslot | ⟨-, ⟨⟩⟩ := hprevious
      exact ⟨hslot, set_slot hglobals hfield hslot hwrites⟩
    · rintro rfl
      exact hprevious.imp_right And.left
  · intro values next previous hset
    have hends := ends_setList node field values
    have hwrites := node.writes_setList field values
    rw [hset] at hends hwrites
    obtain ⟨hfield, rfl⟩ := hends.of_ok
    have hwrites := hwrites _ rfl
    have hslot : next.slot field = values := (hwrites.slot hfield field).trans (if_pos rfl)
    refine ⟨hwrites.kind, rfl,
      fun other hother => (hwrites.slot hfield other).trans (if_neg hother), ?_⟩
    rw [setList_slot hglobals hfield hwrites, hslot]

end

/-- A script with one global variable. -/
def sampleGlobals : Node :=
  .script ⟨[.variable (some .integer) (some "x") none], []⟩

/-- The globals of a script are removed and put back, and so is the name of a type. -/
theorem setters_undo_sample :
    (∀ script, sampleGlobals = .script script →
      ∀ global ∈ script.globals, global.isGlobal = true) ∧
    (∃ next previous, sampleGlobals.setList "globals" [] = (next, .ok previous) ∧
      next.setList "globals" previous = (sampleGlobals, .ok [])) ∧
    ∃ next old displaced,
      (Node.type .rotation).set "value" (.text "VOID") = (next, .ok (some old)) ∧
      next = .type .void ∧ next.set "value" old = (.type .rotation, .ok displaced) := by
  have hglobals : ∀ script, sampleGlobals = .script script →
      ∀ global ∈ script.globals, global.isGlobal = true := by
    rintro _ ⟨⟩ global hglobal
    obtain rfl := List.mem_singleton.1 hglobal
    rfl
  have htype : (Node.type .rotation).set "value" (.text "VOID") =
      (.type .void, .ok (some (.text "rotation"))) := by rfl
  obtain ⟨-, hlists⟩ := setters_undo hglobals "globals"
  obtain ⟨hsingles, -⟩ := @setters_undo (.type .rotation) (fun _ h => by cases h) "value"
  obtain ⟨-, -, -, hrestored, -⟩ := hsingles _ _ _ htype
  obtain ⟨-, displaced, hagain⟩ := hrestored _ rfl
  exact ⟨hglobals, ⟨_, _, rfl, (hlists [] _ _ rfl).2.2.2⟩,
    _, _, displaced, htype, rfl, hagain⟩

end Node

end Lsl
