import Lsl.Proofs.Convert.Item
import Lsl.Proofs.Syntax.Slots
/-!
# What becomes of the children

Every child of a raw tree is delivered to a field of the node that the tree stands for, or to the list
of those that have no field.  Deliveries to one field are not collected: the last one is what the
field holds.  Where no two children go to one field, the node holds all of them.
-/

namespace Lsl

open Peg

variable {τ : Type} [DecidableEq τ] [Vocabulary τ]

namespace Registry

/-- The field of a node that takes in a child: the field of the child's own name, else the field
`value`, if there is one of them. -/
def slotFor? (registry : Registry τ) (kind : Kind) (child : ParseTree τ) : Option String :=
  let field := registry.fieldFor child.token
  if kind.hasField field .list || kind.hasField field .single then some field
  else if kind.hasField "value" .single then some "value"
  else none

/-- What a node of a kind is to hold for a child: for one that fills a list what the child's own
children convert to, for any other what the child itself converts to. -/
def contribution (registry : Registry τ) (kind : Kind) (child : ParseTree τ) :
    Except Error (List Element) :=
  if kind.hasField (registry.fieldFor child.token) .list then convertAll registry child.children
  else if (registry.slotFor? kind child).isSome then
    return [kind.stored (← convert registry child)]
  else return kind.spread (← convert registry child)

/-- Where a child goes, and what goes there. -/
def delivery (registry : Registry τ) (kind : Kind) (child : ParseTree τ) :
    Except Error (Option String × List Element) :=
  return (registry.slotFor? kind child, ← registry.contribution kind child)

end Registry

/-- The fields after a delivery. -/
def deliver (slots : List (String × List Element)) :
    Option String × List Element → List (String × List Element)
  | (some field, values) => writeSlot field values slots
  | (none, _) => slots

/-- What is delivered to no field, in order. -/
def undelivered (deliveries : List (Option String × List Element)) : List (List Element) :=
  (deliveries.filter (·.1.isNone)).map Prod.snd

section

variable {registry : Registry τ} {node next : Node} {child : ParseTree τ}
  {children : List (ParseTree τ)} {overflow : List Element}

/-- The first child is delivered before the others are looked at. -/
theorem fillFields_cons (h : fillFields registry node (child :: children) = .ok (next, overflow)) :
    ∃ delivery middle left, registry.delivery node.kind child = .ok delivery ∧
      middle.kind = node.kind ∧ middle.slots = deliver node.slots delivery ∧
      fillFields registry middle children = .ok (next, left) ∧
      overflow.map node.kind.spread = undelivered [delivery] ++ left.map node.kind.spread := by
  obtain ⟨token, text, grandchildren⟩ := child
  rw [fillFields, Kind.isPlural_and_hasField] at h
  simp only [Registry.delivery, Registry.contribution, Registry.slotFor?]
  by_cases hlist : node.kind.hasField (registry.fieldFor token) .list
  · simp only [hlist, if_true] at h
    obtain ⟨values, hvalues, h⟩ := exists_of_bind_eq_ok h
    obtain ⟨⟨middle, old⟩, hset, h⟩ := exists_of_bind_eq_ok h
    obtain ⟨hkind, hslots⟩ := (node.writes_setList _ values).of_kept hset
    refine ⟨(some _, values), middle, overflow, ?_, hkind, hslots, h, rfl⟩
    simp [hlist, hvalues]
  rw [if_neg hlist] at h
  obtain ⟨value, hvalue, h⟩ := exists_of_bind_eq_ok h
  by_cases hsingle : node.kind.hasField (registry.fieldFor token) .single
  · rw [if_pos hsingle] at h
    obtain ⟨⟨middle, old⟩, hset, h⟩ := exists_of_bind_eq_ok h
    obtain ⟨hkind, hslots⟩ := (node.writes_set _ value).of_kept hset
    refine ⟨(some _, _), middle, overflow, ?_, hkind, hslots, h, rfl⟩
    simp [hlist, hsingle, hvalue]
  rw [if_neg hsingle] at h
  by_cases hfallback : node.kind.hasField "value" .single
  · rw [if_pos hfallback] at h
    obtain ⟨⟨middle, old⟩, hset, h⟩ := exists_of_bind_eq_ok h
    obtain ⟨hkind, hslots⟩ := (node.writes_set _ value).of_kept hset
    refine ⟨(some _, _), middle, overflow, ?_, hkind, hslots, h, rfl⟩
    simp [hlist, hsingle, hfallback, hvalue]
  · rw [if_neg hfallback] at h
    obtain ⟨⟨last, left⟩, hrest, h⟩ := exists_of_bind_eq_ok h
    cases h
    refine ⟨(none, node.kind.spread value), node, left, ?_, rfl, rfl, hrest, ?_⟩
    · simp [hlist, hsingle, hfallback, hvalue]
    · simp [undelivered]

/-- Every child is delivered, in order. -/
theorem fillFields_deliveries (h : fillFields registry node children = .ok (next, overflow)) :
    ∃ deliveries, children.mapM (registry.delivery node.kind) = .ok deliveries ∧
      next.kind = node.kind ∧ next.slots = deliveries.foldl deliver node.slots ∧
      overflow.map node.kind.spread = undelivered deliveries := by
  induction children generalizing node overflow with
  | nil =>
    rw [fillFields] at h
    cases h
    exact ⟨[], rfl, rfl, rfl, rfl⟩
  | cons child children ih =>
    obtain ⟨delivery, middle, left, hdelivery, hkind, hslots, hrest, hleft⟩ := fillFields_cons h
    obtain ⟨deliveries, hdeliveries, hnext, hlast, hover⟩ := ih hrest
    rw [hkind] at hdeliveries hnext hover
    refine ⟨delivery :: deliveries, ?_, hnext, ?_, ?_⟩
    · rw [List.mapM_cons, hdelivery, hdeliveries]
      rfl
    · rw [hlast, hslots, List.foldl_cons]
    · rw [hleft, hover, undelivered, undelivered, ← List.map_append, ← List.filter_append]
      rfl

end

/-! ## The last delivery to a field -/

section

variable {field : String} {slots : List (String × List Element)} {values : List Element}
  {before after : List (Option String × List Element)}

theorem lookup_foldl_deliver_of_ne {deliveries : List (Option String × List Element)}
    (h : ∀ delivery ∈ deliveries, delivery.1 ≠ some field) :
    (deliveries.foldl deliver slots).lookup field = slots.lookup field := by
  induction deliveries generalizing slots with
  | nil => rfl
  | cons delivery deliveries ih =>
    rw [List.foldl_cons, ih fun other hother => h other (List.mem_cons_of_mem _ hother)]
    obtain ⟨_ | other, values⟩ := delivery
    · rfl
    · have hne : field ≠ other := by
        rintro rfl
        exact h _ List.mem_cons_self rfl
      rw [deliver, lookup_writeSlot]
      simp [hne]

theorem map_fst_foldl_deliver (deliveries : List (Option String × List Element)) :
    (deliveries.foldl deliver slots).map Prod.fst = slots.map Prod.fst := by
  induction deliveries generalizing slots with
  | nil => rfl
  | cons delivery deliveries ih =>
    rw [List.foldl_cons, ih]
    obtain ⟨_ | other, values⟩ := delivery
    · rfl
    · rw [deliver, writeSlot, List.map_map]
      refine List.map_congr_left fun slot _ => ?_
      rw [Function.comp_apply]
      split <;> rfl

/-- What a field holds in the end is what was delivered there last. -/
theorem lookup_foldl_deliver (hfield : field ∈ slots.map Prod.fst)
    (hafter : ∀ delivery ∈ after, delivery.1 ≠ some field) :
    ((before ++ (some field, values) :: after).foldl deliver slots).lookup field = some values := by
  rw [List.foldl_append, List.foldl_cons, lookup_foldl_deliver_of_ne hafter, deliver,
    lookup_writeSlot]
  rw [← map_fst_foldl_deliver before] at hfield
  obtain ⟨slot, hslot, rfl⟩ := List.mem_map.1 hfield
  have hsome : ((before.foldl deliver slots).lookup slot.1).isSome :=
    List.lookup_isSome_iff.2 ⟨slot, hslot, beq_self_eq_true _⟩
  obtain ⟨old, hold⟩ := Option.isSome_iff_exists.1 hsome
  rw [hold, Option.map_some, if_pos rfl]

theorem lookup_of_mem {deliveries : List (Option String × List Element)}
    (hfield : field ∈ slots.map Prod.fst) (hdistinct : (deliveries.filterMap Prod.fst).Nodup)
    (hmem : (some field, values) ∈ deliveries) :
    (deliveries.foldl deliver slots).lookup field = some values := by
  obtain ⟨before, after, rfl⟩ := List.append_of_mem hmem
  rw [List.filterMap_append] at hdistinct
  have hafter := (List.nodup_cons.1 (List.nodup_append.1 hdistinct).2.1).1
  refine lookup_foldl_deliver hfield fun delivery hdelivery hsame => hafter ?_
  exact List.mem_filterMap.2 ⟨delivery, hdelivery, hsame⟩

end

/-! ## The node of a raw tree -/

section

variable {registry : Registry τ} {kind : Kind} {tree : ParseTree τ} {element : Element}
  {children : List (ParseTree τ)} {deliveries : List (Option String × List Element)}

/-- The node that a raw tree converts to, exactly: its children are delivered one after the other.
An expression only keeps what goes to no field. -/
theorem convert_deliveries (hkind : registry.kindFor? tree.token = some kind)
    (h : convert registry tree = .ok element) :
    ∃ node deliveries, element = .node node ∧ node.kind = kind ∧
      tree.children.mapM (registry.delivery kind) = .ok deliveries ∧
      (kind.isExpression = false → node.slots = deliveries.foldl deliver kind.empty.slots) ∧
      node.gathered = (undelivered deliveries).flatten ∧
      (kind.acceptsOverflow = false → undelivered deliveries = []) := by
  obtain ⟨token, text, children⟩ := tree
  unfold convert at h
  simp only [hkind] at h
  obtain ⟨⟨filled, overflow⟩, hfill, h⟩ := exists_of_bind_eq_ok h
  obtain ⟨deliveries, hdeliveries, hfilled, hslots, hover⟩ := fillFields_deliveries hfill
  rw [Kind.kind_empty] at hdeliveries hfilled hover
  by_cases haccepts : kind.acceptsOverflow
  · simp only [haccepts, if_true] at h
    obtain ⟨node, hnode, h⟩ := exists_of_bind_eq_ok h
    cases h
    obtain ⟨⟨last, _⟩, hset, hlast⟩ := exists_of_bind_eq_ok hnode
    cases hlast
    obtain ⟨hkind, hgathered, hkept⟩ := (filled.gathers_setOverflow overflow).of_kept hset
    rw [hfilled] at hkind hgathered hkept
    refine ⟨last, deliveries, rfl, hkind, hdeliveries, fun hplain => ?_, ?_, fun h => ?_⟩
    · rw [hkept hplain, hslots]
    · rw [hgathered, ← hover, List.flatMap_def]
    · rw [haccepts] at h
      cases h
  · simp only [haccepts] at h
    rw [Bool.not_eq_true] at haccepts
    by_cases hempty : overflow.isEmpty
    · rw [if_pos hempty] at h
      cases h
      rw [List.isEmpty_iff.1 hempty] at hover
      refine ⟨filled, deliveries, rfl, hfilled, hdeliveries, fun _ => hslots, ?_, fun _ => hover.symm⟩
      rw [← hover, Node.gathered_of_acceptsOverflow_eq_false (by rw [hfilled, haccepts])]
      rfl
    · rw [if_neg hempty] at h
      cases h

theorem map_fst_of_deliveries (h : children.mapM (registry.delivery kind) = .ok deliveries) :
    deliveries.map Prod.fst = children.map (registry.slotFor? kind) := by
  induction children generalizing deliveries with
  | nil =>
    cases h
    rfl
  | cons child children ih =>
    rw [List.mapM_cons] at h
    obtain ⟨delivery, hdelivery, h⟩ := exists_of_bind_eq_ok h
    obtain ⟨others, hothers, h⟩ := exists_of_bind_eq_ok h
    cases h
    obtain ⟨values, -, hvalues⟩ := exists_of_bind_eq_ok hdelivery
    cases hvalues
    rw [List.map_cons, List.map_cons, ih hothers]

theorem mem_fields_of_slotFor? {child : ParseTree τ} {field : String}
    (h : registry.slotFor? kind child = some field) : field ∈ kind.fields.map Field.name := by
  have hfield {name : String} {shape : Shape} (h : kind.hasField name shape = true) :
      name ∈ kind.fields.map Field.name :=
    List.mem_map.2 ⟨_, List.contains_iff_mem.1 h, rfl⟩
  unfold Registry.slotFor? at h
  dsimp only at h
  split at h
  · next hown =>
    cases h
    rcases Bool.or_eq_true_iff.1 hown with hlist | hsingle
    · exact hfield hlist
    · exact hfield hsingle
  · split at h <;> cases h
    exact hfield ‹_›

/-- Where no two children go to one field, and no child of an expression goes to a field, the node
holds what each child converts to: in the field that the child goes to, and in the order of the
children where there is no field. A kind that takes in nothing but fields has a field for each child. -/
theorem convert_keeps_children (hkind : registry.kindFor? tree.token = some kind)
    (hdistinct : (tree.children.filterMap (registry.slotFor? kind)).Nodup)
    (hexpression : kind.isExpression = true →
      ∀ child ∈ tree.children, registry.slotFor? kind child = none)
    (h : convert registry tree = .ok element) :
    ∃ node deliveries, element = .node node ∧ node.kind = kind ∧
      tree.children.mapM (registry.delivery kind) = .ok deliveries ∧
      (∀ field values, (some field, values) ∈ deliveries → node.slot field = values) ∧
      node.gathered = (undelivered deliveries).flatten ∧
      (kind.acceptsOverflow = false → undelivered deliveries = []) := by
  obtain ⟨node, deliveries, hnode, hsame, hdeliveries, hslots, hgathered, hnone⟩ :=
    convert_deliveries hkind h
  refine ⟨node, deliveries, hnode, hsame, hdeliveries, fun field values hmem => ?_, hgathered, hnone⟩
  have hfst := map_fst_of_deliveries hdeliveries
  have hslot : some field ∈ tree.children.map (registry.slotFor? kind) :=
    hfst ▸ List.mem_map_of_mem hmem
  obtain ⟨child, hchild, hfield⟩ := List.mem_map.1 hslot
  cases hplain : kind.isExpression with
  | true =>
    rw [hexpression hplain child hchild] at hfield
    cases hfield
  | false =>
    have hdeclared : field ∈ kind.empty.slots.map Prod.fst := by
      rw [Node.map_fst_slots, Kind.kind_empty]
      exact mem_fields_of_slotFor? hfield
    have htaken : deliveries.filterMap Prod.fst =
        tree.children.filterMap (registry.slotFor? kind) := by
      simpa only [List.filterMap_map, Function.id_comp] using congrArg (List.filterMap id) hfst
    rw [Node.slot, hslots hplain, lookup_of_mem hdeclared (htaken ▸ hdistinct) hmem,
      Option.getD_some]

end

def sampleRegistry : Registry String :=
  .build ["CALL", "NAME", "ARGUMENTS"]

def sampleCall : ParseTree String :=
  ⟨"CALL", "g(a, 1)", [⟨"NAME", "g", []⟩, ⟨"ARGUMENTS", "a, 1",
    [⟨"IDENT", "a", []⟩, ⟨"INTEGER", "1", []⟩]⟩]⟩

/-- The name and both arguments of a call are in its node. -/
theorem convert_keeps_children_sample :
    sampleRegistry.kindFor? "CALL" = some .call ∧
    (sampleCall.children.filterMap (sampleRegistry.slotFor? .call)).Nodup ∧
    convert sampleRegistry sampleCall =
      .ok (.node (.call (some "g") [.text "a", .text "1"])) ∧
    ∃ node deliveries, Element.node (.call (some "g") [.text "a", .text "1"]) = .node node ∧
      node.kind = .call ∧
      sampleCall.children.mapM (sampleRegistry.delivery .call) = .ok deliveries ∧
      (∀ field values, (some field, values) ∈ deliveries → node.slot field = values) ∧
      node.gathered = (undelivered deliveries).flatten ∧
      (Kind.call.acceptsOverflow = false → undelivered deliveries = []) := by
  have hkind : sampleRegistry.kindFor? "CALL" = some .call := by rfl
  have hdistinct : (sampleCall.children.filterMap (sampleRegistry.slotFor? .call)).Nodup := by
    decide +kernel
  have hconvert : convert sampleRegistry sampleCall =
      .ok (.node (.call (some "g") [.text "a", .text "1"])) := by rfl
  exact ⟨hkind, hdistinct, hconvert,
    convert_keeps_children hkind hdistinct (fun hexpression => by cases hexpression) hconvert⟩

def sampleNames : ParseTree Rule :=
  ⟨.call, "f g()", [⟨.name, "f", []⟩, ⟨.name, "g", []⟩, ⟨.arguments, "", []⟩]⟩

/-- Two names go to one field, and the first of them is lost. -/
theorem convert_overwrites_sample :
    convert Rule.registry sampleNames = .ok (.node (.call (some "g") [])) := by
  have hchildren : List.Forall₂ Shows sampleNames.children
      [.single .name (.text "f"), .single .name (.text "g"), .group .arguments []] :=
    .cons (.leaf rfl) (.cons (.leaf rfl) (.cons (@Shows.group .arguments "" _ _ .nil) .nil))
  exact (@Shows.node .call "f g()" _ _ _ _ hchildren rfl rfl).2

end Lsl
