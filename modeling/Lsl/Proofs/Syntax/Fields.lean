import Lsl.Proofs.Syntax.Clash
import Lsl.Proofs.Syntax.Slots
/-!
# Declared fields and setters

The fields that a kind declares stand in a table, and the setters know them by their own case
distinctions.  Here the two are held against each other: a setter that finds no such field is called
for a field that is not declared, and the other way round; for a declared field it fails only when
an element does not fit there.
-/

namespace Lsl

/-! ## What a field holds -/

/-- What the elements in a field are to be. -/
inductive Content where
  | text
  | typeName
  | node
  | type
  | body
  | state
  | param
  | function
  | global
  | element
  deriving DecidableEq, Repr

/-- Whether an element may stand in such a field. -/
def Content.fits : Content → Element → Bool
  | .text, .text _ => true
  | .typeName, .text name => (Primitive.parse name).toOption.isSome
  | .node, .node _ => true
  | .type, .node (.type _) => true
  | .body, .node (.body _) => true
  | .state, .node (.state _) => true
  | .param, .node (.param _) => true
  | .function, .node (.function _) => true
  | .global, .node n => n.isGlobal
  | .element, _ => true
  | _, _ => false

/-- What a kind that declares a field of this name holds there. -/
def Kind.content : Kind → String → Content
  | .type, "value" => .typeName
  | .stateChange, "value" | .jump, "value" | .label, "value" => .text
  | _, "value" | _, "center" | _, "arguments" => .element
  | _, "name" | _, "operator" => .text
  | _, "type" => .type
  | _, "body" => .body
  | _, "globals" => .global
  | _, "states" => .state
  | _, "params" => .param
  | _, "events" => .function
  | _, _ => .node

/-! ## What a setter complains of -/

/-- How values are called for which there is no field. -/
def strayText (count : Nat) : String :=
  toString count ++ " value(s); no such field"

namespace Error

/-- The field that cannot hold something, with what it cannot hold. -/
def mismatch? : Error → Option (Kind × String × String)
  | .fieldMismatch kind field found => some (kind, field, found)
  | .noSuchField kind field count => some (kind, field, strayText count)
  | _ => none

/-- There is no place for what a setter was given. -/
def NoPlace (e : Error) : Prop :=
  (∃ kind field count, e.mismatch? = some (kind, field, strayText count)) ∨
    ∃ kind count text, e = .discardedSubtree kind count text

/-- There is a place, but not for such an element. -/
inductive Misfit : Error → Prop
  | field (kind : Kind) (field : String) (found : Element) :
    Misfit (.fieldMismatch kind field found.describe)
  | typeName (name : String) : Misfit (.unknownType name)

end Error

/-- No element is described as a number of values. -/
theorem Element.describe_ne_strayText (element : Element) (count : Nat) :
    element.describe ≠ strayText count := by
  intro h
  have hlist := congrArg String.toList h
  cases element with
  | text t =>
    have htext : (text t).describe = "`" ++ t ++ "`" := rfl
    have hlast := congrArg List.getLast? (htext ▸ hlist)
    simp [strayText, List.getLast?_cons] at hlast
  | node n =>
    have hname (kind : Kind) : ' ' ∉ kind.name.toList := by cases kind <;> decide
    refine hname n.kind ?_
    rw [describe] at hlist
    simp [hlist, strayText]

theorem Error.Misfit.not_noPlace {e : Error} (h : e.Misfit) : ¬e.NoPlace := by
  rintro (⟨kind, field, count, hmismatch⟩ | ⟨kind, count, text, rfl⟩)
  · cases h with
    | field _ _ found =>
      simp only [mismatch?, Option.some.injEq, Prod.mk.injEq] at hmismatch
      exact found.describe_ne_strayText count hmismatch.2.2
    | typeName name => cases hmismatch
  · cases h

/-! ## Checks -/

/-- A check that lets elements through when each of them fits, and complains of a misfit else. -/
def Content.Checks {α : Type} (content : Content) (values : List Element) :
    Except Error α → Prop
  | .ok _ => values.all content.fits = true
  | .error e => values.all content.fits = false ∧ e.Misfit

namespace Element

open Content

variable (value : Element) (kind : Kind) (field : String)

theorem checks_expectText : Checks .text [value] (value.expectText kind field) := by
  cases value with
  | text t => rfl
  | node n => exact ⟨rfl, .field _ _ (.node n)⟩

theorem checks_expectNode : Checks .node [value] (value.expectNode kind field) := by
  cases value with
  | text t => exact ⟨rfl, .field _ _ (.text t)⟩
  | node n => rfl

theorem checks_expectType : Checks .type [value] (value.expectType kind field) := by
  cases value with
  | text t => exact ⟨rfl, .field _ _ (.text t)⟩
  | node n => cases n <;> first | rfl | exact ⟨rfl, .field _ _ (.node _)⟩

theorem checks_expectBody : Checks .body [value] (value.expectBody kind field) := by
  cases value with
  | text t => exact ⟨rfl, .field _ _ (.text t)⟩
  | node n => cases n <;> first | rfl | exact ⟨rfl, .field _ _ (.node _)⟩

theorem checks_expectState : Checks .state [value] (value.expectState kind field) := by
  cases value with
  | text t => exact ⟨rfl, .field _ _ (.text t)⟩
  | node n => cases n <;> first | rfl | exact ⟨rfl, .field _ _ (.node _)⟩

theorem checks_expectParam : Checks .param [value] (value.expectParam kind field) := by
  cases value with
  | text t => exact ⟨rfl, .field _ _ (.text t)⟩
  | node n => cases n <;> first | rfl | exact ⟨rfl, .field _ _ (.node _)⟩

theorem checks_expectFunction : Checks .function [value] (value.expectFunction kind field) := by
  cases value with
  | text t => exact ⟨rfl, .field _ _ (.text t)⟩
  | node n => cases n <;> first | rfl | exact ⟨rfl, .field _ _ (.node _)⟩

theorem checks_parse (name : String) : Checks .typeName [.text name] (Primitive.parse name) := by
  unfold Checks
  split
  · next h => simp [fits, h, Except.toOption]
  · next h =>
    refine ⟨by simp [fits, h, Except.toOption], ?_⟩
    unfold Primitive.parse at h
    split at h <;> cases h
    exact .typeName name

end Element

/-- Elements are checked one by one, up to the first that does not fit. -/
theorem Content.checks_mapM {α : Type} {content : Content} {accept : Element → Except Error α}
    (h : ∀ value, content.Checks [value] (accept value)) (values : List Element) :
    content.Checks values (values.mapM accept) := by
  induction values with
  | nil => rfl
  | cons value values ih =>
    have hvalue := h value
    rw [List.mapM_cons]
    cases haccept : accept value with
    | error e =>
      rw [haccept] at hvalue
      have hfits : content.fits value = false := by simpa using hvalue.1
      exact ⟨by rw [List.all_cons, hfits, Bool.false_and], hvalue.2⟩
    | ok a =>
      rw [haccept] at hvalue
      have hfits : content.fits value = true := by simpa [Checks] using hvalue
      have hall : (value :: values).all content.fits = values.all content.fits := by
        rw [List.all_cons, hfits, Bool.true_and]
      cases hrest : values.mapM accept with
      | error e =>
        rw [hrest] at ih
        exact ⟨hall.trans ih.1, ih.2⟩
      | ok as =>
        rw [hrest] at ih
        exact hall.trans ih

theorem checks_expectGlobals (values : List Element) :
    Content.global.Checks values (expectGlobals values) := by
  have hnodes := Content.checks_mapM (Element.checks_expectNode · .script "globals") values
  unfold expectGlobals
  cases hchecked : values.mapM (Element.expectNode .script "globals") with
  | error e =>
    rw [hchecked] at hnodes
    refine ⟨?_, hnodes.2⟩
    obtain ⟨value, hvalue, hfits⟩ := List.all_eq_false.1 hnodes.1
    refine List.all_eq_false.2 ⟨value, hvalue, ?_⟩
    cases value with
    | text t => exact Bool.false_ne_true
    | node n => exact absurd rfl hfits
  | ok globals =>
    obtain rfl := eq_map_of_mapM Element.eq_of_expectNode hchecked
    have hall : (globals.map Element.node).all Content.global.fits = globals.all Node.isGlobal :=
      List.all_map
    dsimp only [bind, Except.bind]
    split
    · next other hfind =>
      refine ⟨?_, .field _ _ (.node other)⟩
      rw [hall, List.all_eq_false]
      exact ⟨other, List.mem_of_find?_eq_some hfind, by simpa using List.find?_some hfind⟩
    · next hfind =>
      have hglobal : ∀ global ∈ globals, global.isGlobal = true := by simpa using hfind
      exact hall.trans (List.all_eq_true.2 hglobal)

/-- A checked write to a part is one to the whole. -/
theorem Edited.map_replace {σ τ α β : Type} (wrap : σ → τ) (value : σ) (checked : Except Error β)
    (write : β → σ) (previous : α) :
    Prod.map wrap id (replace value checked write previous) =
      replace (wrap value) checked (wrap ∘ write) previous := by
  cases checked <;> rfl

/-! ## How a setter ends -/

namespace Node

/-- How an assignment of elements to a field ends: without such a field, with an element that does
not fit, or in giving back what it displaced. -/
inductive Ends {α : Type} (node : Node) (field : String) (shape : Shape) (values : List Element)
    (gives : α → Prop) : Edited Node α → Prop
  | stray : node.kind.hasField field shape = false →
    Ends node field shape values gives (node, .error (.noSuchField node.kind field values.length))
  | misfit {e : Error} : node.kind.hasField field shape = true →
    values.all (node.kind.content field).fits = false → e.Misfit →
    Ends node field shape values gives (node, .error e)
  | fits {next : Node} {previous : α} : node.kind.hasField field shape = true →
    values.all (node.kind.content field).fits = true → gives previous →
    Ends node field shape values gives (next, .ok previous)

/-- What assigning a single field gives back: the element that was there; nothing if there was none,
or if it was the type `void`. -/
def Displaces (node : Node) (field : String) (previous : Option Element) : Prop :=
  node.slot field = previous.toList ∨ node = .type .void ∧ previous = none

variable {node : Node} {field : String} {shape : Shape} {value : Element} {values : List Element}

theorem ends_replace {α β : Type} {checked : Except Error β} {write : β → Node} {previous : α}
    {gives : α → Prop} (hfield : node.kind.hasField field shape = true)
    (hchecked : (node.kind.content field).Checks values checked) (hgives : gives previous) :
    Ends node field shape values gives (.replace node checked write previous) := by
  unfold Edited.replace
  split
  · exact .fits hfield hchecked hgives
  · exact .misfit hfield hchecked.1 hchecked.2

/-- A field that is not declared is a stray one. -/
theorem Ends.of_not_mem {α : Type} {gives : α → Prop}
    (h : (⟨field, shape⟩ : Field) ∉ node.kind.fields) :
    Ends node field shape values gives
      (node, .error (.noSuchField node.kind field values.length)) := by
  refine .stray (Bool.eq_false_iff.2 fun hfield => h ?_)
  rwa [Kind.hasField, List.contains_iff_mem] at hfield

theorem ends_set (node : Node) (field : String) (value : Element) :
    Ends node field .single [value] (node.Displaces field) (node.set field value) := by
  unfold set
  split
  -- A type is the one kind that takes a text for something else.
  case h_9 primitive =>
    cases value with
    | text name =>
      refine ends_replace rfl (Element.checks_parse name) ?_
      cases primitive <;> first | exact .inr ⟨rfl, rfl⟩ | exact .inl rfl
    | node n => exact .misfit rfl rfl (.typeName _)
  -- Values, expressions and conditions share the operands of an operation.
  case h_27 | h_28 | h_29 =>
    unfold set.setOperand
    split
    · rw [Edited.map_replace]
      exact ends_replace rfl (value.checks_expectNode _ _) (.inl rfl)
    · exact .fits rfl rfl (.inl rfl)
    · rw [Edited.map_replace]
      exact ends_replace rfl (value.checks_expectNode _ _) (.inl rfl)
    · refine .of_not_mem fun hfield => ?_
      grind [kind, Kind.fields]
  -- What is left is declared for no kind.
  case h_34 =>
    refine .of_not_mem fun hfield => ?_
    cases node <;> grind [kind, Kind.fields]
  all_goals first
    | exact ends_replace rfl (value.checks_expectType _ _) (.inl rfl)
    | exact ends_replace rfl (value.checks_expectText _ _) (.inl rfl)
    | exact ends_replace rfl (value.checks_expectBody _ _) (.inl rfl)
    | exact ends_replace rfl (value.checks_expectNode _ _) (.inl rfl)
    | exact .fits rfl rfl (.inl rfl)

theorem ends_setList (node : Node) (field : String) (values : List Element) :
    Ends node field .list values (· = node.slot field) (node.setList field values) := by
  unfold setList
  split
  · exact ends_replace rfl (checks_expectGlobals values) rfl
  · exact ends_replace rfl (Content.checks_mapM (Element.checks_expectState · _ _) values) rfl
  · exact ends_replace rfl (Content.checks_mapM (Element.checks_expectParam · _ _) values) rfl
  · exact ends_replace rfl (Content.checks_mapM (Element.checks_expectFunction · _ _) values) rfl
  · exact .fits rfl (List.all_eq_true.2 fun _ _ => rfl) rfl
  · exact ends_replace rfl (Content.checks_mapM (Element.checks_expectNode · _ _) values) rfl
  · exact ends_replace rfl (Content.checks_mapM (Element.checks_expectNode · _ _) values) rfl
  · refine .of_not_mem fun hfield => ?_
    cases node <;> grind [kind, Kind.fields]

/-- A setter has no place for what it is given just where the field is not declared. -/
theorem Ends.noPlace_iff {α : Type} {gives : α → Prop} {edited : Edited Node α} {e : Error}
    (h : Ends node field shape values gives edited) :
    edited.2 = .error e ∧ e.NoPlace ↔
      node.kind.hasField field shape = false ∧ e = .noSuchField node.kind field values.length := by
  cases h with
  | stray hfield =>
    constructor
    · rintro ⟨⟨⟩, -⟩
      exact ⟨hfield, rfl⟩
    · rintro ⟨-, rfl⟩
      exact ⟨rfl, .inl ⟨_, _, _, rfl⟩⟩
  | misfit hfield _ hmisfit =>
    rw [hfield]
    constructor
    · rintro ⟨⟨⟩, hplace⟩
      exact absurd hplace hmisfit.not_noPlace
    · rintro ⟨⟨⟩, -⟩
  | fits hfield _ _ =>
    rw [hfield]
    constructor
    · rintro ⟨⟨⟩, -⟩
    · rintro ⟨⟨⟩, -⟩

end Node

/-! ## Elements without a field -/

theorem not_noPlace_of_assemble {values : List Element} {e : Error}
    (h : assemble values = .error e) : ¬e.NoPlace := by
  by_cases hvalues : values = []
  · subst hvalues
    rw [assemble] at h
    cases h
    rintro (⟨_, _, _, ⟨⟩⟩ | ⟨_, _, _, ⟨⟩⟩)
  · have hreports := reports_assemble hvalues
    unfold Reports at hreports
    split at hreports
    · cases h.symm.trans hreports
      rintro (⟨_, _, _, ⟨⟩⟩ | ⟨_, _, _, ⟨⟩⟩)
    · obtain ⟨operation, hoperation⟩ := hreports
      cases h.symm.trans hoperation

/-- A kind that takes in elements without a field has a place for them, even if it refuses them. -/
theorem Node.not_noPlace_of_setOverflow {node : Node} {values : List Element} {e : Error}
    (haccepts : node.kind.acceptsOverflow = true) (h : (node.setOverflow values).2 = .error e) :
    ¬e.NoPlace := by
  have hreplace {α β : Type} {checked : Except Error α} {write : α → Node} {previous : β}
      (h : (Edited.replace node checked write previous).2 = .error e) : checked = .error e := by
    unfold Edited.replace at h
    split at h <;> cases h
    rfl
  unfold setOverflow at h
  split at h
  · have hchecks :=
      Content.checks_mapM (Element.checks_expectNode · .body "statements") values
    rw [hreplace h] at hchecks
    exact hchecks.2.not_noPlace
  · cases h
  · have herror := hreplace h
    unfold vectorOf at herror
    split at herror <;> cases herror
    rintro (⟨_, _, _, ⟨⟩⟩ | ⟨_, _, _, ⟨⟩⟩)
  · have herror := hreplace h
    unfold quaternionOf at herror
    split at herror <;> cases herror
    rintro (⟨_, _, _, ⟨⟩⟩ | ⟨_, _, _, ⟨⟩⟩)
  iterate 3
    exact not_noPlace_of_assemble (hreplace h)
  · cases node <;> grind [kind, Kind.acceptsOverflow]

/-- Any other kind takes in the empty list only. -/
theorem Node.setOverflow_of_acceptsOverflow_eq_false {node : Node} {values : List Element}
    (h : node.kind.acceptsOverflow = false) :
    node.setOverflow values = if values.isEmpty then (node, .ok ()) else (node,
      .error (.discardedSubtree node.kind values.length (Element.describeAll values))) := by
  cases node <;> first | rfl | cases h

/-- The declared fields and the setters agree.  Assigning a single field or a list fails for want
of a place exactly where the kind declares no such field of that shape, and elements without a field
fail to find a place exactly where the kind takes in none; the failure then names the kind with what
it has no place for.  All other failures are of another form. -/
theorem Node.setters_agree_with_fields (node : Node) (field : String) (value : Element)
    (values : List Element) (e : Error) :
    ((node.set field value).2 = .error e ∧ e.NoPlace ↔
      node.kind.hasField field .single = false ∧ e = .noSuchField node.kind field 1) ∧
    ((node.setList field values).2 = .error e ∧ e.NoPlace ↔
      node.kind.hasField field .list = false ∧ e = .noSuchField node.kind field values.length) ∧
    ((node.setOverflow values).2 = .error e ∧ e.NoPlace ↔
      (node.kind.acceptsOverflow = false ∧ values ≠ []) ∧
        e = .discardedSubtree node.kind values.length (Element.describeAll values)) := by
  refine ⟨(ends_set node field value).noPlace_iff, (ends_setList node field values).noPlace_iff, ?_⟩
  cases haccepts : node.kind.acceptsOverflow with
  | true =>
    constructor
    · rintro ⟨herror, hplace⟩
      exact absurd hplace (not_noPlace_of_setOverflow haccepts herror)
    · rintro ⟨⟨⟨⟩, -⟩, -⟩
  | false =>
    rw [setOverflow_of_acceptsOverflow_eq_false haccepts]
    cases values with
    | nil => simp
    | cons first rest =>
      constructor
      · rintro ⟨⟨⟩, -⟩
        exact ⟨⟨rfl, List.cons_ne_nil _ _⟩, rfl⟩
      · rintro ⟨-, rfl⟩
        exact ⟨rfl, .inr ⟨_, _, _, rfl⟩⟩

end Lsl
