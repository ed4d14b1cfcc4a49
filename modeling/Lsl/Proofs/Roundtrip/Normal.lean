import Lsl.Proofs.Grammar.Shape
import Lsl.Proofs.Roundtrip.Nesting
import Lsl.Proofs.Syntax.Normal
/-!
# Normal expressions

The normal tree of a well-shaped expression is well shaped and settled, has the same words, and is
printable if the expression is.  So it is what is read back from the written form of the expression.
Each of these is shown for the forms of operands and operations, one by one, with what holds of their
parts.
-/

namespace Lsl

open Lexeme

/-! ## Nodes that only wrap another one -/

theorem Element.unwrapped_value (o : Operation) :
    (Element.node (.value o)).unwrapped = o.sideElement := by
  obtain ⟨_ | left, _ | center, _ | right⟩ := o <;> rfl

theorem Element.unwrapped_of_ne {element : Element} (h : element.isWellShapedOperand = true)
    (hne : ∀ o, element ≠ .node (.value o)) : element.unwrapped = element := by
  cases element with
  | text t => rfl
  | node n =>
    rw [Element.isWellShapedOperand, Bool.and_eq_true] at h
    cases n with
    | value o => exact absurd rfl (hne o)
    | expression => cases h.1
    | condition => cases h.1
    | _ => rfl

/-- What an operation stands for as the side of another one, as an operation. -/
def Operation.asSide (o : Operation) : Operation :=
  match o.sideElement with
  | .node (.value inner) => inner
  | _ => o

theorem Operation.value_asSide (o : Operation) :
    Element.node (.value o.asSide) = o.sideElement ∨ o.asSide = o := by
  unfold Operation.asSide
  split
  · next h => exact .inl h.symm
  · exact .inr rfl

section

variable {o : Operation} (hshaped : o.wellShaped = true)

include hshaped

theorem Operation.unwrapped_value : (Node.value o).unwrapped = .value o.asSide := by
  rcases o.cases_of_wellShaped hshaped with ⟨hbinary, hside⟩ | ⟨center, rfl, hcenter⟩
  · have hcore : o.asSide = o := by rw [Operation.asSide, hside]
    rw [hcore]
    obtain ⟨_ | left, _ | center, _ | right⟩ := o <;> first | rfl | cases hbinary
  · rw [Element.isPlainOperand, Bool.and_eq_true] at hcenter
    cases center with
    | text t => rfl
    | node n =>
      rw [Element.isWellShapedOperand, Bool.and_eq_true] at hcenter
      cases n with
      | expression => cases hcenter.1.1
      | condition => cases hcenter.1.1
      | _ => rfl

theorem Operation.wellShaped_asSide : o.asSide.wellShaped = true := by
  rcases o.value_asSide with hcore | hcore
  · have hplain := o.isPlainOperand_sideElement hshaped
    rw [← hcore, Element.isPlainOperand, Element.isWellShapedOperand, Node.wellShaped_value,
      Bool.and_eq_true, Bool.and_eq_true] at hplain
    exact hplain.1.2
  · rwa [hcore]

end

theorem Element.isPlainOperand_of_wellShaped {element : Element}
    (h : element.isWellShapedOperand = true) : element.isPlainOperand = true := by
  cases element with
  | text t => exact Rule.plainOperand_of_text h
  | node n =>
    rw [Element.isPlainOperand, h]
    rfl

theorem Element.isPlainOperand_unwrapped {element : Element}
    (h : element.isWellShapedOperand = true) : element.unwrapped.isPlainOperand = true := by
  by_cases hvalue : ∃ o, element = .node (.value o)
  · obtain ⟨o, rfl⟩ := hvalue
    rw [Element.isWellShapedOperand, Node.wellShaped_value, Bool.and_eq_true] at h
    rw [Element.unwrapped_value]
    exact o.isPlainOperand_sideElement h.2
  · rw [Element.unwrapped_of_ne h fun o ho => hvalue ⟨o, ho⟩]
    exact Element.isPlainOperand_of_wellShaped h

theorem Element.isWellShapedOperand_unwrapped {element : Element}
    (h : element.isWellShapedOperand = true) : element.unwrapped.isWellShapedOperand = true :=
  (Bool.and_eq_true_iff.1 (Element.isPlainOperand_unwrapped h)).1

/-- What is the same for an operation and for what stands in its place at a side is the same for the
side without what is wrapped around it. -/
theorem Operation.eq_asSide {α : Type} {f : Element → α} {o : Operation}
    (h : f o.sideElement = f (.node (.value o))) :
    f (.node (.value o.asSide)) = f (.node (.value o)) := by
  rcases o.value_asSide with hside | hside
  · rw [hside, h]
  · rw [hside]

theorem Element.eq_unwrapped {α : Type} {f : Element → α} {element : Element}
    (hshaped : element.isWellShapedOperand = true)
    (h : ∀ o : Operation, f o.sideElement = f (.node (.value o))) :
    f element.unwrapped = f element := by
  by_cases hvalue : ∃ o, element = .node (.value o)
  · obtain ⟨o, rfl⟩ := hvalue
    rw [Element.unwrapped_value, h]
  · rw [Element.unwrapped_of_ne hshaped fun o ho => hvalue ⟨o, ho⟩]

/-! ## Normal operations -/

theorem Operation.normal_leaf (center : Element) :
    Operation.normal ⟨none, some center, none⟩ = ⟨none, some center.normal.unwrapped, none⟩ := by
  simp only [Operation.normal, normalNode?, normalElement?, Operation.unwrapped]

theorem Operation.normal_binary {left right : Operation} (symbol : String)
    (hleft : left.normal.wellShaped = true) (hright : right.normal.wellShaped = true) :
    Operation.normal ⟨some (.value left), some (.text symbol), some (.value right)⟩ =
      ⟨some (.value left.normal.asSide), some (.text symbol), some (.value right.normal.asSide)⟩ := by
  simp only [Operation.normal, normalNode?, normalElement?, Node.normal, Element.normal,
    Operation.unwrapped, Option.map_some, Operation.unwrapped_value hleft,
    Operation.unwrapped_value hright]

theorem Operation.fitsLast_normal {o : Operation} (h : o.wellShaped = true)
    (h' : o.normal.wellShaped = true) : o.normal.fitsLast = o.fitsLast := by
  match o with
  | ⟨some (.value left), some (.text symbol), some (.value right)⟩ =>
    simp only [Operation.normal, normalNode?, normalElement?, Element.normal, Operation.unwrapped,
      Operation.fitsLast]
  | ⟨none, some center, none⟩ =>
    rw [Operation.normal_leaf] at h' ⊢
    exact (fitsLast_leaf (level?_eq_none h')).trans (fitsLast_leaf (level?_eq_none h)).symm

/-- A list of values has the normal operations in its normal list. -/
theorem normalElements_map (os : List Operation) :
    normalElements (os.map fun o => .node (.value o)) =
      (os.map Operation.normal).map fun o => .node (.value o) := by
  induction os with
  | nil => rw [List.map_nil, normalElements]; rfl
  | cons o os ih =>
    rw [List.map_cons, normalElements, Element.normal, Node.normal, ih]
    rfl

theorem ExpressionCases.normal_wellShaped :
    ExpressionCases (fun element => element.normal.isWellShapedOperand = true)
      (fun o => o.normal.wellShaped = true) where
  text _ h := by rwa [Element.normal]
  group o _ h := by
    rw [Element.normal, Node.normal, Element.isWellShapedOperand, Node.wellShaped_value, h]
    rfl
  call name os hname h := by
    have hos : areWellShapedValues ((os.map Operation.normal).map fun o => .node (.value o)) = true :=
      Rule.areWellShapedValues_map (List.forall_mem_map.2 fun o ho => (h o ho).2)
    rw [Element.normal, Node.normal, normalElements_map, Element.isWellShapedOperand, Node.wellShaped,
      named, Option.any_some, hname, hos]
    rfl
  list os h := by
    have hos : areWellShapedValues ((os.map Operation.normal).map fun o => .node (.value o)) = true :=
      Rule.areWellShapedValues_map (List.forall_mem_map.2 fun o ho => (h o ho).2)
    rw [Element.normal, Node.normal, normalElements_map, Element.isWellShapedOperand, Node.wellShaped,
      hos]
    rfl
  vector x y z h hlast := by
    simp only [List.forall_mem_cons] at h
    obtain ⟨⟨-, hx⟩, ⟨-, hy⟩, ⟨hz', hz⟩, -⟩ := h
    simp only [Element.normal, Node.normal, Element.isWellShapedOperand, Node.wellShaped,
      Element.isWellShapedValue, Element.fitsLast, hx, hy, hz, z.fitsLast_normal hz' hz, hlast]
    rfl
  quaternion x y z s h hlast := by
    simp only [List.forall_mem_cons] at h
    obtain ⟨⟨-, hx⟩, ⟨-, hy⟩, ⟨-, hz⟩, ⟨hs', hs⟩, -⟩ := h
    simp only [Element.normal, Node.normal, Element.isWellShapedOperand, Node.wellShaped,
      Element.isWellShapedValue, Element.fitsLast, hx, hy, hz, hs, s.fitsLast_normal hs' hs, hlast]
    rfl
  cast type value htype _ h := by
    simp only [Element.normal, Node.normal, normalElement?, Option.map_some,
      Element.isWellShapedOperand, Node.wellShaped, typed, Option.any_some, htype,
      Element.isWellShapedOperand_unwrapped h]
    rfl
  preMod symbol value hsymbol _ h := by
    simp only [Element.normal, Node.normal, normalElement?, Option.map_some,
      Element.isWellShapedOperand, Node.wellShaped, Option.any_some, List.contains_iff_mem.2 hsymbol,
      Element.isWellShapedOperand_unwrapped h]
    rfl
  postMod symbol name hsymbol hname := by
    simp only [Element.normal, Node.normal, normalElement?, Option.map_some, Element.unwrapped,
      Element.isWellShapedOperand, Node.wellShaped, Option.any_some, List.contains_iff_mem.2 hsymbol,
      hname]
    rfl
  leaf center _ _ h := by
    rw [Operation.normal_leaf]
    exact Element.isPlainOperand_unwrapped h
  binary left symbol right _ hlevel _ hleft hright := by
    rw [Operation.normal_binary symbol hleft hright, Operation.wellShaped, hlevel,
      left.normal.wellShaped_asSide hleft, right.normal.wellShaped_asSide hright]
    rfl

theorem Element.isWellShapedOperand_normal {element : Element}
    (h : element.isWellShapedOperand = true) : element.normal.isWellShapedOperand = true :=
  ExpressionCases.normal_wellShaped.of_element element h

theorem Operation.wellShaped_normal (o : Operation) (h : o.wellShaped = true) :
    o.normal.wellShaped = true :=
  ExpressionCases.normal_wellShaped.of_operation o h

/-! ## Normal expressions are settled -/

theorem Operation.settled_asSide {o : Operation} (hshaped : o.wellShaped = true)
    (h : o.settled = true) : o.asSide.settled = true ∧
      (o.asSide.isBinary || !(o.asSide.center?.any Element.isExpression)) = true := by
  rcases o.cases_of_wellShaped hshaped with ⟨hbinary, hside⟩ | ⟨center, rfl, hcenter⟩
  · rw [Operation.asSide, hside]
    exact ⟨h, by rw [hbinary]; rfl⟩
  · cases center with
    | text t => exact ⟨h, rfl⟩
    | node n =>
      rw [Element.isPlainOperand, Element.isWellShapedOperand, Bool.and_eq_true,
        Bool.and_eq_true] at hcenter
      cases n with
      | value inner =>
        rw [Operation.settled_leaf, Element.settledOperand, Bool.and_eq_true] at h
        exact ⟨h.2, by rw [Operation.asSide, Operation.sideElement, h.1]; rfl⟩
      | expression => cases hcenter.1.1
      | condition => cases hcenter.1.1
      | _ => exact ⟨h, rfl⟩

theorem Element.settledOperand_unwrapped {element : Element}
    (hshaped : element.isWellShapedOperand = true) (h : element.settled = true) :
    element.unwrapped.settledOperand = true := by
  by_cases hvalue : ∃ o, element = .node (.value o)
  · obtain ⟨o, rfl⟩ := hvalue
    rw [Element.isWellShapedOperand, Node.wellShaped_value, Bool.and_eq_true] at hshaped
    rw [Element.settled, Node.settled] at h
    rw [Element.unwrapped_value]
    rcases o.cases_of_wellShaped hshaped.2 with ⟨hbinary, hside⟩ | ⟨center, rfl, -⟩
    · rw [hside, Element.settledOperand, hbinary, h]
      rfl
    · rwa [Operation.settled_leaf] at h
  · have hne (o : Operation) : element ≠ .node (.value o) := fun ho => hvalue ⟨o, ho⟩
    rw [Element.unwrapped_of_ne hshaped hne]
    cases element with
    | text t => rfl
    | node n =>
      rw [Element.settledOperand]
      · exact h
      · rintro o rfl
        exact hne o rfl

theorem ExpressionCases.normal_settled :
    ExpressionCases (fun element => element.normal.settled = true)
      (fun o => o.normal.settled = true) where
  text _ _ := by rw [Element.normal, Element.settled]
  group o _ h := by rwa [Element.normal, Node.normal, Element.settled, Node.settled]
  call name os _ h := by
    rw [Element.normal, Node.normal, Element.settled, Node.settled, normalElements_map,
      areSettledElements_map, List.all_map, List.all_eq_true]
    exact fun o ho => (h o ho).2
  list os h := by
    rw [Element.normal, Node.normal, Element.settled, Node.settled, normalElements_map,
      areSettledElements_map, List.all_map, List.all_eq_true]
    exact fun o ho => (h o ho).2
  vector x y z h _ := by
    simp only [List.forall_mem_cons] at h
    obtain ⟨⟨-, hx⟩, ⟨-, hy⟩, ⟨-, hz⟩, -⟩ := h
    simp only [Element.normal, Node.normal, Element.settled, Node.settled, hx, hy, hz]
    rfl
  quaternion x y z s h _ := by
    simp only [List.forall_mem_cons] at h
    obtain ⟨⟨-, hx⟩, ⟨-, hy⟩, ⟨-, hz⟩, ⟨-, hs⟩, -⟩ := h
    simp only [Element.normal, Node.normal, Element.settled, Node.settled, hx, hy, hz, hs]
    rfl
  cast type value _ hvalue h := by
    simp only [Element.normal, Node.normal, normalElement?, Option.map_some, Element.settled,
      Node.settled]
    exact Element.settledOperand_unwrapped (Element.isWellShapedOperand_normal hvalue) h
  preMod symbol value _ hvalue h := by
    simp only [Element.normal, Node.normal, normalElement?, Option.map_some, Element.settled,
      Node.settled]
    exact Element.settledOperand_unwrapped (Element.isWellShapedOperand_normal hvalue) h
  postMod symbol name _ _ := by
    simp only [Element.normal, Node.normal, normalElement?, Option.map_some, Element.unwrapped,
      Element.settled, Node.settled, Element.settledOperand]
  leaf center hcenter _ h := by
    rw [Operation.normal_leaf, Operation.settled_leaf]
    exact Element.settledOperand_unwrapped (Element.isWellShapedOperand_normal hcenter) h
  binary left symbol right hleft _ hright hsettled hsettled' := by
    have hleft' := left.wellShaped_normal hleft
    have hright' := right.wellShaped_normal hright
    obtain ⟨hsettled, hside⟩ := Operation.settled_asSide hleft' hsettled
    obtain ⟨hsettled', hside'⟩ := Operation.settled_asSide hright' hsettled'
    rw [Operation.normal_binary symbol hleft' hright', Operation.settled, hsettled, hside, hsettled',
      hside']
    rfl

theorem Operation.settled_normal (o : Operation) (h : o.wellShaped = true) :
    o.normal.settled = true :=
  ExpressionCases.normal_settled.of_operation o h

/-! ## Normal expressions have the same words -/

theorem Operation.lexemes_sideElement (o : Operation) : o.sideElement.lexemes = o.lexemes := by
  obtain ⟨_ | left, _ | center, _ | right⟩ := o <;>
    simp [Operation.sideElement, Node.lexemes, Operation.lexemes]

theorem Element.lexemes_unwrapped {element : Element} (h : element.isWellShapedOperand = true) :
    element.unwrapped.lexemes = element.lexemes :=
  Element.eq_unwrapped h fun o => by
    rw [o.lexemes_sideElement, Element.lexemes_node, Node.lexemes]

theorem Operation.lexemes_asSide (o : Operation) : o.asSide.lexemes = o.lexemes := by
  have hvalue (o : Operation) : (Element.node (.value o)).lexemes = o.lexemes := by
    rw [Element.lexemes_node, Node.lexemes]
  rw [← hvalue, ← hvalue o]
  exact Operation.eq_asSide (by rw [o.lexemes_sideElement, hvalue])

theorem ExpressionCases.normal_lexemes :
    ExpressionCases (fun element => element.normal.lexemes = element.lexemes)
      (fun o => o.normal.lexemes = o.lexemes) where
  text _ _ := by rw [Element.normal]
  group o _ h := by simp only [Element.normal, Node.normal, Element.lexemes, Node.lexemes, h]
  call name os _ h := by
    rw [Element.normal, Node.normal, normalElements_map]
    simp only [Element.lexemes, Node.lexemes, elementLexemes_map, List.flatMap_map]
    rw [List.flatMap_congr fun o ho => (h o ho).2]
  list os h := by
    rw [Element.normal, Node.normal, normalElements_map]
    simp only [Element.lexemes, Node.lexemes, elementLexemes_map, List.flatMap_map]
    rw [List.flatMap_congr fun o ho => (h o ho).2]
  vector x y z h _ := by
    simp only [List.forall_mem_cons] at h
    obtain ⟨⟨-, hx⟩, ⟨-, hy⟩, ⟨-, hz⟩, -⟩ := h
    simp only [Element.normal, Node.normal, Element.lexemes, Node.lexemes, hx, hy, hz]
  quaternion x y z s h _ := by
    simp only [List.forall_mem_cons] at h
    obtain ⟨⟨-, hx⟩, ⟨-, hy⟩, ⟨-, hz⟩, ⟨-, hs⟩, -⟩ := h
    simp only [Element.normal, Node.normal, Element.lexemes, Node.lexemes, hx, hy, hz, hs]
  cast type value _ hvalue h := by
    simp only [Element.normal, Node.normal, normalElement?, Option.map_some, Element.lexemes,
      Node.lexemes, elementLexemes?_some, h,
      Element.lexemes_unwrapped (Element.isWellShapedOperand_normal hvalue)]
  preMod symbol value _ hvalue h := by
    simp only [Element.normal, Node.normal, normalElement?, Option.map_some, Element.lexemes,
      Node.lexemes, elementLexemes?_some, h,
      Element.lexemes_unwrapped (Element.isWellShapedOperand_normal hvalue)]
  postMod symbol name _ _ := by
    simp only [Element.normal, Node.normal, normalElement?, Option.map_some, Element.unwrapped]
  leaf center hcenter _ h := by
    rw [Operation.normal_leaf]
    simp only [Operation.lexemes, elementLexemes?_some, h,
      Element.lexemes_unwrapped (Element.isWellShapedOperand_normal hcenter)]
  binary left symbol right hleft _ hright h h' := by
    rw [Operation.normal_binary symbol (left.wellShaped_normal hleft) (right.wellShaped_normal hright)]
    simp only [Operation.lexemes, nodeLexemes?_some, Node.lexemes, Operation.lexemes_asSide, h, h']

theorem Operation.lexemes_normal (o : Operation) (h : o.wellShaped = true) :
    o.normal.lexemes = o.lexemes :=
  ExpressionCases.normal_lexemes.of_operation o h

/-! ## Where the written forms of normal expressions start and end -/

theorem Element.core_unwrapped {element : Element} (h : element.isWellShapedOperand = true) :
    element.unwrapped.core = element.core :=
  Element.eq_unwrapped h Operation.core_sideElement

theorem Element.lastOperand_unwrapped {element : Element} (h : element.isWellShapedOperand = true) :
    element.unwrapped.lastOperand = element.lastOperand :=
  Element.eq_unwrapped h Operation.lastOperand_sideElement

theorem Element.tries_unwrapped {element : Element} (h : element.isWellShapedOperand = true) :
    element.unwrapped.tries = element.tries :=
  Element.eq_unwrapped h Operation.tries_sideElement

theorem Operation.core_asSide (o : Operation) : (Node.value o.asSide).core = (Node.value o).core :=
  @Operation.eq_asSide Element Element.core o o.core_sideElement

theorem Operation.lastOperand_asSide (o : Operation) :
    (Node.value o.asSide).lastOperand = (Node.value o).lastOperand :=
  @Operation.eq_asSide Element Element.lastOperand o o.lastOperand_sideElement

theorem Operation.tries_asSide (o : Operation) :
    (Node.value o.asSide).tries = (Node.value o).tries :=
  @Operation.eq_asSide (List Nat) Element.tries o o.tries_sideElement

/-- An operand with a modifier after it is a name. -/
def Element.modifiesName (core : Element) : Prop :=
  ∀ symbol? value?, core = .node (.postMod symbol? value?) → ∃ name, value? = some (.text name)

theorem ExpressionCases.normal_core :
    ExpressionCases (fun element => element.normal.core = element.core.normal ∧
        element.core.modifiesName)
      (fun o => (Node.value o).normal.core = (Node.value o).core.normal ∧
        (Node.value o).core.modifiesName) where
  text _ _ := by
    simp only [Element.normal, Element.core, true_and]
    rintro _ _ ⟨⟩
  group _ _ h := by rwa [Element.normal, Element.core, Element.core]
  call name os _ _ := by
    simp only [Element.normal, Node.normal, Element.core, Node.core, true_and]
    rintro _ _ ⟨⟩
  list os _ := by
    simp only [Element.normal, Node.normal, Element.core, Node.core, true_and]
    rintro _ _ ⟨⟩
  vector x y z _ _ := by
    simp only [Element.normal, Node.normal, Element.core, Node.core, true_and]
    rintro _ _ ⟨⟩
  quaternion x y z s _ _ := by
    simp only [Element.normal, Node.normal, Element.core, Node.core, true_and]
    rintro _ _ ⟨⟩
  cast type value _ _ _ := by
    simp only [Element.normal, Node.normal, Element.core, Node.core, true_and]
    rintro _ _ ⟨⟩
  preMod symbol value _ _ _ := by
    simp only [Element.normal, Node.normal, Element.core, Node.core, true_and]
    rintro _ _ ⟨⟩
  postMod symbol name _ _ := by
    simp only [Element.normal, Node.normal, Element.core, Node.core, true_and]
    rintro _ _ ⟨⟩
    exact ⟨name, rfl⟩
  leaf center hcenter _ h := by
    rw [Node.normal, Operation.normal_leaf, Node.core, Node.core,
      Element.core_unwrapped (Element.isWellShapedOperand_normal hcenter)]
    exact h
  binary left symbol right hleft _ hright _ _ := by
    rw [Node.normal, Operation.normal_binary symbol (left.wellShaped_normal hleft)
      (right.wellShaped_normal hright)]
    simp only [Node.core, Element.normal, Node.normal, Operation.normal_binary symbol
      (left.wellShaped_normal hleft) (right.wellShaped_normal hright), true_and]
    rintro _ _ ⟨⟩

theorem ExpressionCases.normal_lastOperand :
    ExpressionCases (fun element => element.normal.lastOperand = element.lastOperand.normal)
      (fun o => (Node.value o).normal.lastOperand = (Node.value o).lastOperand.normal) where
  text _ _ := by simp only [Element.normal, Element.lastOperand]
  group _ _ h := by rwa [Element.normal, Element.lastOperand, Element.lastOperand]
  call name os _ _ := by
    simp only [Element.normal, Node.normal, Element.lastOperand, Node.lastOperand]
  list os _ := by simp only [Element.normal, Node.normal, Element.lastOperand, Node.lastOperand]
  vector x y z _ _ := by
    simp only [Element.normal, Node.normal, Element.lastOperand, Node.lastOperand]
  quaternion x y z s _ _ := by
    simp only [Element.normal, Node.normal, Element.lastOperand, Node.lastOperand]
  cast type value _ hvalue h := by
    simp only [Element.normal, Node.normal, normalElement?, Option.map_some, Element.lastOperand,
      Node.lastOperand, Element.lastOperand_unwrapped (Element.isWellShapedOperand_normal hvalue), h]
  preMod symbol value _ hvalue h := by
    simp only [Element.normal, Node.normal, normalElement?, Option.map_some, Element.lastOperand,
      Node.lastOperand, Element.lastOperand_unwrapped (Element.isWellShapedOperand_normal hvalue), h]
  postMod symbol name _ _ := by
    simp only [Element.normal, Node.normal, Element.lastOperand, Node.lastOperand]
  leaf center hcenter _ h := by
    rw [Node.normal, Operation.normal_leaf, Node.lastOperand, Node.lastOperand,
      Element.lastOperand_unwrapped (Element.isWellShapedOperand_normal hcenter), h]
  binary left symbol right hleft _ hright _ _ := by
    have hnormal := Operation.normal_binary symbol (left.wellShaped_normal hleft)
      (right.wellShaped_normal hright)
    simp only [Node.normal, hnormal, Node.lastOperand, Element.normal]

section

variable {o : Operation} (h : o.wellShaped = true)

include h

theorem Operation.core_normal : (Node.value o.normal).core = (Node.value o).core.normal := by
  rw [← Node.normal]
  exact (ExpressionCases.normal_core.of_operation o h).1

theorem Operation.lastOperand_normal :
    (Node.value o.normal).lastOperand = (Node.value o).lastOperand.normal := by
  rw [← Node.normal]
  exact ExpressionCases.normal_lastOperand.of_operation o h

theorem Operation.endsInDigits_normal :
    (Node.value o.normal).endsInDigits = (Node.value o).endsInDigits := by
  rw [Node.endsInDigits, Node.endsInDigits, Operation.lastOperand_normal h]
  cases (Node.value o).lastOperand <;> rw [Element.normal]

theorem Operation.endsInName_normal :
    (Node.value o.normal).endsInName = (Node.value o).endsInName := by
  rw [Node.endsInName, Node.endsInName, Operation.lastOperand_normal h]
  cases (Node.value o).lastOperand <;> rw [Element.normal]

theorem Operation.isNumber_normal :
    (Node.value o.normal.asSide).isNumber = (Node.value o).isNumber := by
  rw [Node.isNumber, Node.isNumber, Operation.core_asSide, Operation.core_normal h]
  cases (Node.value o).core <;> rw [Element.normal]

theorem Operation.isModifiedName_normal :
    (Node.value o.normal).isModifiedName = (Node.value o).isModifiedName := by
  have hname := (ExpressionCases.normal_core.of_operation o h).2
  rw [Node.isModifiedName, Node.isModifiedName, Operation.core_normal h]
  cases hcore : (Node.value o).core with
  | text t => rw [Element.normal]
  | node n =>
    cases n with
    | postMod symbol? value? =>
      obtain ⟨name, rfl⟩ := hname symbol? value? hcore
      simp only [Element.normal, Node.normal, normalElement?, Option.map_some, Element.unwrapped]
    | _ => simp only [Element.normal, Node.normal]

end

/-! ## Normal expressions are printable -/

/-- The same tries to read a literal go on from the normal expression. -/
theorem ExpressionCases.normal_tries :
    ExpressionCases (fun element => element.normal.tries = element.tries)
      (fun o => (Node.value o).normal.tries = (Node.value o).tries ∧ o.normal.tries = o.tries ∧
        o.normal.strays = o.strays) where
  text _ _ := by rw [Element.normal]
  group _ _ h := by rw [Element.normal, Element.tries, Element.tries, h.1]
  call name os _ _ := by simp only [Element.normal, Node.normal, Element.tries, Node.tries]
  list os _ := by simp only [Element.normal, Node.normal, Element.tries, Node.tries]
  vector x y z h _ := by
    simp only [List.forall_mem_cons] at h
    obtain ⟨⟨-, -, -, hx⟩, ⟨-, -, -, hy⟩, ⟨-, -, hz, hz'⟩, -⟩ := h
    simp only [Element.normal, Node.normal, Element.tries, Node.tries, Element.strays,
      Element.remains, hx, hy, hz, hz']
  quaternion x y z s h _ := by
    simp only [List.forall_mem_cons] at h
    obtain ⟨⟨-, -, -, hx⟩, ⟨-, -, -, hy⟩, ⟨-, -, -, hz⟩, ⟨-, -, hs, hs'⟩, -⟩ := h
    simp only [Element.normal, Node.normal, Element.tries, Node.tries, Element.strays,
      Element.remains, hx, hy, hz, hs, hs']
  cast type value _ hvalue h := by
    simp only [Element.normal, Node.normal, normalElement?, Option.map_some, Element.tries,
      Node.tries, Element.tries_unwrapped (Element.isWellShapedOperand_normal hvalue), h]
  preMod symbol value _ hvalue h := by
    simp only [Element.normal, Node.normal, normalElement?, Option.map_some, Element.tries,
      Node.tries, Element.tries_unwrapped (Element.isWellShapedOperand_normal hvalue), h]
  postMod symbol name _ _ := by simp only [Element.normal, Node.normal, Element.tries, Node.tries]
  leaf center hcenter _ h := by
    have htries := Element.tries_unwrapped (Element.isWellShapedOperand_normal hcenter)
    rw [Node.normal, Operation.normal_leaf]
    simp only [Node.tries, Operation.tries, htries, h, true_and]
    rfl
  binary left symbol right hleft _ hright h h' := by
    have hnormal := Operation.normal_binary symbol (left.wellShaped_normal hleft)
      (right.wellShaped_normal hright)
    rw [Node.normal] at h h'
    refine ⟨by simp only [Node.normal, hnormal, Node.tries], ?_, ?_⟩
    · rw [hnormal, Operation.tries, Operation.tries, Operation.tries_asSide, h'.1]
    · rw [hnormal, Operation.strays, Operation.strays, Operation.tries_asSide, h.1,
        Operation.isNumber_normal hright]

theorem Operation.strays_normal {o : Operation} (h : o.wellShaped = true) :
    o.normal.strays = o.strays :=
  (ExpressionCases.normal_tries.of_operation o h).2.2

/-- What a member operator asks of its sides, it asks of the same texts. -/
theorem Operation.separate_normal {left right : Operation} (hleft : left.wellShaped = true)
    (hright : right.wellShaped = true) :
    ((Node.value left.normal.asSide).endsInDigits ||
      ((Node.value left.normal.asSide).endsInName &&
        (Node.value right.normal.asSide).isModifiedName)) =
    ((Node.value left).endsInDigits ||
      ((Node.value left).endsInName && (Node.value right).isModifiedName)) := by
  rw [← Operation.endsInDigits_normal hleft, ← Operation.endsInName_normal hleft,
    ← Operation.isModifiedName_normal hright]
  simp only [Node.endsInDigits, Node.endsInName, Node.isModifiedName,
    Operation.lastOperand_asSide, Operation.core_asSide]

section

variable {os : List Operation} (h : ∀ o ∈ os, o.wellShaped = true)

include h

/-- The same element is the last component of a try. -/
theorem fitsLast_getElem?_normal (count : Nat) :
    (os.map Operation.normal)[count]?.all Operation.fitsLast =
      os[count]?.all Operation.fitsLast := by
  rw [List.getElem?_map]
  cases hget : os[count]? with
  | none => rfl
  | some o =>
    have ho := h o (List.mem_of_getElem? hget)
    exact o.fitsLast_normal ho (o.wellShaped_normal ho)

theorem separable_normal : separable (os.map Operation.normal) = separable os := by
  induction os with
  | nil => rfl
  | cons o os ih =>
    obtain ⟨ho, hos⟩ := List.forall_mem_cons.1 h
    simp only [List.map_cons, separable, Operation.strays_normal ho, fitsLast_getElem?_normal hos,
      ih hos]

theorem closable_normal : closable (os.map Operation.normal) = closable os := by
  induction os with
  | nil => rfl
  | cons o os ih =>
    obtain ⟨ho, hos⟩ := List.forall_mem_cons.1 h
    simp only [List.map_cons, closable, Operation.strays_normal ho, fitsLast_getElem?_normal hos,
      List.length_map, ih hos]

end

section

variable {allows : String → Bool}

theorem Operation.printable_sideElement (o : Operation) :
    o.sideElement.printable allows = (Node.value o).printable allows := by
  unfold Operation.sideElement
  split
  · rw [Node.printable, Operation.printable_leaf]
  · rw [Element.printable]

theorem Operation.printable_asSide (o : Operation) :
    (Node.value o.asSide).printable allows = (Node.value o).printable allows :=
  @Operation.eq_asSide Bool (Element.printable allows) o o.printable_sideElement

theorem Element.printable_unwrapped {element : Element} (h : element.isWellShapedOperand = true) :
    element.unwrapped.printable allows = element.printable allows :=
  Element.eq_unwrapped h Operation.printable_sideElement

/-- The elements of a list are as printable as those of the normal list, and as separable. -/
theorem arePrintable_normal {os : List Operation}
    (h : ∀ o ∈ os, o.wellShaped = true ∧ o.normal.printable allows = o.printable allows) :
    arePrintableElements allows (normalElements (os.map fun o => .node (.value o))) =
        arePrintableElements allows (os.map fun o => .node (.value o)) ∧
      separable ((normalElements (os.map fun o => .node (.value o))).filterMap Element.operation?) =
        separable ((os.map fun o => Element.node (.value o)).filterMap Element.operation?) := by
  rw [normalElements_map, filterMap_operation?, filterMap_operation?, arePrintableElements_map,
    arePrintableElements_map, List.all_map, separable_normal fun o ho => (h o ho).1]
  refine ⟨?_, rfl⟩
  rw [Bool.eq_iff_iff, List.all_eq_true, List.all_eq_true]
  exact forall₂_congr fun o ho => by rw [Function.comp, (h o ho).2]

theorem ExpressionCases.normal_printable :
    ExpressionCases (fun element => element.normal.printable allows = element.printable allows)
      (fun o => o.normal.printable allows = o.printable allows) where
  text _ _ := by rw [Element.normal]
  group o _ h := by simp only [Element.normal, Node.normal, Element.printable, Node.printable, h]
  call name os _ h := by
    simp only [Element.normal, Node.normal, Element.printable, Node.printable,
      (arePrintable_normal h).1, (arePrintable_normal h).2]
  list os h := by
    simp only [Element.normal, Node.normal, Element.printable, Node.printable,
      (arePrintable_normal h).1, (arePrintable_normal h).2]
  vector x y z h _ := by
    have hclosable := closable_normal fun o ho => (h o ho).1
    simp only [List.forall_mem_cons] at h
    obtain ⟨⟨-, hx⟩, ⟨-, hy⟩, ⟨-, hz⟩, -⟩ := h
    simp only [Element.normal, Node.normal, Element.printable, Node.printable, hx, hy, hz]
    exact congrArg _ hclosable
  quaternion x y z s h _ := by
    have hclosable := closable_normal fun o ho => (h o ho).1
    simp only [List.forall_mem_cons] at h
    obtain ⟨⟨-, hx⟩, ⟨-, hy⟩, ⟨-, hz⟩, ⟨-, hs⟩, -⟩ := h
    simp only [Element.normal, Node.normal, Element.printable, Node.printable, hx, hy, hz, hs]
    exact congrArg _ hclosable
  cast type value _ hvalue h := by
    simp only [Element.normal, Node.normal, normalElement?, Option.map_some, Element.printable,
      Node.printable, Element.printable_unwrapped (Element.isWellShapedOperand_normal hvalue), h]
  preMod symbol value _ hvalue h := by
    simp only [Element.normal, Node.normal, normalElement?, Option.map_some, Element.printable,
      Node.printable, Element.printable_unwrapped (Element.isWellShapedOperand_normal hvalue), h]
  postMod symbol name _ _ := by
    simp only [Element.normal, Node.normal, normalElement?, Option.map_some, Element.unwrapped]
  leaf center hcenter _ h := by
    rw [Operation.normal_leaf, Operation.printable_leaf, Operation.printable_leaf,
      Element.printable_unwrapped (Element.isWellShapedOperand_normal hcenter), h]
  binary left symbol right hleft _ hright h h' := by
    rw [Operation.normal_binary symbol (left.wellShaped_normal hleft) (right.wellShaped_normal hright),
      Operation.printable, Operation.printable, Operation.separate_normal hleft hright,
      Operation.printable_asSide, Operation.printable_asSide]
    simp only [Node.printable, h, h']

theorem Operation.printable_normal (o : Operation) (h : o.wellShaped = true) :
    o.normal.printable allows = o.printable allows :=
  ExpressionCases.normal_printable.of_operation o h

end

end Lsl
