import Lsl.Proofs.Syntax.Canonical
import Lsl.Syntax.Render
/-!
# The written form of expressions

What is written for the operands and operations of a well-shaped tree, as lists of characters.  It
does not depend on the width of an indentation, as expressions have no lines of their own.
-/

namespace Lsl

/-! ## Operands and operations -/

/-- The written form of an element as an operand. -/
def Element.operandText (width : Nat) (element : Element) : List Char :=
  (element.renderIn width .value).toList

/-- The written form of an operation that is not in parentheses. -/
def Operation.text (width : Nat) (operation : Operation) : List Char :=
  (operation.renderIn width .value none).toList

/-- The written form of an operator between two operands. -/
def symbolText (symbol : String) : List Char :=
  if symbol = "." then ['.'] else ' ' :: (symbol.toList ++ [' '])

/-- Texts with commas between them. -/
def commaText (texts : List (List Char)) : List Char :=
  List.intercalate [',', ' '] texts

@[simp] theorem commaText_nil : commaText [] = [] := rfl

@[simp] theorem commaText_singleton (text : List Char) : commaText [text] = text := by
  simp [commaText]

@[simp] theorem commaText_cons_cons (text text' : List Char) (texts : List (List Char)) :
    commaText (text :: text' :: texts) = text ++ ',' :: ' ' :: commaText (text' :: texts) := by
  simp [commaText, List.intercalate_cons_cons]

section

variable {width : Nat}

/-- Of the node around an operation only matters whether it groups operands. -/
theorem Operation.renderIn_congr {kind : Kind} {parent? parent'? : Option Kind}
    (h : parent?.any Kind.groupsOperands = parent'?.any Kind.groupsOperands)
    (operation : Operation) :
    operation.renderIn width kind parent? = operation.renderIn width kind parent'? := by
  unfold Operation.renderIn
  rw [h]

/-- An operand is written in the same way in all places for operands. -/
theorem Node.renderIn_of_isOperand {node : Node} (hnode : node.kind.isOperand = true)
    {parent : Kind} (hparent : parent.groupsOperands = true) :
    node.renderIn width (some parent) = node.renderIn width (some .value) := by
  cases node <;> try rfl
  case value operation =>
    rw [renderIn_value, renderIn_value]
    exact Operation.renderIn_congr (by rw [Option.any_some, hparent]; rfl) operation
  all_goals cases hnode

theorem Element.renderIn_of_isOperand {element : Element}
    (helement : element.isWellShapedOperand = true) {parent : Kind}
    (hparent : parent.groupsOperands = true) :
    (element.renderIn width parent).toList = element.operandText width := by
  unfold Element.operandText
  cases element with
  | text t => rfl
  | node n =>
    rw [Element.isWellShapedOperand, Bool.and_eq_true] at helement
    rw [Element.renderIn, Element.renderIn, Node.renderIn_of_isOperand helement.1 hparent]

/-- An operation is written in the same way for all kinds of expression nodes. -/
theorem Operation.renderIn_eq_text {operation : Operation} (h : operation.wellShaped = true)
    {kind : Kind} (hkind : kind.groupsOperands = true) {parent? : Option Kind}
    (hparent : parent?.any Kind.groupsOperands = false) :
    (operation.renderIn width kind parent?).toList = operation.text width := by
  unfold Operation.text
  unfold Operation.wellShaped at h
  split at h
  · simp only [Operation.renderIn, hparent]
    rw [Node.renderIn_of_isOperand rfl hkind, Node.renderIn_of_isOperand rfl hkind]
    rfl
  · next center =>
    rw [Bool.and_eq_true] at h
    simp only [Operation.renderIn, hparent]
    have := @Element.renderIn_of_isOperand width center h.1 kind hkind
    simp only [Option.isSome_none, Bool.or_self, Bool.false_and, Bool.false_eq_true, if_false,
      renderOperation]
    rw [this]
    rfl
  · cases h

@[simp] theorem Element.operandText_text (t : String) :
    (Element.text t).operandText width = t.toList := rfl

theorem Operation.text_leaf (center : Element) :
    Operation.text width ⟨none, some center, none⟩ = center.operandText width := rfl

theorem Operation.text_binary (left right : Operation) (symbol : String) :
    Operation.text width ⟨some (.value left), some (.text symbol), some (.value right)⟩ =
      Element.operandText width (.node (.value left)) ++ (symbolText symbol ++
        Element.operandText width (.node (.value right))) := by
  simp only [Operation.text, Operation.renderIn, renderOperation, Element.renderIn,
    Option.any_none, Bool.and_false, Bool.false_eq_true, if_false, symbolText, Element.operandText]
  by_cases h : symbol = "."
  · simp [h]
  · simp [h]

theorem Element.operandText_value {operation : Operation} (h : operation.wellShaped = true) :
    Element.operandText width (.node (.value operation)) =
      if operation.isBinary then '(' :: (operation.text width ++ [')'])
      else operation.text width := by
  unfold Operation.wellShaped at h
  split at h
  · simp [Element.operandText, Operation.text, Element.renderIn, Node.renderIn_value, Operation.renderIn,
      Operation.isBinary, Kind.groupsOperands]
  · rfl
  · cases h

/-! ## The forms of operands -/

/-- The texts of values in a list. -/
theorem toList_renderElements {operations : List Operation}
    (h : ∀ operation ∈ operations, operation.wellShaped = true) {parent : Kind}
    (hparent : parent.groupsOperands = false) :
    (renderElements width parent (operations.map fun o => .node (.value o))).map String.toList =
      operations.map (Operation.text width) := by
  rw [renderElements_eq_map, List.map_map, List.map_map]
  refine List.map_congr_left fun operation hoperation => ?_
  exact Operation.renderIn_eq_text (h operation hoperation) rfl (by rw [Option.any_some, hparent])

theorem toList_renderNodes {operations : List Operation}
    (h : ∀ operation ∈ operations, operation.wellShaped = true) {parent : Kind}
    (hparent : parent.groupsOperands = false) (hbody : parent ≠ .body) :
    (renderNodes width parent (operations.map .expression)).map String.toList =
      operations.map (Operation.text width) := by
  rw [renderNodes_eq_map, List.map_map, List.map_map]
  refine List.map_congr_left fun operation hoperation => ?_
  simp only [Function.comp, Node.renderIn_expression, Option.some.injEq, hbody, if_false]
  exact Operation.renderIn_eq_text (h operation hoperation) rfl (by rw [Option.any_some, hparent])

theorem Element.operandText_call (name : String) {arguments : List Operation}
    (h : ∀ operation ∈ arguments, operation.wellShaped = true) :
    Element.operandText width
      (.node (.call (some name) (arguments.map fun o => .node (.value o)))) =
      name.toList ++ '(' :: (commaText (arguments.map (Operation.text width)) ++ [')']) := by
  simp only [Element.operandText, Element.renderIn, Node.renderIn_call, Option.getD_some,
    String.toList_append, String.toList_intercalate]
  rw [toList_renderElements h rfl]
  simp [commaText]

theorem Element.operandText_list {values : List Operation}
    (h : ∀ operation ∈ values, operation.wellShaped = true) :
    Element.operandText width (.node (.list (values.map fun o => .node (.value o)))) =
      '[' :: (commaText (values.map (Operation.text width)) ++ [']']) := by
  simp only [Element.operandText, Element.renderIn, Node.renderIn_list, String.toList_append,
    String.toList_intercalate]
  rw [toList_renderElements h rfl]
  simp [commaText]

/-- The texts of the components of a literal. -/
theorem toList_renderIn_value {operation : Operation} (h : operation.wellShaped = true)
    {parent : Kind} (hparent : parent.groupsOperands = false) :
    (Element.renderIn width parent (.node (.value operation))).toList = operation.text width :=
  Operation.renderIn_eq_text h rfl (by rw [Option.any_some, hparent])

theorem Element.operandText_vector {x y z : Operation} (hx : x.wellShaped = true)
    (hy : y.wellShaped = true) (hz : z.wellShaped = true) :
    Element.operandText width
      (.node (.vector (.node (.value x)) (.node (.value y)) (.node (.value z)))) =
      '<' :: (commaText ([x, y, z].map (Operation.text width)) ++ ['>']) := by
  simp only [Element.operandText, Element.renderIn.eq_2 width .value, Node.renderIn_vector,
    String.toList_append, String.toList_intercalate, List.map_cons, List.map_nil]
  rw [toList_renderIn_value hx rfl, toList_renderIn_value hy rfl, toList_renderIn_value hz rfl]
  simp [commaText]

theorem Element.operandText_quaternion {x y z s : Operation} (hx : x.wellShaped = true)
    (hy : y.wellShaped = true) (hz : z.wellShaped = true) (hs : s.wellShaped = true) :
    Element.operandText width (.node (.quaternion (.node (.value x)) (.node (.value y))
      (.node (.value z)) (.node (.value s)))) =
      '<' :: (commaText ([x, y, z, s].map (Operation.text width)) ++ ['>']) := by
  simp only [Element.operandText, Element.renderIn.eq_2 width .value, Node.renderIn_quaternion,
    String.toList_append, String.toList_intercalate, List.map_cons, List.map_nil]
  rw [toList_renderIn_value hx rfl, toList_renderIn_value hy rfl, toList_renderIn_value hz rfl,
    toList_renderIn_value hs rfl]
  simp [commaText]

/-- The written form of a type that is not `void`. -/
def Primitive.text (primitive : Primitive) : List Char :=
  primitive.name.toList

theorem toList_renderType {primitive : Primitive} (h : primitive.isVoid = false) :
    (renderType (some primitive)).toList = primitive.text := by
  simp [renderType, h, Primitive.text]

theorem Element.operandText_cast {type : Primitive} (htype : type.isVoid = false)
    {value : Element} (hvalue : value.isWellShapedOperand = true) :
    Element.operandText width (.node (.cast (some type) (some value))) =
      '(' :: (type.text ++ ')' :: value.operandText width) := by
  simp only [Element.operandText, Element.renderIn.eq_2 width .value, Node.renderIn_cast,
    String.toList_append]
  rw [toList_renderType htype, Element.renderIn_of_isOperand hvalue rfl]
  simp [Element.operandText]

/-- The blank that keeps a modifier apart from an operator at the start of its value. -/
def modifierGap (value : List Char) : List Char :=
  match value with
  | c :: _ => if c ∈ ['-', '+', '!', '~'] then [' '] else []
  | [] => []

theorem Element.operandText_preMod (symbol : String) {value : Element}
    (hvalue : value.isWellShapedOperand = true) :
    Element.operandText width (.node (.preMod (some symbol) (some value))) =
      symbol.toList ++ (modifierGap (value.operandText width) ++ value.operandText width) := by
  simp only [Element.operandText, Element.renderIn.eq_2 width .value, Node.renderIn_preMod,
    Option.getD_some]
  have hrender := @Element.renderIn_of_isOperand width value hvalue .preMod rfl
  unfold Element.operandText at hrender
  unfold renderPreMod modifierGap
  rw [hrender]
  cases hvalue : (Element.renderIn width .value value).toList with
  | nil => simp [hrender, hvalue]
  | cons c rest =>
    dsimp only
    split <;> simp [hrender, hvalue]

theorem Element.operandText_postMod (symbol name : String) :
    Element.operandText width (.node (.postMod (some symbol) (some (.text name)))) =
      name.toList ++ symbol.toList := by
  simp [Element.operandText, Element.renderIn, Node.renderIn_postMod]

end

end Lsl
