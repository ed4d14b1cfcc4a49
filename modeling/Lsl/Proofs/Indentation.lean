import Lsl.Proofs.Syntax.Lexemes
import Lsl.Proofs.Syntax.Written
import Lsl.Proofs.Text.Depth
/-!
# Indentation of written trees

Every line of a written tree has a depth, and the width of an indentation only decides how many
blanks a depth is worth.  The printer indents texts that it has written before, and some of its
choices look at such a text; both come out the same for every width.
-/

namespace Lsl

open Text

/-- Words without line ends and carriage returns. -/
def Unbroken (words : List String) : Prop :=
  ∀ word ∈ words, word.toList.all isPlain = true

@[simp] theorem unbroken_append (words words' : List String) :
    Unbroken (words ++ words') ↔ Unbroken words ∧ Unbroken words' :=
  List.forall_mem_append

@[simp] theorem unbroken_singleton (word : String) :
    Unbroken [word] ↔ word.toList.all isPlain = true :=
  List.forall_mem_singleton

/-! ## Parts that are the same for every width -/

theorem plain_getD {word? : Option String} {other : String} (h : Unbroken word?.toList)
    (hother : other.toList.all isPlain = true) : (word?.getD other).toList.all isPlain = true := by
  cases word? with
  | none => exact hother
  | some word => exact h word (by simp)

theorem laid_getD {word? : Option String} {other : String} (h : Unbroken word?.toList)
    (hother : other.toList.all isPlain = true) : Laid 0 fun _ => word?.getD other :=
  laid_of_plain (plain_getD h hother)

theorem Primitive.plain_name (primitive : Primitive) :
    primitive.name.toList.all isPlain = true := by
  cases primitive <;> decide

theorem plain_renderType (type? : Option Primitive) :
    (renderType type?).toList.all isPlain = true := by
  unfold renderType
  split
  · split
    · rfl
    · exact Primitive.plain_name _
  · rfl

theorem Param.laid_render {param : Param} (h : Unbroken param.lexemes) :
    Laid 0 fun _ => param.render := by
  rw [Param.lexemes, unbroken_append] at h
  exact ((laid_of_plain (plain_renderType _)).append (laid_const (by decide))).append
    (laid_getD h.2 (by decide))

/-! ## Written forms from written parts -/

section

variable {α : Type} {f : Nat → α → String}

theorem laid_renderVariable (type? : Option Primitive) {name? : Option String}
    (hname : Unbroken name?.toList) {value? : Option α}
    (hvalue : ∀ value ∈ value?, Laid 0 fun width => f width value) :
    Laid 0 fun width => renderVariable type? name? (value?.map (f width)) := by
  have hdeclared : Laid 0 fun _ => if (renderType type?).isEmpty then name?.getD ""
      else renderType type? ++ " " ++ name?.getD "" := by
    have hname := @laid_getD name? "" hname (by decide)
    split
    · exact hname
    · exact ((laid_of_plain (plain_renderType type?)).append (laid_const (by decide))).append hname
  cases value? with
  | some value =>
    exact ((hdeclared.append (laid_const (by decide))).append (hvalue value rfl)).append
      (laid_const (by decide))
  | none =>
    simp only [renderVariable, Option.map_none, Option.none_or]
    cases hdefault : type?.bind Primitive.defaultLiteral with
    | none => exact hdeclared.append (laid_const (by decide))
    | some literal =>
      have hliteral : literal.toList.all isPlain = true := by
        obtain ⟨type, -, htype⟩ := Option.bind_eq_some_iff.1 hdefault
        cases type <;> cases htype <;> decide
      exact ((hdeclared.append (laid_const (by decide))).append (laid_of_plain hliteral)).append
        (laid_const (by decide))

theorem laid_renderFunction (type? : Option Primitive) {name? : Option String}
    (hname : Unbroken name?.toList) {params : List Param}
    (hparams : Unbroken (params.flatMap Param.lexemes)) {body : Nat → String}
    (hbody : Laid 0 body) :
    Laid 0 fun width => renderFunction type? name? params (body width) := by
  have htype : Laid 0 fun _ =>
      if type?.all Primitive.isVoid then "" else renderType type? ++ " " := by
    split
    · exact laid_empty
    · exact (laid_of_plain (plain_renderType type?)).append (laid_const (by decide))
  have hparams : Laid 0 fun _ => String.intercalate ", " (params.map Param.render) := by
    refine Laid.intercalate (f := fun _ => Param.render) (fun param hmem => ?_) (by decide)
    exact Param.laid_render fun word hword => hparams word (List.mem_flatMap.2 ⟨param, hmem, hword⟩)
  exact ((((htype.append (laid_getD hname (by decide))).append (laid_const (by decide))).append
    hparams).append (laid_const (by decide))).append hbody

/-- Parts in braces are indented, each from a new line on. -/
theorem Text.Laid.braces {header : String} (hheader : Laid 0 fun _ => header) {parts : List α}
    (hparts : ∀ part ∈ parts, Laid 0 fun width => f width part) :
    Laid 0 fun width => header ++ "\n" ++
      String.intercalate "\n" ((parts.map (f width)).map (Text.indent width)) ++ "\n" ++ "\x7d" := by
  have hindented : ∀ part ∈ parts, Laid 1 fun width => Text.indent width (f width part) :=
    fun part hmem => (hparts part hmem).indent
  simp only [List.map_map, Function.comp_def]
  exact (hheader.newLine (Laid.lines hindented)).newLine
    (@laid_const "\x7d" (by decide))

theorem laid_renderBlock {statements : List α}
    (hstatements : ∀ statement ∈ statements, Laid 0 fun width => f width statement) :
    Laid 0 fun width => renderBlock width (statements.map (f width)) := by
  simp only [renderBlock, List.isEmpty_map]
  split
  · exact laid_const (by decide)
  · refine ((@laid_const "\x7b" (by decide)).braces hstatements).of_eq fun width => ?_
    simp only [String.append_assoc]
    rfl

theorem laid_renderState {name? : Option String} (hname : Unbroken name?.toList)
    {events : List α} (hevents : ∀ event ∈ events, Laid 0 fun width => f width event) :
    Laid 0 fun width => renderState width name? (events.map (f width)) := by
  obtain ⟨header, hheader, hrender⟩ : ∃ header, (Laid 0 fun _ => header) ∧ ∀ width texts,
      renderState width name? texts =
        if texts.isEmpty then header ++ " " ++ emptyBlock
        else header ++ " \x7b\n" ++
          String.intercalate "\n" (texts.map (Text.indent width)) ++ "\n\x7d" := by
    cases name? with
    | none => exact ⟨"default", laid_const (by decide), fun _ _ => rfl⟩
    | some name =>
      exact ⟨"state " ++ name, (laid_const (by decide)).append (laid_of_plain (hname name (by simp))),
        fun _ _ => rfl⟩
  simp only [hrender, List.isEmpty_map]
  split
  · exact (hheader.append (laid_const (by decide))).append (laid_const (by decide))
  · refine ((hheader.append (@laid_const " \x7b" (by decide))).braces hevents).of_eq
      fun width => ?_
    simp only [String.append_assoc]
    rfl

theorem laid_renderOperation {left? right? : Option α} {center : Nat → String}
    (hleft : ∀ left ∈ left?, Laid 0 fun width => f width left) (hcenter : Laid 0 center)
    (hright : ∀ right ∈ right?, Laid 0 fun width => f width right) :
    Laid 0 fun width =>
      renderOperation (left?.map (f width)) (center width) (right?.map (f width)) := by
  cases left? with
  | none =>
    cases right? with
    | none => exact hcenter
    | some right => exact hcenter.append (hright right rfl)
  | some left =>
    have hleft := hleft left rfl
    cases right? with
    | none => exact hleft.append hcenter
    | some right =>
      have hright := hright right rfl
      -- Which of the two forms it is does not depend on the width.
      rcases hcenter.eq_or_ne (show ".".toList.all isPlain = true by decide) with heq | hne
      · refine ((hleft.append (@laid_const "." (by decide))).append hright).of_eq
          fun width => ?_
        simp only [renderOperation, Option.map_some, heq, if_true]
      · refine ((((hleft.append (@laid_const " " (by decide))).append hcenter).append
          (@laid_const " " (by decide))).append hright).of_eq fun width => ?_
        simp only [renderOperation, Option.map_some, hne, if_false]

theorem laid_parenthesized (binary : Bool) (parent? : Option Kind) {text : Nat → String}
    (h : Laid 0 text) : Laid 0 fun width => parenthesized binary parent? (text width) := by
  unfold parenthesized
  split
  · exact ((laid_const (by decide)).append h).append (laid_const (by decide))
  · exact h

theorem laid_renderPreMod {operator : String} (hoperator : operator.toList.all isPlain = true)
    {value : Nat → String} (hvalue : Laid 0 value) :
    Laid 0 fun width => renderPreMod operator (value width) := by
  obtain ⟨head?, hhead⟩ := hvalue.head?_eq
  have hoperator := laid_of_plain hoperator
  have written (width : Nat) : renderPreMod operator (value width) =
      if head?.any (· ∈ ['-', '+', '!', '~']) then operator ++ " " ++ value width
      else operator ++ value width := by
    rw [← hhead width, renderPreMod]
    cases (value width).toList with
    | nil => rfl
    | cons c rest => simp
  simp only [written]
  split
  · exact (hoperator.append (laid_const (by decide))).append hvalue
  · exact hoperator.append hvalue

end

/-! ## Trees -/

mutual

theorem Node.laid : ∀ node : Node, Unbroken node.lexemes → ∀ parent? : Option Kind,
    Laid 0 fun width => node.renderIn width parent?
  | .script script, h, _ => by
    rw [Node.lexemes] at h
    exact script.laid h
  | .function function, h, _ => by
    rw [Node.lexemes] at h
    exact function.laid h
  | .variable type? name? value?, h, _ => by
    rw [Node.lexemes, unbroken_append, unbroken_append] at h
    simp only [Node.renderIn_variable_eq]
    exact laid_renderVariable type? h.1.2 (laid_element? value? h.2 _)
  | .param param, h, _ => by
    rw [Node.lexemes] at h
    exact param.laid_render h
  | .type primitive, _, _ => laid_of_plain (plain_renderType (some primitive))
  | .state state, h, _ => by
    rw [Node.lexemes] at h
    exact state.laid h
  | .stateChange target?, h, _ => by
    rw [Node.lexemes] at h
    exact ((laid_const (by decide)).append (laid_getD h (by decide))).append (laid_const (by decide))
  | .jump target?, h, _ => by
    rw [Node.lexemes] at h
    exact ((laid_const (by decide)).append (laid_getD h (by decide))).append (laid_const (by decide))
  | .label target?, h, _ => by
    rw [Node.lexemes] at h
    exact ((laid_const (by decide)).append (laid_getD h (by decide))).append (laid_const (by decide))
  | .ret none, _, _ => laid_const (by decide)
  | .ret (some value), h, _ => by
    rw [Node.lexemes, elementLexemes?_some] at h
    exact ((laid_const (by decide)).append (value.laid h _)).append (laid_const (by decide))
  | .call name? arguments, h, _ => by
    rw [Node.lexemes, unbroken_append] at h
    simp only [Node.renderIn_call, renderElements_eq_map]
    exact (((laid_getD h.1 (by decide)).append (laid_const (by decide))).append
      (Laid.intercalate (laid_elements arguments h.2 _) (by decide))).append (laid_const (by decide))
  | .cast type? value?, h, _ => by
    rw [Node.lexemes, unbroken_append] at h
    simp only [Node.renderIn_cast_eq]
    exact (((laid_const (by decide)).append (laid_of_plain (plain_renderType type?))).append
      (laid_const (by decide))).append (Laid.getD (laid_element? value? h.2 _) (by decide))
  | .body body, h, _ => by
    rw [Node.lexemes] at h
    exact body.laid h
  | .ifElse condition? body? else?, h, _ => by
    rw [Node.lexemes, unbroken_append, unbroken_append] at h
    simp only [Node.renderIn_ifElse_eq]
    exact (((((laid_const (by decide)).append
      (Laid.getD (laid_node? condition? h.1.1 _) (by decide))).append (laid_const (by decide))).append
      (Laid.getD (laid_body? body? h.1.2) (by decide))).append (laid_const (by decide))).append
      (Laid.getD (laid_node? else? h.2 _) (by decide))
  | .whileLoop condition? body?, h, _ => by
    rw [Node.lexemes, unbroken_append] at h
    simp only [Node.renderIn_whileLoop_eq]
    exact (((laid_const (by decide)).append
      (Laid.getD (laid_node? condition? h.1 _) (by decide))).append (laid_const (by decide))).append
      (Laid.getD (laid_body? body? h.2) (by decide))
  | .doLoop condition? body?, h, _ => by
    rw [Node.lexemes, unbroken_append] at h
    simp only [Node.renderIn_doLoop_eq]
    exact ((((laid_const (by decide)).append (Laid.getD (laid_body? body? h.1) (by decide))).append
      (laid_const (by decide))).append
      (Laid.getD (laid_node? condition? h.2 _) (by decide))).append (laid_const (by decide))
  | .forLoop precommands condition? loopcommands body?, h, _ => by
    rw [Node.lexemes, unbroken_append, unbroken_append, unbroken_append] at h
    simp only [Node.renderIn_forLoop_eq, renderNodes_eq_map]
    exact (((((((laid_const (by decide)).append
      (Laid.intercalate (laid_nodes precommands h.1.1.1 _) (by decide))).append
      (laid_const (by decide))).append
      (Laid.getD (laid_node? condition? h.1.1.2 _) (by decide))).append (laid_const (by decide))).append
      (Laid.intercalate (laid_nodes loopcommands h.1.2 _) (by decide))).append
      (laid_const (by decide))).append (Laid.getD (laid_body? body? h.2) (by decide))
  | .list values, h, _ => by
    rw [Node.lexemes] at h
    simp only [Node.renderIn_list, renderElements_eq_map]
    exact ((laid_const (by decide)).append
      (Laid.intercalate (laid_elements values h _) (by decide))).append (laid_const (by decide))
  | .vector x y z, h, _ => by
    rw [Node.lexemes, unbroken_append, unbroken_append] at h
    exact ((laid_const (by decide)).append (@Laid.intercalate _ _ _ [x, y, z]
      (by simpa using ⟨x.laid h.1.1 _, y.laid h.1.2 _, z.laid h.2 _⟩) (by decide))).append
      (laid_const (by decide))
  | .quaternion x y z s, h, _ => by
    rw [Node.lexemes, unbroken_append, unbroken_append, unbroken_append] at h
    exact ((laid_const (by decide)).append (@Laid.intercalate _ _ _ [x, y, z, s]
      (by simpa using ⟨x.laid h.1.1.1 _, y.laid h.1.1.2 _, z.laid h.1.2 _, s.laid h.2 _⟩)
      (by decide))).append (laid_const (by decide))
  | .value operation, h, parent? => by
    rw [Node.lexemes] at h
    exact operation.laid h .value parent?
  | .expression operation, h, parent? => by
    rw [Node.lexemes] at h
    simp only [Node.renderIn_expression]
    split
    · exact (operation.laid h .expression parent?).append (laid_const (by decide))
    · exact operation.laid h .expression parent?
  | .condition operation, h, parent? => by
    rw [Node.lexemes] at h
    exact operation.laid h .condition parent?
  | .preMod operator? value?, h, _ => by
    rw [Node.lexemes, unbroken_append] at h
    simp only [Node.renderIn_preMod_eq]
    exact laid_renderPreMod (plain_getD h.1 rfl) (Laid.getD (laid_element? value? h.2 _) (by decide))
  | .postMod operator? value?, h, _ => by
    rw [Node.lexemes, unbroken_append] at h
    simp only [Node.renderIn_postMod_eq]
    exact (Laid.getD (laid_element? value? h.1 _) (by decide)).append (laid_getD h.2 (by decide))

theorem Element.laid : ∀ element : Element, Unbroken element.lexemes → ∀ parent : Kind,
    Laid 0 fun width => element.renderIn width parent
  | .text _, h, _ => laid_of_plain (by simpa using h)
  | .node node, h, parent => node.laid (by simpa using h) (some parent)

theorem Body.laid : ∀ body : Body, Unbroken body.lexemes → Laid 0 fun width => body.render width
  | ⟨statements⟩, h => by
    rw [Body.lexemes] at h
    have hstatements := laid_nodes statements h .body
    simp only [Body.render_eq, renderNodes_eq_map]
    split
    · cases statements with
      | nil => exact laid_empty
      | cons statement _ => exact hstatements statement (by simp)
    · exact laid_renderBlock hstatements

theorem FunctionDef.laid : ∀ function : FunctionDef, Unbroken function.lexemes →
    Laid 0 fun width => function.render width
  | ⟨type?, name?, params, body?⟩, h => by
    rw [FunctionDef.lexemes, unbroken_append, unbroken_append, unbroken_append] at h
    simp only [FunctionDef.render_eq]
    exact laid_renderFunction type? h.1.1.2 h.1.2 (Laid.getD (laid_body? body? h.2) (by decide))

theorem State.laid : ∀ state : State, Unbroken state.lexemes →
    Laid 0 fun width => state.render width
  | ⟨name?, events⟩, h => by
    rw [State.lexemes, unbroken_append] at h
    simp only [State.render, renderFunctions_eq_map]
    exact laid_renderState h.1 (laid_functions events h.2)

theorem Script.laid : ∀ script : Script, Unbroken script.lexemes →
    Laid 0 fun width => script.render width
  | ⟨globals, states⟩, h => by
    rw [Script.lexemes, unbroken_append] at h
    have hparts : ∀ part ∈ (globals.map fun node width => node.renderIn width (some .script)) ++
        states.map (fun state width => state.render width), Laid 0 part := by
      rw [List.forall_mem_append, List.forall_mem_map, List.forall_mem_map]
      exact ⟨laid_nodes globals h.1 .script, laid_states states h.2⟩
    refine (Laid.lines (f := fun width (part : Nat → String) => part width) hparts).of_eq fun width => ?_
    rw [Script.render, renderNodes_eq_map, renderStates_eq_map, List.map_append, List.map_map,
      List.map_map]
    rfl

theorem Operation.laid : ∀ operation : Operation, Unbroken operation.lexemes →
    ∀ (kind : Kind) (parent? : Option Kind),
    Laid 0 fun width => operation.renderIn width kind parent?
  | ⟨left?, center?, right?⟩, h, kind, parent? => by
    rw [Operation.lexemes, unbroken_append, unbroken_append] at h
    simp only [Operation.renderIn_eq]
    exact laid_parenthesized _ parent? (laid_renderOperation (laid_node? left? h.1.1 _)
      (Laid.getD (laid_element? center? h.1.2 _) (by decide)) (laid_node? right? h.2 _))

theorem laid_node? : ∀ node? : Option Node, Unbroken (nodeLexemes? node?) →
    ∀ parent? : Option Kind, ∀ node ∈ node?, Laid 0 fun width => node.renderIn width parent?
  | some node, h, parent?, _, hmem => by
    cases hmem
    exact node.laid (by simpa using h) parent?

theorem laid_element? : ∀ element? : Option Element, Unbroken (elementLexemes? element?) →
    ∀ parent : Kind, ∀ element ∈ element?, Laid 0 fun width => element.renderIn width parent
  | some element, h, parent, _, hmem => by
    cases hmem
    exact element.laid (by simpa using h) parent

theorem laid_body? : ∀ body? : Option Body, Unbroken (bodyLexemes? body?) →
    ∀ body ∈ body?, Laid 0 fun width => body.render width
  | some body, h, _, hmem => by
    cases hmem
    exact body.laid (by simpa using h)

theorem laid_nodes : ∀ nodes : List Node, Unbroken (nodeLexemes nodes) → ∀ parent : Kind,
    ∀ node ∈ nodes, Laid 0 fun width => node.renderIn width (some parent)
  | [], _, _ => by simp
  | node :: rest, h, parent => by
    rw [nodeLexemes, unbroken_append] at h
    exact List.forall_mem_cons.2 ⟨node.laid h.1 (some parent), laid_nodes rest h.2 parent⟩

theorem laid_elements : ∀ elements : List Element, Unbroken (elementLexemes elements) →
    ∀ parent : Kind, ∀ element ∈ elements, Laid 0 fun width => element.renderIn width parent
  | [], _, _ => by simp
  | element :: rest, h, parent => by
    rw [elementLexemes, unbroken_append] at h
    exact List.forall_mem_cons.2 ⟨element.laid h.1 parent, laid_elements rest h.2 parent⟩

theorem laid_functions : ∀ functions : List FunctionDef, Unbroken (functionLexemes functions) →
    ∀ function ∈ functions, Laid 0 fun width => function.render width
  | [], _ => by simp
  | function :: rest, h => by
    rw [functionLexemes, unbroken_append] at h
    exact List.forall_mem_cons.2 ⟨function.laid h.1, laid_functions rest h.2⟩

theorem laid_states : ∀ states : List State, Unbroken (stateLexemes states) →
    ∀ state ∈ states, Laid 0 fun width => state.render width
  | [], _ => by simp
  | state :: rest, h => by
    rw [stateLexemes, unbroken_append] at h
    exact List.forall_mem_cons.2 ⟨state.laid h.1, laid_states rest h.2⟩

end

/-! ## Lines of written trees -/

/-- Each line of a written tree has a depth.  For every width there are the same lines, and in front of
each that is not empty stand as many blanks as its depth times the width. -/
theorem Node.lines_render (node : Node) (h : Unbroken node.lexemes) :
    ∃ depths : List Nat, depths.length = ((node.render 0).toList.splitOn '\n').length ∧ ∀ width,
      (node.render width).toList.splitOn '\n' =
        List.zipWith (fun depth => padLine (blanks (depth * width))) depths
          ((node.render 0).toList.splitOn '\n') :=
  (node.laid h none).exists_depths

/-- A state with an event handler whose block holds a block and a statement that is written as
nothing. -/
theorem Node.lines_render_sample :
    let node : Node := .state ⟨none, [⟨none, some "f", [], some ⟨[.type .void,
      .body ⟨[.jump (some "x"), .expression ⟨some (.value (.leaf (.text "a"))), some (.text "."),
        some (.value (.leaf (.text "y")))⟩]⟩]⟩⟩]⟩
    Unbroken node.lexemes ∧
    ∃ depths : List Nat, depths.length = ((node.render 0).toList.splitOn '\n').length ∧ ∀ width,
      (node.render width).toList.splitOn '\n' =
        List.zipWith (fun depth => padLine (blanks (depth * width))) depths
          ((node.render 0).toList.splitOn '\n') := by
  intro node
  have h : Unbroken node.lexemes := by unfold Unbroken; decide
  exact ⟨h, node.lines_render h⟩

end Lsl
