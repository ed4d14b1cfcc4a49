import Lsl.Proofs.Roundtrip.Line
import Lsl.Proofs.Roundtrip.Nesting
import Lsl.Proofs.Roundtrip.Statement
/-!
# Reading blocks

Every statement of a canonical tree is read back, at whatever depth it is written.  The depth shows
in the blanks after the line ends only, so a statement is read with any of them.
-/

namespace Lsl

/-- The written form of a statement. -/
def Node.statementText (width : Nat) (node : Node) : List Char :=
  (node.renderIn width (some .body)).toList

/-- The written form of a block. -/
def Body.text (width : Nat) (body : Body) : List Char :=
  (body.render width).toList

namespace Rule

open Peg Pattern Lexeme Text

variable {width : Nat} {pad text rest : List Char}

/-! ## Blanks after line ends -/

/-- Blanks that indenting can have put after a line end: none if lines are not indented. -/
structure Pads (width : Nat) (pad : List Char) : Prop where
  blank : pad.all isBlank = true
  none : width = 0 → pad = []

theorem pads_nil (width : Nat) : Pads width [] :=
  ⟨rfl, fun _ => rfl⟩

theorem Pads.deeper (h : Pads width pad) : Pads width (pad ++ blanks width) := by
  refine ⟨?_, fun hwidth => ?_⟩
  · rw [List.all_append, h.blank, Bool.true_and, List.all_eq_true]
    intro c hc
    rw [List.eq_of_mem_replicate hc]
    rfl
  · rw [hwidth, h.none hwidth]
    rfl

/-- What stays on its line is the same at every depth. -/
theorem Pads.deepen_inline (h : Pads width pad) (htext : Inline width text) :
    deepen pad text = text := by
  rcases htext.line with hwidth | hmem
  · rw [h.none hwidth, deepen_none]
  · exact deepen_of_not_mem hmem

theorem Pads.deepen_line (h : Pads width pad) (htext : Inline width text) (rest : List Char) :
    deepen pad (text ++ '\n' :: rest) = text ++ '\n' :: (pad ++ deepen pad rest) := by
  rw [deepen_append, h.deepen_inline htext, deepen_lineEnd]

/-! ## Nodes on lines of their own -/

/-- A pattern reads a node back from its text, which does not start with a gap. -/
structure ReadsNode (p : Pattern Rule) (text : List Char) (r : Rule) (node : Node) : Prop where
  starts : ∃ x tail, text = x :: tail ∧ startsGap x = false
  reads (rest : List Char) : Reads p [] (text ++ rest) [] rest [.single r (.node node)]

theorem ReadsNode.solid {p : Pattern Rule} {r : Rule} {node : Node} (h : ReadsNode p text r node) :
    Solid (text ++ rest) := by
  obtain ⟨x, tail, rfl, hx⟩ := h.starts
  exact solid_cons hx

/-- The texts of nodes, each after a line end and blanks. -/
def nodeLines (pad : List Char) (text : Node → List Char) (nodes : List Node) : List Char :=
  nodes.flatMap fun node => '\n' :: (pad ++ text node)

section

variable {p : Pattern Rule} {f : Node → List Char} {nodes : List Node} {tail tail' : List Char}
  (hpad : pad.all isBlank = true) (hnodes : ∀ node ∈ nodes, ∃ r, ReadsNode p (f node) r node)
  (htail : GapTo tail tail') (hfails : Fails p [] tail')

include hpad hnodes htail hfails

omit hnodes htail hfails in
theorem gapTo_nodeLine {r : Rule} {node : Node} (hnode : ReadsNode p (f node) r node) :
    GapTo (nodeLines pad f (node :: nodes) ++ tail) (f node ++ (nodeLines pad f nodes ++ tail)) := by
  have hgap : GapTo ('\n' :: (pad ++ (f node ++ (nodeLines pad f nodes ++ tail))))
      (f node ++ (nodeLines pad f nodes ++ tail)) :=
    @gapTo_blanks ('\n' :: pad) _ hpad hnode.solid
  simpa [nodeLines] using hgap

/-- Nodes after another one are read until something else comes. -/
theorem reads_nodeLines : ∃ items : List (Rule × Node), items.map Prod.snd = nodes ∧
    Reads (.more p) [] (nodeLines pad f nodes ++ tail) [] tail (nodeItems items) := by
  induction nodes with
  | nil => exact ⟨[], rfl, .moreNone htail hfails⟩
  | cons node nodes ih =>
    rw [List.forall_mem_cons] at hnodes
    obtain ⟨⟨r, hnode⟩, hnodes⟩ := hnodes
    obtain ⟨items, rfl, hmore⟩ := ih hnodes
    exact ⟨(r, node) :: items, rfl, .moreSome (gapTo_nodeLine hpad hnode) (hnode.reads _) hmore⟩

/-- Nodes are read as the rounds of a repetition, with gaps at either end of it. -/
theorem reads_star_nodeLines (hsolid : Solid tail') :
    ∃ items : List (Rule × Node), items.map Prod.snd = nodes ∧ ∃ start stop,
      GapTo (nodeLines pad f nodes ++ tail) start ∧ GapTo stop tail' ∧
      Reads (.star p) [] start [] stop (nodeItems items) := by
  cases nodes with
  | nil => exact ⟨[], rfl, tail', tail', htail, hsolid.gapTo, .starNone hfails⟩
  | cons node nodes =>
    rw [List.forall_mem_cons] at hnodes
    obtain ⟨⟨r, hnode⟩, hnodes⟩ := hnodes
    obtain ⟨items, rfl, hmore⟩ := reads_nodeLines hpad hnodes htail hfails
    exact ⟨(r, node) :: items, rfl, _, tail, gapTo_nodeLine hpad hnode, htail,
      .starSome (hnode.reads _) hmore⟩

end

/-! ## Written blocks -/

/-- The lines of a block with the braces around it. -/
theorem toList_renderBlock {texts : List String} (h : ∀ text ∈ texts, Tidy width text.toList) :
    (renderBlock width texts).toList =
      '\x7b' :: ((texts.flatMap fun text =>
        '\n' :: (blanks width ++ deepen (blanks width) text.toList)) ++ ['\n', '\x7d']) := by
  cases texts with
  | nil => simp [renderBlock, emptyBlock]
  | cons text texts =>
    have hlines : (text :: texts).map (String.toList ∘ Text.indent width) =
        (text :: texts).map fun text => blanks width ++ deepen (blanks width) text.toList :=
      List.map_congr_left fun text htext => toList_indent (h text htext)
    rw [renderBlock, List.isEmpty_cons, if_neg Bool.false_ne_true, String.toList_append,
      String.toList_append, String.toList_intercalate, List.map_map, hlines, List.map_cons]
    have hjoin := intercalate_eq_flatMap (blanks width ++ deepen (blanks width) text.toList)
      (texts.map fun text => blanks width ++ deepen (blanks width) text.toList)
    have hend : "\n".toList = ['\n'] := by decide
    rw [hend, hjoin, List.flatMap_map]
    simp

/-- The same at a greater depth. -/
theorem deepen_renderBlock {texts : List String} (h : ∀ text ∈ texts, Tidy width text.toList)
    (pad : List Char) :
    deepen pad (renderBlock width texts).toList =
      '\x7b' :: ((texts.flatMap fun text => '\n' :: (pad ++ blanks width ++
        deepen (pad ++ blanks width) text.toList)) ++ '\n' :: (pad ++ ['\x7d'])) := by
  have hlines : deepen pad (texts.flatMap fun text =>
      '\n' :: (blanks width ++ deepen (blanks width) text.toList)) =
      texts.flatMap fun text => '\n' :: (pad ++ blanks width ++
        deepen (pad ++ blanks width) text.toList) := by
    induction texts with
    | nil => rfl
    | cons text texts ih =>
      rw [List.flatMap_cons, List.flatMap_cons, deepen_append,
        ih fun text htext => h text (List.mem_cons_of_mem _ htext), deepen_lineEnd, deepen_append,
        deepen_of_not_mem (not_mem_blanks width), deepen_deepen (not_mem_blanks width)]
      simp
  rw [toList_renderBlock h, deepen_cons (by decide), deepen_append, hlines]
  rfl

/-- A block of tidy lines is tidy. -/
theorem tidy_renderBlock {texts : List String} (h : ∀ text ∈ texts, Tidy width text.toList) :
    Tidy width (renderBlock width texts).toList := by
  have hlines (before : List Char) (hbefore : Tidy width before) :
      Tidy width (before ++ texts.flatMap fun text =>
        '\n' :: (blanks width ++ deepen (blanks width) text.toList)) := by
    induction texts generalizing before with
    | nil => simpa using hbefore
    | cons text texts ih =>
      rw [List.forall_mem_cons] at h
      rw [List.flatMap_cons, ← List.append_assoc]
      exact ih h.2 _ (hbefore.newLine h.1.indent)
  have hbrace (c : Char) (hc : isPlain c = true) : Tidy width [c] :=
    (inline_of_plain (by rw [List.all_cons, hc]; rfl)).isTidy (List.cons_ne_nil _ _)
  rw [toList_renderBlock h]
  exact (hlines ['\x7b'] (hbrace _ rfl)).newLine (hbrace _ rfl)

/-! ## Expressions in statements -/

/-- An operation that is read back, and stays on its line. -/
structure ReadsLine (width : Nat) (o : Operation) : Prop where
  shaped : o.wellShaped = true
  reads : ReadsOperation width o
  inline : Inline width (o.text width)

section

variable {allows : String → Bool}
  (hallows : ∀ text, allows text = true → isUnmoved width text = true)

include hallows

theorem readsLine_of_operation {o : Operation} (hshaped : o.wellShaped = true)
    (hsettled : o.settled = true) (hprintable : o.printable allows = true) : ReadsLine width o :=
  ⟨hshaped, readsOperation_of_settled o hshaped hsettled hprintable,
    inline_of_operation hallows o hshaped hprintable⟩

theorem readsLine_of_value {element : Element} (hshaped : element.isWellShapedValue = true)
    (hsettled : element.settled = true) (hprintable : element.printable allows = true) :
    ∃ o, element = .node (.value o) ∧ ReadsLine width o := by
  match element with
  | .node (.value o) =>
    rw [Element.isWellShapedValue] at hshaped
    rw [Element.settled, Node.settled] at hsettled
    rw [Element.printable, Node.printable] at hprintable
    exact ⟨o, rfl, readsLine_of_operation hallows hshaped hsettled hprintable⟩

theorem readsLine_of_condition? {condition? : Option Node}
    (h : ((match condition? with
      | some (.condition o) => o.wellShaped
      | some _ => false
      | none => true) = true ∧ (match condition? with
      | some c => c.settled
      | none => true) = true) ∧ (match condition? with
      | some c => c.printable allows
      | none => true) = true) :
    ∃ o? : Option Operation, condition? = o?.map .condition ∧ ∀ o ∈ o?, ReadsLine width o := by
  obtain ⟨⟨hshaped, hsettled⟩, hprintable⟩ := h
  split at hshaped
  · next o =>
    dsimp only at hsettled hprintable
    rw [Node.settled] at hsettled
    rw [Node.printable] at hprintable
    refine ⟨some o, rfl, fun o' ho' => ?_⟩
    cases ho'
    exact readsLine_of_operation hallows hshaped hsettled hprintable
  · cases hshaped
  · exact ⟨none, rfl, by rintro _ ⟨⟩⟩

theorem readsLine_of_condition {condition? : Option Node}
    (h : ((match condition? with
      | some (.condition o) => o.wellShaped
      | _ => false) = true ∧ (match condition? with
      | some c => c.settled
      | none => true) = true) ∧ (match condition? with
      | some c => c.printable allows
      | none => true) = true) :
    ∃ o, condition? = some (.condition o) ∧ ReadsLine width o := by
  obtain ⟨⟨hshaped, hsettled⟩, hprintable⟩ := h
  split at hshaped
  · next o =>
    obtain ⟨o?, heq, ho⟩ := @readsLine_of_condition? width allows hallows (some (.condition o))
      ⟨⟨hshaped, hsettled⟩, hprintable⟩
    obtain _ | o' := o?
    · cases heq
    · cases heq
      exact ⟨o, rfl, ho o rfl⟩
  · cases hshaped

/-- The commands of a loop are expressions. -/
theorem readsLine_of_commands {nodes : List Node}
    (hshaped : areWellShaped (· = .expression) nodes = true) (hsettled : areSettled nodes = true)
    (hprintable : arePrintable allows nodes = true) :
    ∃ os : List Operation, nodes = os.map .expression ∧ ∀ o ∈ os, ReadsLine width o := by
  obtain ⟨os, rfl, hos⟩ := exists_expressions hshaped
  rw [areSettled_expressions, List.all_eq_true] at hsettled
  rw [arePrintable_expressions, List.all_eq_true] at hprintable
  exact ⟨os, rfl, fun o ho =>
    readsLine_of_operation hallows (hos o ho) (hsettled o ho) (hprintable o ho)⟩

end

theorem filterMap_expression (os : List Operation) :
    (os.map Node.expression).filterMap Node.operation? = os := by
  rw [List.filterMap_map]
  exact List.filterMap_some

/-! ## Statements on one line -/

/-- A statement is read back at every depth. -/
structure ReadsStatement (width : Nat) (node : Node) : Prop where
  tidy : Tidy width (node.statementText width)
  reads : ∃ r, ∀ pad, Pads width pad →
    ReadsNode (.rule .statement) (deepen pad (node.statementText width)) r node

/-- A block is read back at every depth. -/
structure ReadsBody (width : Nat) (body : Body) : Prop where
  tidy : Tidy width (body.text width)
  block (pad : List Char) : Pads width pad → ReadsBlock (deepen pad (body.text width)) body

/-- What is read as a statement does not start with a gap. -/
theorem readsNode_statement {r : Rule} {node : Node}
    (h : ∀ rest, Reads (.rule .statement) [] (text ++ rest) [] rest [.single r (.node node)]) :
    ReadsNode (.rule .statement) text r node := by
  refine ⟨?_, h⟩
  have hread := h []
  rw [List.append_nil] at hread
  obtain ⟨x, tail, rfl, hx⟩ := hread.starts rfl
  refine ⟨x, tail, rfl, ?_⟩
  rw [Bool.eq_false_iff]
  intro hgap
  simp only [startsGap, Bool.or_eq_true, beq_iff_eq] at hgap
  rcases hgap with (((rfl | rfl) | rfl) | rfl) | rfl <;> cases hx

theorem readsStatement_of_line (r : Rule) {node : Node}
    (hline : Inline width (node.statementText width))
    (h : ∀ rest, Reads (.rule .statement) [] (node.statementText width ++ rest) [] rest
      [.single r (.node node)]) : ReadsStatement width node := by
  have hread := readsNode_statement h
  obtain ⟨x, tail, hstarts, -⟩ := hread.starts
  refine ⟨hline.isTidy (by rw [hstarts]; exact List.cons_ne_nil _ _), r, fun pad hpad => ?_⟩
  rw [hpad.deepen_inline hline]
  exact hread

section

variable {o : Operation} {name : String}

/-- The written form of a declaration, which is the same everywhere. -/
theorem toList_renderIn_variable {type : Primitive} (htype : type.isVoid = false)
    (ho : o.wellShaped = true) (parent? : Option Kind) :
    (Node.renderIn width parent? (.variable (some type) (some name)
      (some (.node (.value o))))).toList =
      type.text ++ ' ' :: (name.toList ++ ' ' :: '=' :: ' ' :: (o.text width ++ [';'])) := by
  have hne : type.name.isEmpty = false := by
    cases type <;> first | (cases htype; done) | rfl
  have hvalue := @toList_renderIn_value width o ho .variable rfl
  simp only [Node.renderIn_variable, renderVariable, Option.some_or, renderType, htype, Bool.false_eq_true,
    if_false, hne, Option.getD_some, String.toList_append, hvalue]
  simp [Primitive.text]

variable (ho : ReadsLine width o)

include ho

theorem readsStatement_variable {type : Primitive} (htype : type.isVoid = false)
    (hname : isName name.toList = true) :
    ReadsStatement width (.variable (some type) (some name) (some (.node (.value o)))) := by
  have htext := @toList_renderIn_variable width o name type htype ho.shaped (some .body)
  refine readsStatement_of_line .variable ?_ fun rest => ?_
  · rw [Node.statementText, htext]
    exact (inline_of_type type).append (.cons rfl ((inline_of_isName hname).append
      (.cons rfl (.cons rfl (.cons rfl (ho.inline.append (inline_of_plain rfl)))))))
  · have hvariable := @reads_statement_of_variable _ rest _ (reads_variable htype hname ho.reads)
    rw [Node.statementText, htext]
    simpa using hvariable

theorem readsStatement_ret_value : ReadsStatement width (.ret (some (.node (.value o)))) := by
  have htext : (Node.ret (some (.node (.value o)))).statementText width =
      "return".toList ++ ' ' :: (o.text width ++ [';']) := by
    have hvalue := @toList_renderIn_value width o ho.shaped .ret rfl
    simp only [Node.statementText, Node.renderIn_ret_value, String.toList_append, hvalue]
    simp
  refine readsStatement_of_line .ret ?_ fun rest => ?_
  · rw [htext]
    exact (inline_of_plain rfl).append (.cons rfl (ho.inline.append (inline_of_plain rfl)))
  · have hret := reads_statement_of_keyword (by decide) (stops_cons.2 rfl)
      (@reads_ret_value rest width o ho.reads)
    rw [htext]
    simpa using hret

theorem readsStatement_expression : ReadsStatement width (.expression o) := by
  have htext : (Node.expression o).statementText width = o.text width ++ [';'] := by
    have ho' := @Operation.renderIn_eq_text width o ho.shaped .expression rfl (some .body) rfl
    simp only [Node.statementText, Node.renderIn_expression, if_true, String.toList_append, ho']
    rfl
  refine readsStatement_of_line .expression ?_ fun rest => ?_
  · rw [htext]
    exact ho.inline.append (inline_of_plain rfl)
  · have hexpression := @reads_statement_of_expression rest width o ho.reads
    rw [htext]
    simpa using hexpression

end

theorem readsStatement_ret : ReadsStatement width (.ret none) := by
  have htext : (Node.ret none).statementText width = "return".toList ++ [';'] := by
    simp [Node.statementText, Node.renderIn_ret]
  refine readsStatement_of_line .ret ?_ fun rest => ?_
  · rw [htext]
    exact inline_of_plain (by decide)
  · have hret := reads_statement_of_keyword (by decide) (stops_cons.2 rfl) (@reads_ret rest)
    rw [htext]
    simpa using hret

/-- The statements that consist of a word and a name. -/
theorem readsStatement_of_target (r : Rule) {node : Node} (head name : List Char)
    (htext : node.statementText width = head ++ name ++ [';'])
    (hhead : head.all isPlain = true) (hname : name.all isNameChar = true)
    (h : ∀ rest, Reads (.rule .statement) [] (head ++ (name ++ ';' :: rest)) [] rest
      [.single r (.node node)]) : ReadsStatement width node := by
  refine readsStatement_of_line r ?_ fun rest => ?_
  · rw [htext]
    exact ((inline_of_plain hhead).append (inline_of_nameChars hname)).append (inline_of_plain rfl)
  · rw [htext]
    simpa using h rest

section

variable {name : String} (hname : isName name.toList = true)

include hname

theorem all_of_isName : name.toList.all isNameChar = true :=
  all_of_isWord (Bool.and_eq_true_iff.1 hname).1

theorem readsStatement_jump : ReadsStatement width (.jump (some name)) := by
  refine readsStatement_of_target .jump ("jump".toList ++ [' ']) name.toList ?_ (by decide)
    (all_of_isName hname) fun rest => ?_
  · simp [Node.statementText, Node.renderIn_jump]
  · have hjump := @reads_jump rest name hname
    simpa using reads_statement_of_keyword (by decide) (stops_cons.2 rfl) hjump

theorem readsStatement_label : ReadsStatement width (.label (some name)) := by
  refine readsStatement_of_target .label ['@'] name.toList ?_ rfl (all_of_isName hname)
    fun rest => ?_
  · simp [Node.statementText, Node.renderIn_label]
  · exact reads_statement_of_label (reads_label hname)

theorem readsStatement_stateChange : ReadsStatement width (.stateChange (some name)) := by
  refine readsStatement_of_target .stateChange ("state".toList ++ [' ']) name.toList ?_ (by decide)
    (all_of_isName hname) fun rest => ?_
  · simp [Node.statementText, Node.renderIn_stateChange]
  · have hchange := @reads_stateChange rest name hname
    simpa using reads_statement_of_keyword (by decide) (stops_cons.2 rfl) hchange

end

theorem readsStatement_stateChange_default : ReadsStatement width (.stateChange none) := by
  refine readsStatement_of_target .stateChange ("state".toList ++ [' ']) "default".toList ?_
    (by decide) (by decide) fun rest => ?_
  · simp [Node.statementText, Node.renderIn_stateChange]
  · have hchange := @reads_stateChange_default rest
    simpa using reads_statement_of_keyword (by decide) (stops_cons.2 rfl) hchange

/-! ## Statements with blocks -/

section

variable {o : Operation} {body : Body} (ho : ReadsLine width o) (hbody : ReadsBody width body)

include ho

/-- The line of a keyword and a condition in parentheses. -/
theorem inline_conditionLine {head : List Char} (hhead : head.all isPlain = true) :
    Inline width (head ++ ' ' :: '(' :: (o.text width ++ [')'])) :=
  (inline_of_plain hhead).append
    (.cons rfl (.cons rfl (ho.inline.append (inline_of_plain rfl))))

theorem statementText_ifElse (else? : Option Body) :
    (Node.ifElse (some (.condition o)) (some body) (else?.map .body)).statementText width =
      ("if".toList ++ ' ' :: '(' :: (o.text width ++ [')'])) ++ '\n' :: (body.text width ++ '\n' ::
        ("else".toList ++ '\n' :: else?.elim [';'] (Body.text width))) := by
  have ho' := @Operation.renderIn_eq_text width o ho.shaped .condition rfl (some .ifElse) rfl
  cases else? with
  | none =>
    simp only [Node.statementText, Node.renderIn_ifElse, Node.renderIn_condition, Option.map_none,
      Option.elim_none, String.toList_append, ho', Body.text]
    simp
  | some other =>
    simp only [Node.statementText, Node.renderIn_ifElse, Node.renderIn_condition,
      Node.renderIn_body, Option.map_some, Option.elim_some, String.toList_append, ho', Body.text]
    simp

include hbody

theorem readsStatement_whileLoop :
    ReadsStatement width (.whileLoop (some (.condition o)) (some body)) := by
  have hhead := @inline_conditionLine width o ho "while".toList rfl
  have htext : (Node.whileLoop (some (.condition o)) (some body)).statementText width =
      ("while".toList ++ ' ' :: '(' :: (o.text width ++ [')'])) ++ '\n' :: body.text width := by
    have ho' := @Operation.renderIn_eq_text width o ho.shaped .condition rfl (some .whileLoop) rfl
    simp only [Node.statementText, Node.renderIn_whileLoop, Node.renderIn_condition,
      String.toList_append, ho', Body.text]
    simp
  refine ⟨?_, .whileLoop, fun pad hpad => readsNode_statement fun rest => ?_⟩
  · rw [htext]
    exact (hhead.isTidy (by simp)).newLine hbody.tidy
  · have hwhile := @reads_whileLoop rest width o body ('\n' :: pad) _ ho.reads
      (hbody.block pad hpad) hpad.blank
    have hstatement := reads_statement_of_keyword (by decide) (stops_cons.2 rfl) hwhile
    rw [htext, hpad.deepen_line hhead]
    simpa using hstatement

theorem readsStatement_doLoop :
    ReadsStatement width (.doLoop (some (.condition o)) (some body)) := by
  have hend : Inline width (("while".toList ++ ' ' :: '(' :: (o.text width ++ [')'])) ++ [';']) :=
    (inline_conditionLine ho rfl).append (inline_of_plain rfl)
  have hdo : Inline width "do".toList := inline_of_plain (by decide)
  have htext : (Node.doLoop (some (.condition o)) (some body)).statementText width =
      "do".toList ++ '\n' :: (body.text width ++ '\n' ::
        (("while".toList ++ ' ' :: '(' :: (o.text width ++ [')'])) ++ [';'])) := by
    have ho' := @Operation.renderIn_eq_text width o ho.shaped .condition rfl (some .doLoop) rfl
    simp only [Node.statementText, Node.renderIn_doLoop, Node.renderIn_condition,
      String.toList_append, ho', Body.text]
    simp
  refine ⟨?_, .doLoop, fun pad hpad => readsNode_statement fun rest => ?_⟩
  · rw [htext]
    exact (hdo.isTidy (by decide)).newLine (hbody.tidy.newLine (hend.isTidy (by simp)))
  · have hread := @reads_doLoop rest width o body pad ('\n' :: pad) _ ho.reads
      (hbody.block pad hpad) hpad.blank hpad.blank
    have hstatement := reads_statement_of_keyword (by decide) (stops_cons.2 rfl) hread
    rw [htext, hpad.deepen_line hdo, deepen_append, deepen_lineEnd, hpad.deepen_inline hend]
    simpa using hstatement

theorem readsStatement_ifElse {else? : Option Body}
    (helse : ∀ other ∈ else?, ReadsBody width other) :
    ReadsStatement width (.ifElse (some (.condition o)) (some body) (else?.map .body)) := by
  have hhead := @inline_conditionLine width o ho "if".toList rfl
  have hword : Inline width "else".toList := inline_of_plain (by decide)
  have hother : Tidy width (else?.elim [';'] (Body.text width)) := by
    cases else? with
    | none => exact (inline_of_plain rfl).isTidy (List.cons_ne_nil _ _)
    | some other => exact (helse other rfl).tidy
  refine ⟨?_, .ifElse, fun pad hpad => readsNode_statement fun rest => ?_⟩
  · rw [statementText_ifElse ho]
    exact (hhead.isTidy (by simp)).newLine
      (hbody.tidy.newLine ((hword.isTidy (by decide)).newLine hother))
  · have hstatement {text : List Char} {node : Node}
        (h : Reads (.rule .ifElse) [] ("if".toList ++ ' ' :: '(' :: text) [] rest
          [.single .ifElse (.node node)]) :=
      reads_statement_of_keyword (by decide) (stops_cons.2 rfl) h
    rw [statementText_ifElse ho, hpad.deepen_line hhead, deepen_append, deepen_lineEnd,
      hpad.deepen_line hword]
    cases else? with
    | none =>
      have hif := @reads_ifElse rest width o body ('\n' :: pad) ('\n' :: pad) pad _ ho.reads
        (hbody.block pad hpad) hpad.blank hpad.blank hpad.blank
      simpa [deepen_cons] using hstatement hif
    | some other =>
      have hif := @reads_ifElse_else rest width o body ('\n' :: pad) ('\n' :: pad) pad _ _ ho.reads
        (hbody.block pad hpad) hpad.blank hpad.blank other ((helse other rfl).block pad hpad)
        hpad.blank
      simpa using hstatement hif

end

/-- The line of a loop with commands. -/
def forHead (width : Nat) (pre loop : List Operation) (condition? : Option Operation) : List Char :=
  "for".toList ++ ' ' :: '(' :: (commaText (pre.map (Operation.text width)) ++ ';' :: ' ' ::
    (conditionText width condition? ++ ';' :: ' ' ::
      (commaText (loop.map (Operation.text width)) ++ [')'])))

section

variable {pre loop : List Operation} {condition? : Option Operation} {body : Body}
  (hpre : ∀ o ∈ pre, ReadsLine width o) (hloop : ∀ o ∈ loop, ReadsLine width o)
  (hcondition : ∀ o ∈ condition?, ReadsLine width o)

include hpre hloop hcondition

theorem inline_forHead : Inline width (forHead width pre loop condition?) := by
  have hcommands {os : List Operation} (hos : ∀ o ∈ os, ReadsLine width o) :
      Inline width (commaText (os.map (Operation.text width))) :=
    inline_of_commaText (List.forall_mem_map.2 fun o ho => (hos o ho).inline)
  have hmiddle : Inline width (conditionText width condition?) := by
    cases condition? with
    | none => exact inline_of_plain rfl
    | some o => exact (hcondition o rfl).inline
  exact (inline_of_plain (by decide)).append (.cons rfl (.cons rfl ((hcommands hpre).append
    (.cons rfl (.cons rfl (hmiddle.append (.cons rfl (.cons rfl ((hcommands hloop).append
      (inline_of_plain rfl))))))))))

theorem statementText_forLoop :
    (Node.forLoop (pre.map .expression) (condition?.map .condition)
      (loop.map .expression) (some body)).statementText width =
      forHead width pre loop condition? ++ '\n' :: body.text width := by
  have hpre' := @toList_renderNodes width pre (fun o ho => (hpre o ho).shaped) .forLoop rfl
    (by decide)
  have hloop' := @toList_renderNodes width loop (fun o ho => (hloop o ho).shaped) .forLoop rfl
    (by decide)
  cases condition? with
  | none =>
    simp only [Node.statementText, Node.renderIn_forLoop, Option.map_none, Option.elim_none,
      String.toList_append, String.toList_intercalate, hpre', hloop', Body.text]
    simp [forHead, commaText, conditionText]
  | some o =>
    have ho := @Operation.renderIn_eq_text width o (hcondition o rfl).shaped .condition rfl
      (some .forLoop) rfl
    simp only [Node.statementText, Node.renderIn_forLoop, Node.renderIn_condition, Option.map_some,
      Option.elim_some, String.toList_append, String.toList_intercalate, hpre', hloop', ho,
      Body.text]
    simp [forHead, commaText, conditionText]

theorem readsStatement_forLoop (hseparable : separable pre = true)
    (hseparable' : separable loop = true) (hbody : ReadsBody width body) :
    ReadsStatement width (.forLoop (pre.map .expression) (condition?.map .condition)
      (loop.map .expression) (some body)) := by
  have hhead := inline_forHead hpre hloop hcondition
  have htext := @statementText_forLoop width pre loop condition? body hpre hloop hcondition
  refine ⟨?_, .forLoop, fun pad hpad => readsNode_statement fun rest => ?_⟩
  · rw [htext]
    exact (hhead.isTidy (by simp [forHead])).newLine hbody.tidy
  · have hfor := @reads_forLoop rest width pre loop condition? body ('\n' :: pad) _
      (fun o ho => (hpre o ho).reads) hseparable (fun o ho => (hcondition o ho).reads)
      (fun o ho => (hloop o ho).reads) hseparable' (hbody.block pad hpad) hpad.blank
    have hstatement := reads_statement_of_keyword (by decide) (stops_cons.2 rfl) hfor
    rw [htext, hpad.deepen_line hhead]
    simpa [forHead] using hstatement

end

/-! ## Blocks -/

theorem readsStatement_body {body : Body} (hbody : ReadsBody width body) :
    ReadsStatement width (.body body) :=
  ⟨hbody.tidy, .body, fun pad hpad => readsNode_statement fun _ =>
    reads_statement_of_block (hbody.block pad hpad)⟩

theorem readsBody_of_statements {statements : List Node}
    (hwrap : ∀ inner, statements ≠ [.body inner])
    (h : ∀ node ∈ statements, ReadsStatement width node) : ReadsBody width ⟨statements⟩ := by
  have htext : Body.text width ⟨statements⟩ =
      (renderBlock width (statements.map (Node.renderIn width (some .body)))).toList := by
    rw [Body.text, Body.render, renderNodes_eq_map]
    exact hwrap
  have htidy : ∀ text ∈ statements.map (Node.renderIn width (some .body)),
      Tidy width text.toList := List.forall_mem_map.2 fun node hnode => (h node hnode).tidy
  refine ⟨?_, fun pad hpad => ?_⟩
  · rw [htext]
    exact tidy_renderBlock htidy
  · rw [htext, deepen_renderBlock htidy, List.flatMap_map]
    refine ⟨⟨_, rfl⟩, fun rest => ?_⟩
    have hnodes : ∀ node ∈ statements, ∃ r, ReadsNode (.rule .statement)
        (deepen (pad ++ blanks width) (node.statementText width)) r node := by
      intro node hnode
      obtain ⟨r, hread⟩ := (h node hnode).reads
      exact ⟨r, hread _ hpad.deeper⟩
    have hclose : GapTo ('\n' :: (pad ++ '\x7d' :: rest)) ('\x7d' :: rest) :=
      @gapTo_blanks ('\n' :: pad) _ hpad.blank (solid_cons rfl)
    obtain ⟨items, rfl, start, stop, hstart, hstop, hreads⟩ := reads_star_nodeLines
      hpad.deeper.blank hnodes hclose (fails_of_head rfl rfl) (solid_cons rfl)
    have hblock : Reads (cat [word "\x7b", star (.rule .statement), word "\x7d"]) [] _ [] rest
        (nodeItems items ++ []) := (Reads.word "\x7b").seq hstart (hreads.seq hstop (.word "\x7d"))
    rw [List.append_nil] at hblock
    have hnode : Reads (.rule .body) [] _ [] rest _ :=
      .node rfl (build_body items) rfl rfl (.altFirst hblock)
    simpa [nodeLines, Node.statementText, Element.ofBody] using hnode

mutual

theorem readsStatement_of_canonical {allows : String → Bool}
    (hallows : ∀ text, allows text = true → isUnmoved width text = true) (node : Node)
    (hkind : node.kind.isStatement = true) (hshaped : node.wellShaped = true)
    (hsettled : node.settled = true) (hprintable : node.printable allows = true) :
    ReadsStatement width node := by
  match node with
  | .variable type? name? value? =>
    rw [Node.wellShaped.eq_def] at hshaped
    dsimp only at hshaped
    rw [Bool.and_eq_true, Bool.and_eq_true] at hshaped
    obtain _ | value := value?
    · simp [Node.settled] at hsettled
    · rw [Node.settled] at hsettled
      rw [Node.printable] at hprintable
      obtain ⟨type, rfl, htype⟩ := (Option.any_eq_true _ _).1 hshaped.1.1
      obtain ⟨name, rfl, hname⟩ := (Option.any_eq_true _ _).1 hshaped.1.2
      obtain ⟨o, rfl, ho⟩ := readsLine_of_value hallows hshaped.2 hsettled hprintable
      exact readsStatement_variable ho (by simpa using htype) hname
  | .ret value? =>
    obtain _ | value := value?
    · exact readsStatement_ret
    · rw [Node.wellShaped] at hshaped
      rw [Node.settled] at hsettled
      rw [Node.printable] at hprintable
      obtain ⟨o, rfl, ho⟩ := readsLine_of_value hallows hshaped hsettled hprintable
      exact readsStatement_ret_value ho
  | .jump target? =>
    rw [Node.wellShaped] at hshaped
    obtain ⟨name, rfl, hname⟩ := (Option.any_eq_true _ _).1 hshaped
    exact readsStatement_jump hname
  | .label target? =>
    rw [Node.wellShaped] at hshaped
    obtain ⟨name, rfl, hname⟩ := (Option.any_eq_true _ _).1 hshaped
    exact readsStatement_label hname
  | .stateChange target? =>
    obtain _ | target := target?
    · exact readsStatement_stateChange_default
    · rw [Node.wellShaped] at hshaped
      exact readsStatement_stateChange hshaped
  | .expression o =>
    rw [Node.wellShaped] at hshaped
    rw [Node.settled] at hsettled
    rw [Node.printable] at hprintable
    exact readsStatement_expression (readsLine_of_operation hallows hshaped hsettled hprintable)
  | .body block =>
    rw [Node.wellShaped] at hshaped
    rw [Node.settled] at hsettled
    rw [Node.printable] at hprintable
    exact readsStatement_body (readsBody_of_canonical hallows block hshaped hsettled hprintable)
  | .ifElse condition? body? else? =>
    rw [Node.wellShaped.eq_def] at hshaped
    rw [Node.settled.eq_def] at hsettled
    rw [Node.printable.eq_def] at hprintable
    dsimp only at hshaped hsettled hprintable
    rw [Bool.and_eq_true, Bool.and_eq_true] at hshaped hsettled hprintable
    obtain ⟨o, rfl, ho⟩ := readsLine_of_condition hallows ⟨⟨hshaped.1.1, hsettled.1.1⟩, hprintable.1.1⟩
    obtain _ | body := body?
    · cases hshaped.1.2
    · have hbody := readsBody_of_canonical hallows body hshaped.1.2 hsettled.1.2 hprintable.1.2
      obtain _ | other := else?
      · exact @readsStatement_ifElse width o body ho hbody none nofun
      · obtain ⟨-, hshaped⟩ := hshaped
        obtain ⟨-, hsettled⟩ := hsettled
        obtain ⟨-, hprintable⟩ := hprintable
        cases other <;> first | cases hshaped | skip
        next other =>
          dsimp only at hshaped hsettled hprintable
          rw [Node.settled] at hsettled
          rw [Node.printable] at hprintable
          have hother := readsBody_of_canonical hallows other hshaped hsettled hprintable
          exact @readsStatement_ifElse width o body ho hbody (some other) (by simpa using hother)
  | .whileLoop condition? body? =>
    rw [Node.wellShaped.eq_def] at hshaped
    rw [Node.settled.eq_def] at hsettled
    rw [Node.printable.eq_def] at hprintable
    dsimp only at hshaped hsettled hprintable
    rw [Bool.and_eq_true] at hshaped hsettled hprintable
    obtain ⟨o, rfl, ho⟩ := readsLine_of_condition hallows ⟨⟨hshaped.1, hsettled.1⟩, hprintable.1⟩
    obtain _ | body := body?
    · cases hshaped.2
    · exact readsStatement_whileLoop ho
        (readsBody_of_canonical hallows body hshaped.2 hsettled.2 hprintable.2)
  | .doLoop condition? body? =>
    rw [Node.wellShaped.eq_def] at hshaped
    rw [Node.settled.eq_def] at hsettled
    rw [Node.printable.eq_def] at hprintable
    dsimp only at hshaped hsettled hprintable
    rw [Bool.and_eq_true] at hshaped hsettled hprintable
    obtain ⟨o, rfl, ho⟩ := readsLine_of_condition hallows ⟨⟨hshaped.1, hsettled.1⟩, hprintable.1⟩
    obtain _ | body := body?
    · cases hshaped.2
    · exact readsStatement_doLoop ho
        (readsBody_of_canonical hallows body hshaped.2 hsettled.2 hprintable.2)
  | .forLoop pre? condition? loop? body? =>
    rw [Node.wellShaped.eq_def] at hshaped
    rw [Node.settled.eq_def] at hsettled
    rw [Node.printable.eq_def] at hprintable
    dsimp only at hshaped hsettled hprintable
    simp only [Bool.and_eq_true] at hshaped hsettled hprintable
    obtain ⟨⟨⟨hpre, hcondition⟩, hloop⟩, hbody⟩ := hshaped
    obtain ⟨⟨⟨hpre', hcondition'⟩, hloop'⟩, hbody'⟩ := hsettled
    obtain ⟨⟨⟨⟨⟨hprep, hprecommas⟩, hconditionp⟩, hloopp⟩, hloopcommas⟩, hbodyp⟩ := hprintable
    obtain ⟨pre, rfl, hpres⟩ := readsLine_of_commands hallows hpre hpre' hprep
    obtain ⟨loop, rfl, hloops⟩ := readsLine_of_commands hallows hloop hloop' hloopp
    rw [filterMap_expression] at hprecommas hloopcommas
    obtain _ | body := body?
    · cases hbody
    · have hbodies := readsBody_of_canonical hallows body hbody hbody' hbodyp
      obtain ⟨o?, rfl, ho⟩ := readsLine_of_condition? hallows ⟨⟨hcondition, hcondition'⟩, hconditionp⟩
      exact readsStatement_forLoop hpres hloops ho hprecommas hloopcommas hbodies
  | .script _ | .function _ | .param _ | .type _ | .state _ | .call _ _ | .cast _ _ | .list _
  | .vector _ _ _ | .quaternion _ _ _ _ | .value _ | .condition _ | .preMod _ _ | .postMod _ _ =>
    cases hkind

theorem readsBody_of_canonical {allows : String → Bool}
    (hallows : ∀ text, allows text = true → isUnmoved width text = true) (body : Body)
    (hshaped : body.wellShaped = true)
    (hsettled : body.settled = true) (hprintable : body.printable allows = true) :
    ReadsBody width body := by
  obtain ⟨statements⟩ := body
  have hwrap : ∀ inner, statements ≠ [.body inner] := by
    rintro inner rfl
    simp [Body.settled] at hsettled
  rw [Body.wellShaped] at hshaped
  rw [Body.settled] at hsettled
  rw [Body.printable] at hprintable
  exact readsBody_of_statements hwrap
    (readsStatements_of_canonical hallows statements hshaped hsettled hprintable)
  exact hwrap

theorem readsStatements_of_canonical {allows : String → Bool}
    (hallows : ∀ text, allows text = true → isUnmoved width text = true) (nodes : List Node)
    (hshaped : areWellShaped Kind.isStatement nodes = true) (hsettled : areSettled nodes = true)
    (hprintable : arePrintable allows nodes = true) : ∀ node ∈ nodes, ReadsStatement width node := by
  cases nodes with
  | nil => exact nofun
  | cons node nodes =>
    rw [areWellShaped, Bool.and_eq_true, Bool.and_eq_true] at hshaped
    rw [areSettled, Bool.and_eq_true] at hsettled
    rw [arePrintable, Bool.and_eq_true] at hprintable
    rw [List.forall_mem_cons]
    exact ⟨readsStatement_of_canonical hallows node hshaped.1.1 hshaped.1.2 hsettled.1 hprintable.1,
      readsStatements_of_canonical hallows nodes hshaped.2 hsettled.2 hprintable.2⟩

end

end Rule

end Lsl
