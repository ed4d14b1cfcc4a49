import Lsl.Proofs.Grammar.Comment
import Lsl.Proofs.Program
import Lsl.Proofs.Roundtrip.Block
/-!
# Parsing undoes printing

Functions, states and whole scripts are read back from their written form.  The main result is that
a canonical script is the very tree that its written form is read as, whatever the width of an
indentation.
-/

namespace Lsl

namespace Rule

open Peg Pattern Lexeme Text

variable {width : Nat} {text rest : List Char}

/-! ## Parameters -/

/-- The written form of a parameter. -/
def paramText (param : Param) : List Char :=
  param.render.toList

theorem param_of_wellShaped {param : Param} (h : param.wellShaped = true) :
    ∃ type name, type.isVoid = false ∧ isName name.toList = true ∧
      param = ⟨some type, some name⟩ ∧ paramText param = type.text ++ ' ' :: name.toList := by
  obtain ⟨type?, name?⟩ := param
  rw [Param.wellShaped, Bool.and_eq_true] at h
  obtain ⟨type, rfl, htype⟩ := (Option.any_eq_true _ _).1 h.1
  obtain ⟨name, rfl, hname⟩ := (Option.any_eq_true _ _).1 h.2
  have htype' : type.isVoid = false := by simpa using htype
  refine ⟨type, name, htype', hname, rfl, ?_⟩
  rw [paramText, Param.render, String.toList_append, String.toList_append, toList_renderType htype']
  simp

theorem solid_paramText {param : Param} (h : param.wellShaped = true) :
    Solid (paramText param ++ rest) := by
  obtain ⟨type, name, htype, -, -, htext⟩ := param_of_wellShaped h
  rw [htext, List.append_assoc]
  exact solid_of_type htype

theorem reads_param {param : Param} (h : param.wellShaped = true) (hrest : Stops isNameChar rest) :
    Reads (.rule .param) [] (paramText param ++ rest) [] rest
      [.single .param (.node (.param param))] := by
  obtain ⟨type, name, htype, hname, rfl, htext⟩ := param_of_wellShaped h
  have hread : Reads (.rule .param) [] (type.text ++ ' ' :: (name.toList ++ rest)) [] rest _ :=
    .node rfl (build_param type name) rfl rfl
      (.seq (reads_type htype (stops_cons.2 rfl)) (solid_of_isName hname).blank
        (reads_name hname hrest))
  rw [htext]
  simpa using hread

theorem inline_paramText {param : Param} (h : param.wellShaped = true) :
    Inline width (paramText param) := by
  obtain ⟨type, name, -, hname, -, htext⟩ := param_of_wellShaped h
  rw [htext]
  exact (inline_of_type type).append (.cons rfl (inline_of_isName hname))

/-- What is written after a parameter: the further ones, and what ends the list. -/
def paramsText : List Param → List Char → List Char
  | [], rest => rest
  | first :: further, rest => ',' :: ' ' :: (paramText first ++ paramsText further rest)

theorem commaText_params (param : Param) (params : List Param) (rest : List Char) :
    commaText ((param :: params).map paramText) ++ rest =
      paramText param ++ paramsText params rest := by
  induction params generalizing param with
  | nil => simp [paramsText]
  | cons param' params ih =>
    rw [paramsText, ← ih param']
    simp

theorem stops_paramsText (params : List Param) :
    Stops isNameChar (paramsText params (')' :: rest)) := by
  cases params with
  | nil => exact stops_cons.2 rfl
  | cons param params => exact stops_cons.2 rfl

theorem solid_paramsText (params : List Param) : Solid (paramsText params (')' :: rest)) := by
  cases params with
  | nil => exact solid_cons rfl
  | cons param params => exact solid_cons rfl

theorem reads_paramsText {params : List Param} (h : ∀ param ∈ params, param.wellShaped = true) :
    Reads (.more (seq (word ",") (.rule .param))) [] (paramsText params (')' :: rest)) []
      (')' :: rest) (params.map fun param => .single .param (.node (.param param))) := by
  induction params with
  | nil => exact .moreNone (solid_cons rfl).gapTo (.seqFirst (.word rfl))
  | cons param params ih =>
    rw [List.forall_mem_cons] at h
    have hgap : GapTo (' ' :: (paramText param ++ paramsText params (')' :: rest)))
        (paramText param ++ paramsText params (')' :: rest)) := (solid_paramText h.1).blank
    exact .moreSome (solid_cons rfl).gapTo
      (.seq (.word ",") hgap (reads_param h.1 (stops_paramsText params))) (ih h.2)

theorem reads_params {params : List Param} (h : ∀ param ∈ params, param.wellShaped = true) :
    Solid (commaText (params.map paramText) ++ ')' :: rest) ∧
    Reads (.rule .params) [] (commaText (params.map paramText) ++ ')' :: rest) [] (')' :: rest)
      [.group .params (params.map fun param => .node (.param param))] := by
  have hgroup := @Reads.group [] [] (commaText (params.map paramText) ++ ')' :: rest) (')' :: rest)
    .params (params.map fun param => (.param, .node (.param param))) rfl rfl
  rw [List.map_map, List.map_map] at hgroup
  cases params with
  | nil => exact ⟨solid_cons rfl, hgroup (.optNone (.seqFirst (fails_of_head rfl rfl)))⟩
  | cons param params =>
    rw [List.forall_mem_cons] at h
    rw [commaText_params] at hgroup ⊢
    refine ⟨solid_paramText h.1, hgroup (.altFirst ?_)⟩
    exact (reads_param h.1 (stops_paramsText params)).next (solid_paramsText params)
      (.star (solid_paramsText params) (reads_paramsText h.2))

/-! ## Functions -/

/-- The written form of a function. -/
def functionText (width : Nat) (function : FunctionDef) : List Char :=
  (function.render width).toList

/-- The first line of a function. -/
def functionHead (type? : Option Primitive) (name : String) (params : List Param) : List Char :=
  (type?.elim [] fun type => type.text ++ [' ']) ++
    (name.toList ++ '(' :: (commaText (params.map paramText) ++ [')']))

/-- A function is read back at every depth. -/
structure ReadsFunction (width : Nat) (function : FunctionDef) : Prop where
  tidy : Tidy width (functionText width function)
  reads (pad : List Char) : Pads width pad →
    ReadsNode (.rule .function) (deepen pad (functionText width function)) .function
      (.function function)

section

variable {type? : Option Primitive} {name : String} {params : List Param} {body : Body}
  (htype : ∀ type ∈ type?, type.isVoid = false) (hname : isName name.toList = true)
  (hparams : ∀ param ∈ params, param.wellShaped = true)

include htype in
theorem functionText_eq :
    functionText width ⟨type?, some name, params, some body⟩ =
      functionHead type? name params ++ '\n' :: body.text width := by
  have hcomma : (params.map Param.render).map String.toList = params.map paramText := by
    rw [List.map_map]
    rfl
  cases type? with
  | none =>
    simp [functionText, FunctionDef.render, renderFunction, functionHead, String.toList_intercalate,
      commaText, hcomma, Body.text]
  | some type =>
    have htype' := htype type rfl
    simp [functionText, FunctionDef.render, renderFunction, functionHead, String.toList_intercalate,
      commaText, htype', toList_renderType htype', hcomma, Body.text]

include hname

theorem functionHead_starts :
    ∃ x tail, functionHead type? name params = x :: tail ∧ startsGap x = false := by
  have hstart {x : Char} (hx : isNameStart x = true) : startsGap x = false := by
    rw [Bool.eq_false_iff]
    intro hgap
    simp only [startsGap, Bool.or_eq_true, beq_iff_eq] at hgap
    rcases hgap with (((rfl | rfl) | rfl) | rfl) | rfl <;> cases hx
  cases type? with
  | none =>
    obtain ⟨x, tail, hx, hhead⟩ := head_of_isName hname
    rw [functionHead, hx]
    exact ⟨x, _, rfl, hstart hhead⟩
  | some type => cases type <;> exact ⟨_, _, rfl, rfl⟩

include hparams

theorem inline_functionHead : Inline width (functionHead type? name params) := by
  have hlist : Inline width (commaText (params.map paramText)) :=
    inline_of_commaText (List.forall_mem_map.2 fun param hparam =>
      inline_paramText (hparams param hparam))
  have hrest : Inline width (name.toList ++ '(' :: (commaText (params.map paramText) ++ [')'])) :=
    (inline_of_isName hname).append (.cons rfl (hlist.append (inline_of_plain rfl)))
  cases type? with
  | none => exact hrest
  | some type => exact ((inline_of_type type).append (inline_of_plain rfl)).append hrest

/-- A function from the name on. -/
theorem reads_fromName {blanks block : List Char} (hblanks : blanks.all isBlank = true)
    (hblock : ReadsBlock block body) :
    Reads (cat [.rule .name, word "(", .rule .params, word ")", ahead (word "\x7b"), .rule .body]) []
      (name.toList ++ '(' :: (commaText (params.map paramText) ++
        ')' :: (blanks ++ (block ++ rest)))) [] rest
      [.single .name (.text name), .group .params (params.map fun param => .node (.param param)),
        .single .body (.ofBody body)] := by
  have hend : Reads (cat [ahead (word "\x7b"), .rule .body]) [] (block ++ rest) [] rest
      [.single .body (.ofBody body)] := by
    have hread := hblock.2 rest
    obtain ⟨tail, rfl⟩ := hblock.1
    have hbrace : Reads (word "\x7b") [] ('\x7b' :: (tail ++ rest)) [] (tail ++ rest) [] :=
      .word "\x7b"
    exact hbrace.ahead.next (solid_cons rfl) hread
  obtain ⟨hsolid, hlist⟩ := @reads_params (blanks ++ (block ++ rest)) params hparams
  exact (reads_name hname (stops_cons.2 rfl)).next (solid_cons rfl)
    (.next (.word "(") hsolid (hlist.next (solid_cons rfl)
      (.seq (.word ")") (gapTo_blanks hblanks hblock.solid) hend)))

include htype

theorem reads_function {blanks block : List Char} (hblanks : blanks.all isBlank = true)
    (hblock : ReadsBlock block body) :
    Reads (.rule .function) [] (functionHead type? name params ++ (blanks ++ (block ++ rest))) []
      rest [.single .function (.node (.function ⟨type?, some name, params, some body⟩))] := by
  have hfrom := @reads_fromName rest name params body hname hparams blanks block hblanks
    hblock
  have hbuild := build_function type? name params body
  cases type? with
  | none =>
    have hread : Reads (.rule .function) [] _ [] rest _ := .node rfl hbuild rfl rfl
      (.next (.optNone (fails_type (unkeyed_append hname (stops_cons.2 rfl))))
        (solid_of_isName hname) hfrom)
    simpa [functionHead] using hread
  | some type =>
    have hread : Reads (.rule .function) [] _ [] rest _ := .node rfl hbuild rfl rfl
      (.seq (.altFirst (reads_type (htype type rfl) (stops_cons.2 rfl)))
        (solid_of_isName hname).blank hfrom)
    simpa [functionHead] using hread

theorem readsFunction_of_body (hbody : ReadsBody width body) :
    ReadsFunction width ⟨type?, some name, params, some body⟩ := by
  have hhead := @inline_functionHead width type? name params hname hparams
  obtain ⟨x, tail, hstarts, hx⟩ := @functionHead_starts type? name params hname
  have htext := @functionText_eq width type? name params body htype
  refine ⟨?_, fun pad hpad => ⟨?_, fun rest => ?_⟩⟩
  · rw [htext]
    exact (hhead.isTidy (by rw [hstarts]; exact List.cons_ne_nil _ _)).newLine hbody.tidy
  · rw [htext, hpad.deepen_line hhead, hstarts]
    exact ⟨x, _, rfl, hx⟩
  · have hread := @reads_function rest type? name params body htype hname hparams ('\n' :: pad) _
      hpad.blank (hbody.block pad hpad)
    rw [htext, hpad.deepen_line hhead]
    simpa using hread

end

theorem readsFunction_of_canonical {allows : String → Bool}
    (hallows : ∀ text, allows text = true → isUnmoved width text = true) {function : FunctionDef}
    (hshaped : function.wellShaped = true) (hsettled : function.settled = true)
    (hprintable : function.printable allows = true) : ReadsFunction width function := by
  obtain ⟨type?, name?, params, body?⟩ := function
  rw [FunctionDef.wellShaped.eq_def] at hshaped
  rw [FunctionDef.settled.eq_def] at hsettled
  rw [FunctionDef.printable.eq_def] at hprintable
  dsimp only at hshaped hsettled hprintable
  simp only [Bool.and_eq_true, List.all_eq_true] at hshaped
  obtain ⟨⟨⟨htype, hname⟩, hparams⟩, hbody⟩ := hshaped
  obtain ⟨name, rfl, hname⟩ := (Option.any_eq_true _ _).1 hname
  have htype' : ∀ type ∈ type?, type.isVoid = false := by
    rintro type rfl
    simpa [typed] using htype
  obtain _ | body := body?
  · cases hbody
  · exact readsFunction_of_body htype' hname hparams
      (readsBody_of_canonical hallows body hbody hsettled hprintable)

/-! ## States -/

/-- The written form of a state. -/
def stateText (width : Nat) (state : State) : List Char :=
  (state.render width).toList

/-- What stands before the braces of a state. -/
def stateHead (name? : Option String) : List Char :=
  name?.elim "default".toList fun name => "state".toList ++ ' ' :: name.toList

theorem stateText_eq (name? : Option String) (events : List FunctionDef) :
    stateText width ⟨name?, events⟩ = stateHead name? ++
      ' ' :: (renderBlock width (events.map (FunctionDef.render width))).toList := by
  rw [stateText, State.render, renderFunctions_eq_map, renderState.eq_def, renderBlock]
  cases name? <;> cases events <;> simp [stateHead]

/-- A state starts with a keyword that names no type. -/
theorem stateText_keyword (width : Nat) (state : State) :
    ∃ word tail, isKeyword (String.toList word) = true ∧ typeNames.contains word = false ∧
      stateText width state = word.toList ++ ' ' :: tail := by
  obtain ⟨_ | name, events⟩ := state
  · exact ⟨"default", _, by decide, by decide, stateText_eq none events⟩
  · have htext := @stateText_eq width (some name) events
    rw [stateHead, Option.elim_some, List.append_assoc, List.cons_append] at htext
    exact ⟨"state", _, by decide, by decide, htext⟩

/-- The braces of a state with its event handlers inside. -/
theorem reads_events {events : List FunctionDef}
    (hevents : ∀ event ∈ events, ReadsFunction width event) :
    Reads (cat [word "\x7b", .rule .events, word "\x7d"]) []
      ((renderBlock width (events.map (FunctionDef.render width))).toList ++ rest) [] rest
      [.group .events (events.map fun event => .node (.function event))] := by
  have htidy : ∀ text ∈ events.map (FunctionDef.render width), Tidy width text.toList :=
    List.forall_mem_map.2 fun event hevent => (hevents event hevent).tidy
  have hpad : Pads width (blanks width) := (pads_nil width).deeper
  have hnodes : ∀ node ∈ events.map Node.function, ∃ r, ReadsNode (.rule .function)
      (deepen (blanks width) (node.statementText width)) r node :=
    List.forall_mem_map.2 fun event hevent => ⟨_, (hevents event hevent).reads _ hpad⟩
  have hclose : GapTo ('\n' :: '\x7d' :: rest) ('\x7d' :: rest) :=
    @gapTo_blanks ['\n'] _ rfl (solid_cons rfl)
  obtain ⟨items, hitems, start, stop, hstart, hstop, hreads⟩ := reads_star_nodeLines
    hpad.blank hnodes hclose (fails_of_head rfl rfl) (solid_cons rfl)
  have hgroup : Reads (.rule .events) [] start [] stop _ := .groupNodes rfl rfl hreads
  rw [hitems, List.map_map] at hgroup
  have hread : Reads (cat [word "\x7b", .rule .events, word "\x7d"]) [] _ [] rest _ :=
    (Reads.word "\x7b").seq hstart (hgroup.seq hstop (.word "\x7d"))
  rw [toList_renderBlock htidy]
  simpa [nodeLines, List.flatMap_map, Function.comp_def, Node.statementText, Node.renderIn_function] using
    hread

theorem readsNode_state {name? : Option String} {events : List FunctionDef}
    (hname : ∀ name ∈ name?, isName name.toList = true)
    (hevents : ∀ event ∈ events, ReadsFunction width event) :
    ReadsNode (.rule .state) (stateText width ⟨name?, events⟩) .state
      (.state ⟨name?, events⟩) := by
  have hblock (rest : List Char) := @reads_events width rest events hevents
  have hbrace (rest : List Char) :
      Solid ((renderBlock width (events.map (FunctionDef.render width))).toList ++ rest) := by
    rw [toList_renderBlock (List.forall_mem_map.2 fun event hevent => (hevents event hevent).tidy)]
    exact solid_cons rfl
  refine ⟨?_, fun rest => ?_⟩
  · rw [stateText_eq]
    cases name? <;> exact ⟨_, _, rfl, rfl⟩
  · rw [stateText_eq]
    cases name? with
    | none =>
      have hread : Reads (.rule .state) [] ("default".toList ++ ' ' :: (_ ++ rest)) [] rest _ :=
        .node rfl (build_state none events) rfl rfl
          (.next (reads_keyword (by decide) (stops_cons.2 rfl)).ahead (solid_keyword (by decide))
            (.seq (.altFirst (.word "default")) (hbrace rest).blank (hblock rest)))
      simpa [stateHead] using hread
    | some name =>
      have hname' := hname name rfl
      have hnamed (tail : List Char) :
          Reads (oneOf [word "default", cat [word "state", .rule .name]]) []
            ("state".toList ++ ' ' :: (name.toList ++ ' ' :: tail)) [] (' ' :: tail)
            [.single .name (.text name)] :=
        .altSecond (.word rfl) (.seq (.word "state") (solid_of_isName hname').blank
          (reads_name hname' (stops_cons.2 rfl)))
      have hpattern : Reads (pattern .state) [] ("state".toList ++ ' ' :: _) [] rest _ :=
        .next (reads_keyword (by decide) (stops_cons.2 rfl)).ahead (solid_keyword (by decide))
          (.seq (hnamed _) (hbrace rest).blank (hblock rest))
      have hread : Reads (.rule .state) [] _ [] rest _ :=
        .node rfl (build_state (some name) events) rfl rfl hpattern
      simpa [stateHead] using hread

/-! ## Globals -/

/-- The written form of a global or a state on the top level. -/
def globalText (width : Nat) (node : Node) : List Char :=
  (node.renderIn width (some .script)).toList

/-- After a type and a name, a function has a parenthesis. -/
theorem fails_function_of_variable {type : Primitive} (htype : type.isVoid = false) {name : String}
    (hname : isName name.toList = true) :
    Fails (.rule .function) [] (type.text ++ ' ' :: (name.toList ++ ' ' :: '=' :: rest)) :=
  .rule rfl (.seqSecond (.altFirst (reads_type htype (stops_cons.2 rfl)))
    (solid_of_isName hname).blank (.seqSecond (reads_name hname (stops_cons.2 rfl))
      (solid_cons rfl).blank (.seqFirst (.word rfl))))

theorem readsNode_variable {type : Primitive} (htype : type.isVoid = false) {name : String}
    (hname : isName name.toList = true) {o : Operation} (ho : ReadsOperation width o)
    (hshaped : o.wellShaped = true) :
    ReadsNode globalPattern (globalText width (.variable (some type) (some name)
      (some (.node (.value o))))) .variable
      (.variable (some type) (some name) (some (.node (.value o)))) := by
  have htext := @toList_renderIn_variable width o name type htype hshaped (some .script)
  refine ⟨?_, fun rest => ?_⟩
  · rw [globalText, htext]
    cases type <;> first | (cases htype; done) | exact ⟨_, _, rfl, rfl⟩
  · have hvariable := Reads.altSecond (fails_function_of_variable htype hname)
      (@reads_variable rest width type htype name hname o ho)
    rw [globalText, htext]
    simpa [globalPattern, oneOf] using hvariable

theorem readsNode_function {function : FunctionDef} (h : ReadsFunction width function) :
    ReadsNode globalPattern (globalText width (.function function)) .function
      (.function function) := by
  have hread := h.reads [] (pads_nil width)
  rw [deepen_none] at hread
  exact ⟨hread.starts, fun rest => .altFirst (hread.reads rest)⟩

/-- Neither a function nor a variable starts with a keyword that names no type. -/
theorem fails_global_of_keyword {word : String} (hkeyword : isKeyword word.toList = true)
    (htype : typeNames.contains word = false) (hrest : Stops isNameChar rest) :
    Fails globalPattern [] (word.toList ++ rest) := by
  have hword : word.toList.all isNameChar = true := (keyword_chars hkeyword).1
  have htypes : Fails (.rule .type) [] (word.toList ++ rest) :=
    fails_type_of_keyword htype hword hrest
  have hname : Fails (.rule .name) [] (word.toList ++ rest) := by
    refine .of_scans scans_name rfl rfl ?_
    rw [takeName?, takeWhile_append hword hrest, isName, hkeyword]
    simp
  have hfunction : Fails (.rule .function) [] (word.toList ++ rest) :=
    .rule rfl (.next (.optNone htypes) (solid_keyword hkeyword) (.seqFirst hname))
  exact .alt hfunction (.rule rfl (.seqFirst htypes))

theorem readsNode_global {allows : String → Bool}
    (hallows : ∀ text, allows text = true → isUnmoved width text = true) {node : Node}
    (hprintable : (match node with
      | .variable type? name? value? => (Node.variable type? name? value?).printable fun _ => true
      | node => node.printable allows) = true) (hkind : node.kind.isGlobal = true)
    (hshaped : node.wellShaped = true) (hsettled : node.settled = true) :
    ∃ r, ReadsNode globalPattern (globalText width node) r node := by
  cases node <;> try cases hkind
  next function =>
    rw [Node.wellShaped] at hshaped
    rw [Node.settled] at hsettled
    dsimp only at hprintable
    rw [Node.printable] at hprintable
    exact ⟨_, readsNode_function (readsFunction_of_canonical hallows hshaped hsettled hprintable)⟩
  next type? name? value? =>
    rw [Node.wellShaped.eq_def] at hshaped
    dsimp only at hshaped hprintable
    simp only [Bool.and_eq_true] at hshaped
    obtain _ | value := value?
    · simp [Node.settled] at hsettled
    · rw [Node.settled] at hsettled
      rw [Node.printable] at hprintable
      obtain ⟨type, rfl, htype⟩ := (Option.any_eq_true _ _).1 hshaped.1.1
      obtain ⟨name, rfl, hname⟩ := (Option.any_eq_true _ _).1 hshaped.1.2
      obtain ⟨o, rfl, ho, hread⟩ := readsOperation_of_value value hshaped.2 hsettled hprintable
      exact ⟨_, readsNode_variable (by simpa using htype) hname hread ho⟩

/-! ## Scripts -/

/-- No global starts where the states of a script do. -/
theorem fails_global_of_states {states : List State}
    (h : ∀ node ∈ states.map .state, ∃ r, ReadsNode (.rule .state) (globalText width node) r node) :
    ∃ start, GapTo (nodeLines [] (globalText width) (states.map .state)) start ∧ Solid start ∧
      Fails globalPattern [] start := by
  cases states with
  | nil =>
    have hfails {r : Rule} (hr : r.matchesNothing = false) : Fails (.rule r) [] [] :=
      .of_starts hr (.nil _)
    exact ⟨[], solid_nil.gapTo, solid_nil, .alt (hfails rfl) (hfails rfl)⟩
  | cons state states =>
    obtain ⟨r, hstate⟩ := h (.state state) List.mem_cons_self
    have hgap := @gapTo_nodeLine [] (.rule .state) (globalText width) (states.map .state) [] rfl r
      (.state state) hstate
    rw [List.append_nil, List.append_nil] at hgap
    refine ⟨_, hgap, hstate.solid, ?_⟩
    obtain ⟨word, tail, hkeyword, htype, htext⟩ := stateText_keyword width state
    have hglobal : globalText width (.state state) = stateText width state := rfl
    rw [hglobal, htext, List.append_assoc]
    exact fails_global_of_keyword hkeyword htype (stops_cons.2 rfl)

end Rule

open Rule Text

/-- The written form of a script is that of its globals and states, each after a line end, but for
the first line end. -/
theorem afterGap_render (width : Nat) (script : Script) :
    afterGap (script.render width).toList =
      afterGap (nodeLines [] (globalText width) script.globals ++
        nodeLines [] (globalText width) (script.states.map Node.state)) := by
  obtain ⟨globals, states⟩ := script
  have htext : (Script.render width ⟨globals, states⟩).toList =
      List.intercalate ['\n'] ((globals ++ states.map Node.state).map (globalText width)) := by
    rw [Script.render, renderNodes_eq_map, renderStates_eq_map, String.toList_intercalate,
      List.map_append, List.map_append, List.map_map, List.map_map, List.map_map]
    rfl
  have hlines : nodeLines [] (globalText width) globals ++
      nodeLines [] (globalText width) (states.map Node.state) =
      ((globals ++ states.map Node.state).map (globalText width)).flatMap ('\n' :: ·) := by
    simp [nodeLines, List.flatMap_map]
  rw [htext, hlines]
  cases (globals ++ states.map Node.state).map (globalText width) with
  | nil => rfl
  | cons text texts =>
    rw [intercalate_eq_flatMap, List.flatMap_cons, List.cons_append, afterGap_blank rfl]

/-- A script is read back from its written form, if what is allowed in its functions stays as it is
when it is indented by the width. -/
theorem parseScript_render_of_printable {allows : String → Bool}
    (hallows : ∀ text, allows text = true → isUnmoved width text = true) {script : Script}
    (hshaped : script.wellShaped = true) (hsettled : script.settled = true)
    (hprintable : script.printable allows = true) :
    parseScript ((Node.script script).render width) = .ok script := by
  obtain ⟨globals, states⟩ := script
  rw [Script.wellShaped, areWellShaped_eq_all, areWellShapedStates_eq_all, Bool.and_eq_true,
    List.all_eq_true, List.all_eq_true] at hshaped
  rw [Script.settled, Bool.and_eq_true, List.all_eq_true, List.all_eq_true] at hsettled
  rw [Script.printable, Bool.and_eq_true, List.all_eq_true, List.all_eq_true] at hprintable
  have hglobals : ∀ node ∈ globals, ∃ r,
      ReadsNode globalPattern (globalText width node) r node := by
    intro node hnode
    have hnode' := hshaped.1 node hnode
    rw [Bool.and_eq_true] at hnode'
    exact readsNode_global hallows (hprintable.1 node hnode) hnode'.1 hnode'.2 (hsettled.1 node hnode)
  have hstates : ∀ node ∈ states.map Node.state, ∃ r,
      ReadsNode (.rule .state) (globalText width node) r node := by
    rw [List.forall_mem_map]
    intro state hstate
    have hstate' := hshaped.2 state hstate
    have hsettled' := List.all_eq_true.1 (hsettled.2 state hstate)
    have hprintable' := List.all_eq_true.1 (hprintable.2 state hstate)
    obtain ⟨name?, events⟩ := state
    rw [State.wellShaped, areWellShapedFunctions_eq_all, Bool.and_eq_true,
      List.all_eq_true] at hstate'
    refine ⟨_, readsNode_state ?_ fun event hevent => readsFunction_of_canonical
      hallows (hstate'.2 event hevent) (hsettled' event hevent) (hprintable' event hevent)⟩
    rintro name rfl
    exact hstate'.1
  obtain ⟨start, hstart, hsolid, hfails⟩ := fails_global_of_states hstates
  obtain ⟨items, hitems, text₂, rest₂, hgap₂, hend, hreads₂⟩ := @reads_star_nodeLines [] _ _ _ [] []
    rfl hstates solid_nil.gapTo (.of_starts rfl (Lexeme.Stops.nil _)) solid_nil
  rw [List.append_nil] at hgap₂
  cases hgap₂.eq_afterGap.trans hstart.eq_afterGap.symm
  obtain ⟨items', hitems', text₁, rest₁, hgap₁, hmiddle, hreads₁⟩ := @reads_star_nodeLines [] _ _ _ _ _
    rfl hglobals hstart hfails hsolid
  have hgroup₁ : Reads (.rule .globals) [] text₁ [] rest₁ _ := .groupNodes rfl rfl hreads₁
  have hgroup₂ : Reads (.rule .states) [] start [] rest₂ _ := .groupNodes rfl rfl hreads₂
  rw [hitems'] at hgroup₁
  rw [hitems, List.map_map] at hgroup₂
  have hsource : GapTo ((Node.script ⟨globals, states⟩).render width).toList text₁ := by
    have hrender : (Node.script ⟨globals, states⟩).render width =
        Script.render width ⟨globals, states⟩ := rfl
    rw [hrender, gapTo_iff, afterGap_render]
    exact hgap₁.eq_afterGap
  refine parseScript_of_reads hsource hgroup₁ hmiddle hgroup₂ hend ?_
  rw [List.all_eq_true]
  intro node hnode
  have hkind := (Bool.and_eq_true_iff.1 (hshaped.1 node hnode)).1
  cases node <;> first | rfl | cases hkind

/-- A text on one line stays as it is whatever the width. -/
theorem isUnmoved_of_isLine (text : String) (h : isLine text = true) :
    isUnmoved width text = true := by
  rw [isUnmoved, h, Bool.true_or]

/-- A canonical script is read back from its written form. -/
theorem parseScript_render_of_canonical {script : Script} (h : script.canonical = true)
    (width : Nat) : parseScript ((Node.script script).render width) = .ok script := by
  rw [Script.canonical, Bool.and_eq_true, Bool.and_eq_true] at h
  exact parseScript_render_of_printable isUnmoved_of_isLine h.1.1 h.1.2 h.2

/-- Parsing undoes printing: for every width of an indentation, the written form of a canonical
script is read as that very script. -/
theorem parseScript_render {script : Script} (h : script.canonical = true) (width : Nat) :
    parseScript ((Node.script script).render width) = .ok script :=
  parseScript_render_of_canonical h width

/-- A script with a literal, a loop, a branch with an operation in parentheses, and a state:
`rotation r = <1, 2, 3, x * 4>;`, `integer f(key id) { if ((a + 1) > -b) { return [id]; } else { jump
done; } }` and `default { touch(integer n) { for (i = 0; ; i++) { g("n"); } } }`. -/
def sampleScript : Script :=
  let word (text : String) : Operation := .leaf (.text text)
  let operand (node : Node) : Operation := .leaf (.node node)
  let value (o : Operation) : Element := .node (.value o)
  let binary (left : Operation) (symbol : String) (right : Operation) : Operation :=
    ⟨some (.value left), some (.text symbol), some (.value right)⟩
  let literal : Node := .quaternion (value (word "1")) (value (word "2")) (value (word "3"))
    (value (binary (word "x") "*" (word "4")))
  let condition := binary (binary (word "a") "+" (word "1")) ">"
    (operand (.preMod (some "-") (some (.text "b"))))
  let branch : Node := .ifElse (some (.condition condition))
    (some ⟨[.ret (some (value (operand (.list [value (word "id")]))))]⟩)
    (some (.body ⟨[.jump (some "done")]⟩))
  let loop : Node := .forLoop [.expression (binary (word "i") "=" (word "0"))] none
    [.expression (operand (.postMod (some "++") (some (.text "i"))))]
    (some ⟨[.expression (operand (.call (some "g") [value (word "\"n\"")]))]⟩)
  ⟨[.variable (some .rotation) (some "r") (some (value (operand literal))),
      .function ⟨some .integer, some "f", [⟨some .key, some "id"⟩], some ⟨[branch]⟩⟩],
    [⟨none, [⟨none, some "touch", [⟨some .integer, some "n"⟩], some ⟨[loop]⟩⟩]⟩]⟩

theorem parseScript_render_sample : sampleScript.canonical = true ∧
    parseScript ((Node.script sampleScript).render 0) = .ok sampleScript :=
  have hcanonical : sampleScript.canonical = true := by decide +kernel
  ⟨hcanonical, parseScript_render hcanonical 0⟩

end Lsl
