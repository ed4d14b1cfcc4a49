import Lsl.Proofs.Printing
import Lsl.Proofs.Syntax.Restored
import Lsl.Proofs.Trace
/-!
# Stable text

What is written for a program that was read is read again as the restored script, which is
canonical, and is written as the same text.  This takes that nothing runs into its neighbour when it
is written, and that indenting leaves every string in a function as it is.
-/

namespace Lsl

open Peg

variable {allows : String → Bool}

/-- What makes a node canonical, when `allows` says which texts may occur in it. -/
structure Node.Canonical (allows : String → Bool) (node : Node) : Prop where
  shaped : node.wellShaped = true
  settled : node.settled = true
  printable : node.printable allows = true

structure Body.Canonical (allows : String → Bool) (body : Body) : Prop where
  shaped : body.wellShaped = true
  settled : body.settled = true
  printable : body.printable allows = true

structure Operation.Canonical (allows : String → Bool) (operation : Operation) : Prop where
  shaped : operation.wellShaped = true
  settled : operation.settled = true
  printable : operation.printable allows = true

/-! ## Restored expressions -/

theorem Operation.canonical_normal {o : Operation} (hshaped : o.wellShaped = true)
    (hprintable : o.printable allows = true) : o.normal.Canonical allows where
  shaped := o.wellShaped_normal hshaped
  settled := o.settled_normal hshaped
  printable := by rw [o.printable_normal hshaped, hprintable]

theorem Element.canonical_normal {value : Element} (hshaped : value.isWellShapedValue = true)
    (hprintable : value.printable allows = true) :
    ∃ o : Operation, value.normal = .node (.value o) ∧ o.Canonical allows := by
  match value with
  | .node (.value o) =>
    rw [Element.isWellShapedValue] at hshaped
    rw [Element.printable, Node.printable] at hprintable
    exact ⟨o.normal, by rw [Element.normal, Node.normal],
      Operation.canonical_normal hshaped hprintable⟩

theorem canonical_condition {condition? : Option Node}
    (h : (match condition? with
      | some (.condition operation) => operation.wellShaped
      | _ => false) = true ∧ (match condition? with
      | some condition => condition.printable allows
      | none => true) = true) :
    ∃ o : Operation, normalNode? condition? = some (.condition o) ∧ o.Canonical allows := by
  obtain ⟨hshaped, hprintable⟩ := h
  match condition? with
  | some (.condition o) =>
    dsimp only at hshaped hprintable
    rw [Node.printable] at hprintable
    exact ⟨o.normal, by rw [normalNode?, Node.normal],
      Operation.canonical_normal hshaped hprintable⟩

theorem normalNodes_expressions (os : List Operation) :
    normalNodes (os.map .expression) = (os.map Operation.normal).map .expression := by
  induction os with
  | nil => rfl
  | cons o os ih => rw [List.map_cons, normalNodes, Node.normal, ih, List.map_cons, List.map_cons]

/-- What makes nodes the commands of a canonical loop. -/
structure Commands (allows : String → Bool) (nodes : List Node) : Prop where
  shaped : areWellShaped (· = .expression) nodes = true
  settled : areSettled nodes = true
  printable : arePrintable allows nodes = true
  separable : separable (nodes.filterMap Node.operation?) = true

theorem commands_normalNodes {nodes : List Node}
    (hshaped : areWellShaped (· = .expression) nodes = true)
    (hprintable : arePrintable allows nodes = true)
    (hseparable : separable (nodes.filterMap Node.operation?) = true) :
    Commands allows (normalNodes nodes) := by
  obtain ⟨os, rfl, hos⟩ := exists_expressions hshaped
  rw [arePrintable_expressions, List.all_eq_true] at hprintable
  rw [Rule.filterMap_expression] at hseparable
  have hnormal : ∀ o ∈ os.map Operation.normal, o.Canonical allows :=
    List.forall_mem_map.2 fun o ho => Operation.canonical_normal (hos o ho) (hprintable o ho)
  rw [normalNodes_expressions]
  refine ⟨?_, ?_, ?_, ?_⟩
  · rw [areWellShaped_expressions, List.all_eq_true]
    exact fun o ho => (hnormal o ho).shaped
  · rw [areSettled_expressions, List.all_eq_true]
    exact fun o ho => (hnormal o ho).settled
  · rw [arePrintable_expressions, List.all_eq_true]
    exact fun o ho => (hnormal o ho).printable
  · rw [Rule.filterMap_expression, separable_normal hos, hseparable]

/-! ## Restored declarations -/

section

variable (hallows : ∀ text, isLine text = true → allows text = true)

include hallows

/-- The value of a declaration without one is a canonical value. -/
theorem Primitive.canonical_initial? {type : Primitive} (htype : type.isVoid = false) :
    ∃ o : Operation, type.initial? = some (.node (.value o)) ∧ o.Canonical allows := by
  have hword {word : String} (h : isLine word = true) :
      Operation.printable allows (.leaf (.text word)) = true := by
    rw [Operation.leaf, Operation.printable_leaf, Element.printable, hallows word h]
  have hzero : Operation.printable allows (.leaf (.text "0.0")) = true := hword (by decide)
  cases type with
  | void => cases htype
  | integer | float | string | key => exact ⟨_, rfl, by decide, by decide, hword (by decide)⟩
  | vector | rotation =>
    refine ⟨_, rfl, by decide, by decide, ?_⟩
    rw [Operation.leaf, Operation.printable_leaf]
    simp only [Element.ofWord, Element.printable, Node.printable, hzero, Bool.true_and]
    rfl
  | list => exact ⟨_, rfl, by decide, by decide, rfl⟩

theorem Node.canonical_variable {type? : Option Primitive} {name? : Option String}
    {value? : Option Element} (hshaped : (Node.variable type? name? value?).wellShaped = true)
    (hprintable : (Node.variable type? name? value?).printable allows = true) :
    (Node.variable type? name? value?).restored.Canonical allows := by
  rw [Node.wellShaped.eq_def] at hshaped
  dsimp only at hshaped
  rw [Bool.and_eq_true, Bool.and_eq_true] at hshaped
  obtain ⟨⟨htyped, hnamed⟩, hvalue⟩ := hshaped
  obtain ⟨type, rfl, htype⟩ := (Option.any_eq_true _ _).1 htyped
  have hrestored : ∃ o : Operation,
      (normalElement? value?).or type.initial? = some (.node (.value o)) ∧ o.Canonical allows := by
    cases value? with
    | none => exact Primitive.canonical_initial? hallows (by simpa using htype)
    | some value =>
      rw [Node.printable] at hprintable
      obtain ⟨o, heq, ho⟩ := Element.canonical_normal hvalue hprintable
      exact ⟨o, by rw [normalElement?, heq]; rfl, ho⟩
  obtain ⟨o, heq, ho⟩ := hrestored
  rw [Node.restored, Option.bind_some, heq]
  refine ⟨?_, ?_, ?_⟩
  · simp only [Node.wellShaped, htyped, hnamed, Element.isWellShapedValue, ho.shaped, Bool.and_self]
  · simp only [Node.settled, Element.settled, ho.settled]
  · simp only [Node.printable, Element.printable, ho.printable]

end

/-! ## Restored statements -/

/-- A block of canonical statements is canonical, once it is not wrapped around another one. -/
theorem Body.canonical_unwrapped {statements : List Node}
    (hshaped : areWellShaped Kind.isStatement statements = true)
    (hsettled : areSettled statements = true) (hprintable : arePrintable allows statements = true) :
    (Body.unwrapped ⟨statements⟩).Canonical allows := by
  unfold Body.unwrapped
  split
  · next inner heq =>
    cases heq
    simp only [areWellShaped, Bool.and_eq_true, Node.wellShaped] at hshaped
    simp only [areSettled, Bool.and_eq_true, Node.settled] at hsettled
    simp only [arePrintable, Bool.and_eq_true, Node.printable] at hprintable
    exact ⟨hshaped.1.2, hsettled.1, hprintable.1⟩
  · next hwrap =>
    refine ⟨by rwa [Body.wellShaped], ?_, by rwa [Body.printable]⟩
    rw [Body.settled]
    · exact hsettled
    · rintro inner rfl
      exact hwrap inner rfl

section

variable {o : Operation} {body : Body} (ho : o.Canonical allows) (hbody : body.Canonical allows)

include ho hbody

theorem Node.canonical_whileLoop :
    (Node.whileLoop (some (.condition o)) (some body)).Canonical allows where
  shaped := by simp only [Node.wellShaped, ho.shaped, hbody.shaped, Bool.and_self]
  settled := by simp only [Node.settled, ho.settled, hbody.settled, Bool.and_self]
  printable := by simp only [Node.printable, ho.printable, hbody.printable, Bool.and_self]

theorem Node.canonical_doLoop :
    (Node.doLoop (some (.condition o)) (some body)).Canonical allows where
  shaped := by simp only [Node.wellShaped, ho.shaped, hbody.shaped, Bool.and_self]
  settled := by simp only [Node.settled, ho.settled, hbody.settled, Bool.and_self]
  printable := by simp only [Node.printable, ho.printable, hbody.printable, Bool.and_self]

theorem Node.canonical_ifElse {else? : Option Body}
    (helse : ∀ other ∈ else?, other.Canonical allows) :
    (Node.ifElse (some (.condition o)) (some body) (else?.map .body)).Canonical allows := by
  obtain ⟨hshaped, hsettled, hprintable⟩ := ho
  obtain ⟨hshaped', hsettled', hprintable'⟩ := hbody
  cases else? with
  | none =>
    constructor <;> simp only [Option.map_none, Node.wellShaped, Node.settled, Node.printable,
      hshaped, hshaped', hsettled, hsettled', hprintable, hprintable', Bool.and_self]
  | some other =>
    obtain ⟨hshaped'', hsettled'', hprintable''⟩ := helse other rfl
    constructor <;> simp only [Option.map_some, Node.wellShaped, Node.settled, Node.printable,
      hshaped, hshaped', hshaped'', hsettled, hsettled', hsettled'', hprintable, hprintable',
      hprintable'', Bool.and_self]

end

theorem Node.canonical_forLoop {pre loop : List Node} {condition? : Option Operation} {body : Body}
    (hpre : Commands allows pre) (hcondition : ∀ o ∈ condition?, o.Canonical allows)
    (hloop : Commands allows loop) (hbody : body.Canonical allows) :
    (Node.forLoop pre (condition?.map .condition) loop (some body)).Canonical allows := by
  cases condition? with
  | none =>
    constructor <;> simp only [Option.map_none, Node.wellShaped, Node.settled, Node.printable,
      hpre.shaped, hpre.settled, hpre.printable, hpre.separable, hloop.shaped, hloop.settled,
      hloop.printable, hloop.separable, hbody.shaped, hbody.settled, hbody.printable, Bool.and_self]
  | some o =>
    have ho := hcondition o rfl
    constructor <;> simp only [Option.map_some, Node.wellShaped, Node.settled, Node.printable,
      hpre.shaped, hpre.settled, hpre.printable, hpre.separable, ho.shaped, ho.settled,
      ho.printable, hloop.shaped, hloop.settled, hloop.printable, hloop.separable, hbody.shaped,
      hbody.settled, hbody.printable, Bool.and_self]

mutual

/-- The statement that is read back for a well-shaped one is canonical. -/
theorem Node.canonical_restored (hallows : ∀ text, isLine text = true → allows text = true)
    (node : Node) (hkind : node.kind.isStatement = true) (hshaped : node.wellShaped = true)
    (hprintable : node.printable allows = true) : node.restored.Canonical allows := by
  match node with
  | .variable _ _ _ => exact Node.canonical_variable hallows hshaped hprintable
  | .ret value? =>
    rw [Node.restored]
    obtain _ | value := value?
    · exact ⟨rfl, rfl, rfl⟩
    · rw [Node.wellShaped] at hshaped
      rw [Node.printable] at hprintable
      obtain ⟨o, heq, ho⟩ := Element.canonical_normal hshaped hprintable
      rw [normalElement?, heq]
      exact ⟨ho.shaped, ho.settled, ho.printable⟩
  | .jump _ | .label _ | .stateChange _ =>
    simp only [Node.restored]
    exact ⟨hshaped, rfl, rfl⟩
  | .expression o =>
    rw [Node.wellShaped] at hshaped
    rw [Node.printable] at hprintable
    have ho := Operation.canonical_normal hshaped hprintable
    rw [Node.restored]
    exact ⟨ho.shaped, ho.settled, ho.printable⟩
  | .body block =>
    rw [Node.wellShaped] at hshaped
    rw [Node.printable] at hprintable
    have hblock := Body.canonical_restored hallows block hshaped hprintable
    rw [Node.restored]
    exact ⟨hblock.shaped, hblock.settled, hblock.printable⟩
  | .ifElse condition? body? else? =>
    rw [Node.wellShaped.eq_def] at hshaped
    rw [Node.printable.eq_def] at hprintable
    dsimp only at hshaped hprintable
    rw [Bool.and_eq_true, Bool.and_eq_true] at hshaped hprintable
    obtain ⟨⟨hcondition, hbody⟩, helse⟩ := hshaped
    obtain ⟨⟨hconditionp, hbodyp⟩, helsep⟩ := hprintable
    obtain ⟨o, heq, ho⟩ := canonical_condition ⟨hcondition, hconditionp⟩
    obtain _ | body := body?
    · cases hbody
    have hrestored := Body.canonical_restored hallows body hbody hbodyp
    rw [Node.restored, heq, restoredBody?]
    obtain _ | other := else?
    · exact @Node.canonical_ifElse _ _ _ ho hrestored none nofun
    · match other with
      | .body other =>
        dsimp only at helse helsep
        rw [Node.printable] at helsep
        have hother := Body.canonical_restored hallows other helse helsep
        rw [restoredNode?, Node.restored]
        exact @Node.canonical_ifElse _ _ _ ho hrestored (some _) (by simpa using hother)
  | .whileLoop condition? body? =>
    rw [Node.wellShaped.eq_def] at hshaped
    rw [Node.printable.eq_def] at hprintable
    dsimp only at hshaped hprintable
    rw [Bool.and_eq_true] at hshaped hprintable
    obtain ⟨o, heq, ho⟩ := canonical_condition ⟨hshaped.1, hprintable.1⟩
    obtain _ | body := body?
    · cases hshaped.2
    rw [Node.restored, heq, restoredBody?]
    exact Node.canonical_whileLoop ho (Body.canonical_restored hallows body hshaped.2 hprintable.2)
  | .doLoop condition? body? =>
    rw [Node.wellShaped.eq_def] at hshaped
    rw [Node.printable.eq_def] at hprintable
    dsimp only at hshaped hprintable
    rw [Bool.and_eq_true] at hshaped hprintable
    obtain ⟨o, heq, ho⟩ := canonical_condition ⟨hshaped.1, hprintable.1⟩
    obtain _ | body := body?
    · cases hshaped.2
    rw [Node.restored, heq, restoredBody?]
    exact Node.canonical_doLoop ho (Body.canonical_restored hallows body hshaped.2 hprintable.2)
  | .forLoop pre condition? loop body? =>
    rw [Node.wellShaped.eq_def] at hshaped
    rw [Node.printable.eq_def] at hprintable
    dsimp only at hshaped hprintable
    simp only [Bool.and_eq_true] at hshaped hprintable
    obtain ⟨⟨⟨hpre, hcondition⟩, hloop⟩, hbody⟩ := hshaped
    obtain ⟨⟨⟨⟨⟨hprep, hprecommas⟩, hconditionp⟩, hloopp⟩, hloopcommas⟩, hbodyp⟩ := hprintable
    have hpres := commands_normalNodes hpre hprep hprecommas
    have hloops := commands_normalNodes hloop hloopp hloopcommas
    obtain _ | body := body?
    · cases hbody
    have hrestored := Body.canonical_restored hallows body hbody hbodyp
    rw [Node.restored, restoredBody?]
    obtain _ | condition := condition?
    · exact @Node.canonical_forLoop _ _ _ none _ hpres nofun hloops hrestored
    · match condition with
      | .condition o =>
        obtain ⟨o', heq, ho⟩ :=
          @canonical_condition _ (some (.condition o)) ⟨hcondition, hconditionp⟩
        rw [heq]
        exact @Node.canonical_forLoop _ _ _ (some o') _ hpres (by simpa using ho) hloops hrestored
  | .script _ | .function _ | .param _ | .type _ | .state _ | .call _ _ | .cast _ _ | .list _
  | .vector _ _ _ | .quaternion _ _ _ _ | .value _ | .condition _ | .preMod _ _ | .postMod _ _ =>
    cases hkind

theorem Body.canonical_restored (hallows : ∀ text, isLine text = true → allows text = true)
    (body : Body) (hshaped : body.wellShaped = true) (hprintable : body.printable allows = true) :
    body.restored.Canonical allows := by
  obtain ⟨statements⟩ := body
  rw [Body.wellShaped] at hshaped
  rw [Body.printable] at hprintable
  obtain ⟨hshaped, hsettled, hprintable⟩ :=
    canonical_restoredNodes hallows statements hshaped hprintable
  exact Body.canonical_unwrapped hshaped hsettled hprintable

theorem canonical_restoredNodes (hallows : ∀ text, isLine text = true → allows text = true)
    (nodes : List Node) (hshaped : areWellShaped Kind.isStatement nodes = true)
    (hprintable : arePrintable allows nodes = true) :
    areWellShaped Kind.isStatement (restoredNodes nodes) = true ∧
      areSettled (restoredNodes nodes) = true ∧
      arePrintable allows (restoredNodes nodes) = true := by
  cases nodes with
  | nil => exact ⟨rfl, rfl, rfl⟩
  | cons node nodes =>
    rw [areWellShaped, Bool.and_eq_true, Bool.and_eq_true] at hshaped
    rw [arePrintable, Bool.and_eq_true] at hprintable
    obtain ⟨⟨hkind, hnode⟩, hnodes⟩ := hshaped
    obtain ⟨hfirst, hsettled, hprintable'⟩ :=
      Node.canonical_restored hallows node hkind hnode hprintable.1
    obtain ⟨hrest, hsettleds, hprintables⟩ :=
      canonical_restoredNodes hallows nodes hnodes hprintable.2
    rw [restoredNodes, areWellShaped, areSettled, arePrintable, Node.kind_restored, hkind, hfirst,
      hsettled, hprintable', hrest, hsettleds, hprintables]
    exact ⟨rfl, rfl, rfl⟩

end

/-! ## Restored scripts -/

section

variable (hallows : ∀ text, isLine text = true → allows text = true)

include hallows

theorem FunctionDef.canonical_restored {function : FunctionDef}
    (hshaped : function.wellShaped = true) (hprintable : function.printable allows = true) :
    function.restored.Canonical allows := by
  obtain ⟨type?, name?, params, body?⟩ := function
  rw [FunctionDef.wellShaped.eq_def] at hshaped
  rw [FunctionDef.printable.eq_def] at hprintable
  dsimp only at hshaped hprintable
  rw [Bool.and_eq_true] at hshaped
  obtain ⟨hhead, hbody⟩ := hshaped
  obtain _ | body := body?
  · cases hbody
  have hrestored := body.canonical_restored hallows hbody hprintable
  rw [FunctionDef.restored, restoredBody?]
  refine ⟨?_, ?_, ?_⟩
  · rw [FunctionDef.wellShaped, hhead, hrestored.shaped]
    rfl
  · rw [FunctionDef.settled, hrestored.settled]
  · rw [FunctionDef.printable, hrestored.printable]

theorem Node.canonicalGlobal_restored {node : Node}
    (hprintable : (match node with
      | .variable type? name? value? => (Node.variable type? name? value?).printable fun _ => true
      | node => node.printable allows) = true) (hkind : node.kind.isGlobal = true)
    (hshaped : node.wellShaped = true) : node.restored.CanonicalGlobal allows := by
  cases node <;> try cases hkind
  next function =>
    rw [Node.wellShaped] at hshaped
    dsimp only at hprintable
    rw [Node.printable] at hprintable
    rw [Node.restored]
    exact FunctionDef.canonical_restored hallows hshaped hprintable
  next type? name? value? =>
    obtain ⟨hshaped', hsettled, hprintable'⟩ :=
      Node.canonical_variable (fun _ _ => rfl) hshaped hprintable
    rw [Node.restored] at hshaped' hsettled hprintable' ⊢
    exact ⟨hshaped', hsettled, hprintable'⟩

/-- The script that is read back is canonical. -/
theorem Script.canonical_restored {script : Script} (hshaped : script.wellShaped = true)
    (hprintable : script.printable allows = true) : script.restored.Canonical allows := by
  obtain ⟨globals, states⟩ := script
  rw [Script.wellShaped, areWellShaped_eq_all, areWellShapedStates_eq_all, Bool.and_eq_true,
    List.all_eq_true, List.all_eq_true] at hshaped
  rw [Script.printable, Bool.and_eq_true, List.all_eq_true, List.all_eq_true] at hprintable
  have hstate : ∀ state ∈ states, (state.name?.isNone || named state.name?) = true ∧
      ∀ event ∈ state.events, event.wellShaped = true := by
    intro state hstate
    have hstate' := hshaped.2 state hstate
    obtain ⟨name?, events⟩ := state
    rwa [State.wellShaped, areWellShapedFunctions_eq_all, Bool.and_eq_true,
      List.all_eq_true] at hstate'
  refine ⟨List.forall_mem_map.2 fun node hnode => ?_,
    List.forall_mem_map.2 fun state hmem => (hstate state hmem).1,
    List.forall_mem_map.2 fun state hmem => List.forall_mem_map.2 fun event hevent => ?_⟩
  · have hnode' := Bool.and_eq_true_iff.1 (hshaped.1 node hnode)
    exact Node.canonicalGlobal_restored hallows (hprintable.1 node hnode) hnode'.1 hnode'.2
  · exact FunctionDef.canonical_restored hallows ((hstate state hmem).2 event hevent)
      (List.all_eq_true.1 (hprintable.2 state hmem) event hevent)

end

/-! ## What is written is stable -/

/-- Writing a program that was read gives a stable text: it is read as the restored script, and that
is written as the same text.  This holds if nothing in the program runs into its neighbour when it
is written, and indenting leaves the strings in functions as they are. -/
theorem parseScript_render_stable {source : String} {script : Script} {width : Nat}
    (h : parseScript source = .ok script)
    (hprintable : script.printable (isUnmoved width) = true) :
    parseScript ((Node.script script).render width) = .ok script.restored ∧
      (Node.script script.restored).render width = (Node.script script).render width := by
  have hsame : (Node.script script.restored).render width = (Node.script script).render width :=
    script.render_restored
  obtain ⟨hshaped, hsettled, hprintable'⟩ := script.restored.canonical_iff.1
    (Script.canonical_restored isUnmoved_of_isLine (wellShaped_of_parseScript h) hprintable)
  refine ⟨?_, hsame⟩
  calc parseScript ((Node.script script).render width)
      = parseScript ((Node.script script.restored).render width) := by rw [hsame]
    _ = .ok script.restored :=
      parseScript_render_of_printable (fun _ h => h) hshaped hsettled hprintable'

/-- The raw tree of a function with one statement. -/
def functionTree (source body : String) (statement : ParseTree Rule) : ParseTree Rule :=
  ⟨.script, source, [⟨.globals, source, [⟨.function, source, [⟨.name, "f", []⟩, ⟨.params, "", []⟩,
    ⟨.body, body, [statement]⟩]⟩]⟩, ⟨.states, "", []⟩]⟩

/-- The script of a function with one statement. -/
def functionScript (statement : Node) : Script :=
  ⟨[.function ⟨none, some "f", [], some ⟨[statement]⟩⟩], []⟩

theorem parseScript_function {source : String} (body : String) {tree : ParseTree Rule} {r : Rule}
    {statement : Node} (h : (parseTree source).toOption = some (functionTree source body tree))
    (hstatement : Shows tree (.single r (.node statement))) :
    parseScript source = .ok (functionScript statement) := by
  have hparams : Shows ⟨.params, "", []⟩ (.group .params []) := .group .nil
  have hbody : Shows ⟨.body, body, [tree]⟩ (.single .body (.ofBody ⟨[statement]⟩)) :=
    .node (.cons hstatement .nil) rfl (build_body [(r, statement)])
  have hfunction : Shows ⟨.function, source, _⟩ (.single .function (.node (.function _))) :=
    .node (.cons (.leaf rfl) (.cons hparams (.cons hbody .nil))) rfl (build_function none "f" [] _)
  have hscript : Shows (functionTree source body tree)
      (.single .script (.node (.script (functionScript statement)))) :=
    .node (.cons (.group (.cons ⟨_, hfunction⟩ .nil)) (.cons (.group .nil) .nil)) rfl
      (@build_script [.function _] [] rfl)
  exact parseScript_of_shows (eq_ok_of_toOption h) hscript

/-- A block that only wraps another one, and a declaration without a value. -/
theorem parseScript_render_stable_sample :
    let script := functionScript (.body ⟨[.variable (some .rotation) (some "r") none]⟩)
    parseScript "f()\x7b\x7brotation r;\x7d\x7d" = .ok script ∧
    script.printable (isUnmoved 2) = true ∧
    parseScript "f()\n\x7b\n  rotation r = <0.0, 0.0, 0.0, 0.0>;\n\x7d" = .ok script.restored ∧
    (Node.script script.restored).render 2 =
      "f()\n\x7b\n  rotation r = <0.0, 0.0, 0.0, 0.0>;\n\x7d" := by
  intro script
  have htype : Shows ⟨.type, "rotation", [⟨.typeName, "rotation", []⟩]⟩
      (.single .type (.ofType .rotation)) := .node (.cons (.leaf rfl) .nil) rfl (build_type rfl)
  have hvariable : Shows ⟨.variable, "rotation r;", _⟩ (.single .variable (.node _)) :=
    .node (.cons htype (.cons (.leaf rfl) .nil)) rfl (build_variable .rotation "r" none)
  have hblock : Shows ⟨.body, "\x7brotation r;\x7d", _⟩ (.single .body (.node (.body ⟨[_]⟩))) :=
    .node (.cons hvariable .nil) rfl (build_body [(.variable, _)])
  have hread : parseScript "f()\x7b\x7brotation r;\x7d\x7d" = .ok script :=
    parseScript_function "\x7b\x7brotation r;\x7d\x7d" (by decide +kernel) hblock
  have hprintable : script.printable (isUnmoved 2) = true := by decide +kernel
  have htext : (Node.script script).render 2 =
      "f()\n\x7b\n  rotation r = <0.0, 0.0, 0.0, 0.0>;\n\x7d" := by decide +kernel
  obtain ⟨hagain, hsame⟩ := parseScript_render_stable hread hprintable
  rw [htext] at hagain hsame
  exact ⟨hread, hprintable, hagain, hsame⟩

/-- A string over two lines is not stable: its second line is indented each time it is written. -/
theorem render_unstable_sample :
    let script (text : String) := functionScript (.expression
      ⟨some (.value (.leaf (.text "x"))), some (.text "="), some (.value (.leaf (.text text)))⟩)
    parseScript "f()\x7bx=\"a\nb\";\x7d" = .ok (script "\"a\nb\"") ∧
    parseScript ((Node.script (script "\"a\nb\"")).render 2) = .ok (script "\"a\n  b\"") ∧
    (Node.script (script "\"a\n  b\"")).render 2 ≠ (Node.script (script "\"a\nb\"")).render 2 := by
  intro script
  have hassignment (text : String) (htext : (Element.text text).isPlainOperand = true)
      (statement : String) : Shows ⟨.expression, statement, _⟩ (.single .expression (.node _)) :=
    .node (.cons (.leaf rfl) (.cons (.leaf rfl) (.cons (.leaf rfl) .nil))) rfl
      (@build_operation .expression rfl (.ident, .text "x") [(.string, "=", .text text)] rfl rfl _
        (assemble_of_operands (by decide) htext (by decide)))
  have htext : (Node.script (script "\"a\nb\"")).render 2 =
      "f()\n\x7b\n  x = \"a\n  b\";\n\x7d" := by decide +kernel
  refine ⟨?_, ?_, by decide +kernel⟩
  · exact parseScript_function "\x7bx=\"a\nb\";\x7d" (by decide +kernel)
      (hassignment "\"a\nb\"" (by decide) "x=\"a\nb\"")
  · rw [htext]
    exact parseScript_function "\x7b\n  x = \"a\n  b\";\n\x7d" (by decide +kernel)
      (hassignment "\"a\n  b\"" (by decide) "x = \"a\n  b\"")

end Lsl
