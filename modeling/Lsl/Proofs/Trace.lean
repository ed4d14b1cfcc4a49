import Lsl.Proofs.Roundtrip.Script
import Lsl.Trace
import Mathlib.Algebra.GroupWithZero.Nat
/-!
# Traced scripts

Tracing never fails, and what it makes of a script is the script with a call in front of the
statements of every function.  A canonical script stays canonical, so the written form of a traced
one is read back too.
-/

namespace Lsl

open Lexeme

/-! ## What tracing does -/

/-- The node with its function replaced, if it is one. -/
def Node.mapFunction (f : FunctionDef → FunctionDef) : Node → Node
  | .function g => .function (f g)
  | other => other

/-- The state with all its event handlers replaced. -/
def State.mapFunctions (f : FunctionDef → FunctionDef) (state : State) : State :=
  ⟨state.name?, state.events.map f⟩

/-- The script with all its functions replaced. -/
def Script.mapFunctions (f : FunctionDef → FunctionDef) (script : Script) : Script :=
  ⟨script.globals.map (Node.mapFunction f), script.states.map (State.mapFunctions f)⟩

/-- The function that a global is, if it is one. -/
def Node.function? : Node → Option FunctionDef
  | .function f => some f
  | _ => none

theorem Script.functions_eq (script : Script) : script.functions =
    script.globals.filterMap Node.function? ++ script.states.flatMap State.events := by
  unfold functions
  congr 2

/-- All functions are replaced, in order. -/
theorem Script.functions_mapFunctions (f : FunctionDef → FunctionDef) (script : Script) :
    (script.mapFunctions f).functions = script.functions.map f := by
  have hglobal (node : Node) : (node.mapFunction f).function? = node.function?.map f := by
    cases node <;> rfl
  rw [functions_eq, functions_eq, mapFunctions, List.filterMap_map, List.flatMap_map,
    List.map_append, List.map_filterMap, List.map_flatMap]
  congr 2
  funext node
  exact hglobal node

section

variable {α β σ : Type} {step : α → StateM σ β} {f : α → β} {count : α → Nat} {tally : Nat → σ}

/-- A list is worked off from left to right, and the counts of its elements add up. -/
theorem mapM_run_eq (hstep : ∀ a n, (step a).run (tally n) = (f a, tally (n + count a)))
    (as : List α) (n : Nat) :
    (as.mapM step).run (tally n) = (as.map f, tally (n + (as.map count).sum)) := by
  induction as generalizing n with
  | nil => rfl
  | cons a as ih =>
    rw [List.mapM_cons, StateT.run_bind, hstep]
    have hrest : ((as.mapM step) >>= fun bs => pure (f a :: bs)).run (tally (n + count a)) =
        (f a :: as.map f, tally (n + count a + (as.map count).sum)) := by
      rw [StateT.run_bind, ih]
      rfl
    refine hrest.trans ?_
    rw [List.map_cons, List.map_cons, List.sum_cons, Nat.add_assoc]

end

/-- The number of functions that a global is. -/
def Node.functionCount (node : Node) : Nat :=
  node.function?.toList.length

theorem length_filterMap_function? (globals : List Node) :
    (globals.filterMap Node.function?).length = (globals.map Node.functionCount).sum := by
  induction globals with
  | nil => rfl
  | cons node globals ih =>
    rw [List.filterMap_cons, List.map_cons, List.sum_cons, ← ih, Node.functionCount]
    cases node.function? with
    | none => exact (Nat.zero_add _).symm
    | some f => exact Nat.add_comm _ 1

/-- A step that replaces a function and counts it replaces and counts all functions of a script. -/
theorem Script.mapFunctionsM_run_eq {σ : Type} {step : FunctionDef → StateM σ FunctionDef}
    {f : FunctionDef → FunctionDef} {tally : Nat → σ}
    (hstep : ∀ function n, (step function).run (tally n) = (f function, tally (n + 1)))
    (script : Script) (n : Nat) :
    (script.mapFunctionsM step).run (tally n) =
      (script.mapFunctions f, tally (n + script.functions.length)) := by
  obtain ⟨globals, states⟩ := script
  have hevents (events : List FunctionDef) (n : Nat) :
      (events.mapM step).run (tally n) = (events.map f, tally (n + events.length)) := by
    rw [@mapM_run_eq _ _ _ step f (fun _ => 1) tally hstep]
    simp
  have hstates (n : Nat) : (states.mapM (State.mapFunctionsM step)).run (tally n) =
      (states.map (State.mapFunctions f),
        tally (n + (states.map fun s => s.events.length).sum)) := by
    refine mapM_run_eq (fun state n => ?_) states n
    rw [State.mapFunctionsM, StateT.run_bind, hevents]
    rfl
  rw [functions_eq, List.length_append, List.length_flatMap, length_filterMap_function?,
    ← Nat.add_assoc]
  unfold Script.mapFunctionsM
  rw [StateT.run_bind, @mapM_run_eq _ _ _ _ (Node.mapFunction f) Node.functionCount tally]
  · exact congrArg (fun run : List State × σ =>
      ((⟨globals.map (Node.mapFunction f), run.1⟩ : Script), run.2))
      (hstates (n + (globals.map Node.functionCount).sum))
  · intro node n
    cases node <;> try rfl
    next g => exact congrArg (fun run : FunctionDef × σ => (Node.function run.1, run.2)) (hstep g n)

/-- The function with its announcement in front of its statements. -/
def FunctionDef.announced (diagnostic : String) (function : FunctionDef) : FunctionDef :=
  { function with
    body? := some ⟨entryCall diagnostic (function.name?.getD "") ::
      (function.body?.getD ⟨[]⟩).statements⟩ }

/-- Announcing never fails, as there always is a place in front of all statements. -/
theorem FunctionDef.announce_eq (diagnostic : String) (function : FunctionDef) :
    function.announce diagnostic = (function.announced diagnostic, .ok ()) := by
  rw [announce, Body.insert, if_pos (Nat.zero_le _)]
  rfl

theorem Script.announce_eq (script : Script) (diagnostic : String) :
    script.announce diagnostic =
      (script.mapFunctions (·.announced diagnostic), .ok script.functions.length) := by
  have hstep (function : FunctionDef) (n : Nat) :
      (function.announceCounted diagnostic).run (.ok n) =
        (function.announced diagnostic, .ok (n + 1)) := by
    simp only [StateT.run, FunctionDef.announceCounted, FunctionDef.announce_eq]
    rfl
  have h := mapFunctionsM_run_eq hstep script 0
  rwa [Nat.zero_add] at h

/-- Tracing announces every function, and counts them. -/
theorem Script.traceEntry_eq (script : Script) (diagnostic : String) :
    script.traceEntry diagnostic =
      .ok (script.mapFunctions (·.announced diagnostic), script.functions.length) := by
  rw [traceEntry, announce_eq]
  rfl

/-! ## Traced scripts are canonical -/

theorem isStringTail_quoted {word : List Char} (h : word.all isNameChar = true) :
    isStringTail (word ++ ['"']) = true := by
  induction word with
  | nil => rfl
  | cons c word ih =>
    rw [List.all_cons, Bool.and_eq_true] at h
    have hquote : c ≠ '"' := by
      rintro rfl
      cases h.1
    have hslash : c ≠ '\\' := by
      rintro rfl
      cases h.1
    rw [List.cons_append, isStringTail]
    · simp [hquote, hslash, ih h.2]
    · exact fun _ _ hc _ => hslash hc

section

variable {diagnostic name : String} (hdiagnostic : isName diagnostic.toList = true)
  (hname : isName name.toList = true)

include hname

theorem isString_quoted : isString ("\"" ++ name ++ "\"").toList = true := by
  have htext : ("\"" ++ name ++ "\"").toList = '"' :: (name.toList ++ ['"']) := by simp
  rw [htext, isString]
  exact isStringTail_quoted (Rule.all_of_isName hname)

theorem isLine_quoted : isLine ("\"" ++ name ++ "\"") = true := by
  have hmem : '\n' ∉ name.toList := by
    intro hmem
    cases List.all_eq_true.1 (Rule.all_of_isName hname) _ hmem
  simp [isLine, hmem]

omit hname in
/-- A string is no operator. -/
theorem level_quoted : Level.of? ("\"" ++ name ++ "\"") = none := by
  have hheads : ∀ symbol ∈ Rule.binaryOperators, symbol.toList.head? ≠ some '"' := by decide
  rw [← Option.not_isSome_iff_eq_none]
  intro hsome
  exact hheads _ (Rule.mem_binaryOperators hsome) (by simp)

include hdiagnostic

theorem wellShaped_entryCall : (entryCall diagnostic name).wellShaped = true := by
  have hoperand : isOperandText ("\"" ++ name ++ "\"") = true := by
    rw [isOperandText, isString_quoted hname, Bool.or_true]
  simp [entryCall, Operation.leaf, Node.wellShaped, Operation.wellShaped,
    Element.isWellShapedOperand, Node.kind, Kind.isOperand, named, hdiagnostic, areWellShapedValues,
    Element.isWellShapedValue, hoperand, Element.level?, level_quoted]

omit hdiagnostic hname in
theorem settled_entryCall : (entryCall diagnostic name).settled = true := rfl

omit hdiagnostic in
theorem printable_entryCall : (entryCall diagnostic name).printable isLine = true := by
  simp [entryCall, Operation.leaf, Node.printable, Operation.printable, Element.printable,
    arePrintableElements, isLine_quoted hname, separable, Element.operation?, Node.operation?,
    Operation.strays]

end

section

variable (allows : String → Bool)

/-- What makes a function canonical, when `allows` says which texts may occur in it. -/
structure FunctionDef.Canonical (function : FunctionDef) : Prop where
  shaped : function.wellShaped = true
  settled : function.settled = true
  printable : function.printable allows = true

/-- What makes a global canonical. -/
def Node.CanonicalGlobal : Node → Prop
  | .function f => f.Canonical allows
  | .variable type? name? value? =>
    (Node.variable type? name? value?).wellShaped = true ∧
      (Node.variable type? name? value?).settled = true ∧
      ((Node.variable type? name? value?).printable fun _ => true) = true
  | _ => False

/-- What makes a script canonical. -/
structure Script.Canonical (script : Script) : Prop where
  globals : ∀ node ∈ script.globals, node.CanonicalGlobal allows
  named : ∀ state ∈ script.states, (state.name?.isNone || named state.name?) = true
  events : ∀ state ∈ script.states, ∀ event ∈ state.events, event.Canonical allows

end

variable {allows : String → Bool}

theorem Node.canonicalGlobal_iff (node : Node) : node.CanonicalGlobal allows ↔
    ((node.kind.isGlobal = true ∧ node.wellShaped = true) ∧ node.settled = true) ∧
    (match node with
      | .variable type? name? value? => (Node.variable type? name? value?).printable fun _ => true
      | node => node.printable allows) = true := by
  cases node <;> simp [Node.CanonicalGlobal, Node.kind, Kind.isGlobal, and_assoc]
  next f =>
    rw [Node.wellShaped, Node.settled, Node.printable]
    exact ⟨fun h => ⟨h.shaped, h.settled, h.printable⟩, fun h => ⟨h.1, h.2.1, h.2.2⟩⟩

theorem Script.canonical_iff (script : Script) : script.Canonical allows ↔
    script.wellShaped = true ∧ script.settled = true ∧ script.printable allows = true := by
  obtain ⟨globals, states⟩ := script
  have hstate (state : State) : state.wellShaped = true ↔
      (state.name?.isNone || named state.name?) = true ∧
        ∀ event ∈ state.events, event.wellShaped = true := by
    obtain ⟨name?, events⟩ := state
    rw [State.wellShaped, areWellShapedFunctions_eq_all, Bool.and_eq_true, List.all_eq_true]
  simp only [Script.wellShaped, Script.settled, Script.printable, areWellShaped_eq_all,
    areWellShapedStates_eq_all, Bool.and_eq_true, List.all_eq_true, hstate]
  constructor
  · rintro ⟨hglobals, hnamed, hevents⟩
    have hglobals' := fun node hnode => (Node.canonicalGlobal_iff node).1 (hglobals node hnode)
    exact ⟨⟨fun node hnode => (hglobals' node hnode).1.1, fun state hstate =>
        ⟨hnamed state hstate, fun event hevent => (hevents state hstate event hevent).shaped⟩⟩,
      ⟨fun node hnode => (hglobals' node hnode).1.2,
        fun state hstate event hevent => (hevents state hstate event hevent).settled⟩,
      fun node hnode => (hglobals' node hnode).2,
      fun state hstate event hevent => (hevents state hstate event hevent).printable⟩
  · rintro ⟨⟨hglobals, hstates⟩, ⟨hsettled, hsettled'⟩, hprintable, hprintable'⟩
    exact ⟨fun node hnode => (Node.canonicalGlobal_iff node).2
        ⟨⟨hglobals node hnode, hsettled node hnode⟩, hprintable node hnode⟩,
      fun state hstate => (hstates state hstate).1,
      fun state hstate event hevent => ⟨(hstates state hstate).2 event hevent,
        hsettled' state hstate event hevent, hprintable' state hstate event hevent⟩⟩

/-- A canonical function has a name and a block. -/
theorem FunctionDef.Canonical.parts {function : FunctionDef} (h : function.Canonical allows) :
    ∃ name body, isName name.toList = true ∧ function.name? = some name ∧
      function.body? = some body := by
  have hshaped := h.shaped
  obtain ⟨type?, name?, params, body?⟩ := function
  rw [FunctionDef.wellShaped.eq_def] at hshaped
  dsimp only at hshaped
  simp only [Bool.and_eq_true] at hshaped
  obtain ⟨⟨⟨-, hname⟩, -⟩, hbody⟩ := hshaped
  obtain ⟨name, rfl, hname⟩ := (Option.any_eq_true _ _).1 hname
  obtain _ | body := body?
  · cases hbody
  · exact ⟨name, body, hname, rfl, rfl⟩

/-- With its announcement a function stays canonical. -/
theorem FunctionDef.Canonical.announced {function : FunctionDef} (h : function.Canonical isLine)
    {diagnostic : String} (hdiagnostic : isName diagnostic.toList = true) :
    (function.announced diagnostic).Canonical isLine := by
  obtain ⟨name, ⟨statements⟩, hname, hsome, hbody⟩ := h.parts
  obtain ⟨hshaped, hsettled, hprintable⟩ := h
  obtain ⟨type?, name?, params, body?⟩ := function
  cases hsome
  cases hbody
  simp only [FunctionDef.wellShaped, Body.wellShaped, Bool.and_eq_true] at hshaped
  simp only [FunctionDef.settled] at hsettled
  simp only [FunctionDef.printable, Body.printable] at hprintable
  have hsettled' : areSettled statements = true := by
    unfold Body.settled at hsettled
    split at hsettled
    · cases hsettled
    · next heq =>
      cases heq
      exact hsettled
  refine ⟨?_, ?_, ?_⟩
  · have hcall := wellShaped_entryCall hdiagnostic hname
    have hkind : (entryCall diagnostic name).kind.isStatement = true := rfl
    simp only [FunctionDef.announced, Option.getD_some, FunctionDef.wellShaped, Body.wellShaped,
      areWellShaped, hcall, hkind, hshaped, Bool.and_self]
  · have hcall := @settled_entryCall diagnostic name
    simp only [FunctionDef.announced, Option.getD_some, FunctionDef.settled]
    rw [Body.settled, areSettled, hcall, hsettled']
    · rfl
    · rintro _ ⟨⟩
  · have hcall := @printable_entryCall diagnostic name hname
    simp only [FunctionDef.announced, Option.getD_some, FunctionDef.printable, Body.printable,
      arePrintable, hcall, hprintable, Bool.and_self]

theorem Script.Canonical.functions {script : Script} (h : script.Canonical allows) :
    ∀ function ∈ script.functions, function.Canonical allows := by
  rw [functions_eq]
  intro function hmem
  rcases List.mem_append.1 hmem with hglobal | hevent
  · obtain ⟨node, hnode, heq⟩ := List.mem_filterMap.1 hglobal
    have hnode' := h.globals node hnode
    cases node <;> cases heq
    exact hnode'
  · obtain ⟨state, hstate, hevent⟩ := List.mem_flatMap.1 hevent
    exact h.events state hstate function hevent

end Lsl
