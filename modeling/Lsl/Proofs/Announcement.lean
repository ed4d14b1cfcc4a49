import Lsl.Proofs.Functions
/-!
# What tracing changes

Tracing reaches every function of a script once, in the order of `Script.functions`, and changes
nothing but their blocks: each gets a call in front of the statements that it had, and those without
a block get one.
-/

namespace Lsl

/-! ## The order of replacing -/

/-- Replacing the functions of a script, whatever state is kept on the way, works through the list
of its functions from left to right. -/
theorem Script.run_mapFunctionsM {σ : Type} (step : FunctionDef → StateM σ FunctionDef)
    (script : Script) (s : σ) :
    Prod.map Script.functions id ((script.mapFunctionsM step).run s) =
      (script.functions.mapM step).run s := by
  rw [← functions_mapFunctionsM]
  rfl

/-- Leaves the function as it is and writes it down behind those that were reached before. -/
def FunctionDef.record (function : FunctionDef) : StateM (List FunctionDef) FunctionDef :=
  modifyGet fun seen => (function, seen ++ [function])

/-- The functions of a script in the order in which they are reached when they are replaced. -/
def Script.reached (script : Script) : List FunctionDef :=
  ((script.mapFunctionsM FunctionDef.record).run []).2

theorem mapM_run_record (functions seen : List FunctionDef) :
    (functions.mapM FunctionDef.record).run seen = (functions, seen ++ functions) := by
  induction functions generalizing seen with
  | nil => exact congrArg (Prod.mk []) (List.append_nil seen).symm
  | cons function functions ih =>
    have hrest := ih (seen ++ [function])
    rw [List.append_assoc, List.singleton_append] at hrest
    rw [List.mapM_cons]
    exact congrArg (Prod.map (function :: ·) id) hrest

theorem Script.reached_eq (script : Script) : script.reached = script.functions := by
  have hrecord := mapM_run_record script.functions []
  rw [← run_mapFunctionsM] at hrecord
  exact congrArg Prod.snd hrecord

/-! ## What is left of the parts -/

/-- All but the block of a function is left as it was; the block starts with the statement
`diagnostic("name");` and goes on with the statements that there were. -/
structure FunctionDef.Announces (diagnostic : String) (before after : FunctionDef) : Prop where
  type : after.type? = before.type?
  name : after.name? = before.name?
  params : after.params = before.params
  body : after.body? = some ⟨
    .expression (.leaf (.node (.call (some diagnostic)
      [.node (.value (.leaf (.text ("\"" ++ before.name?.getD "" ++ "\""))))]))) ::
    before.body?.elim [] Body.statements⟩

/-- A global that is a function announces itself afterwards; any other is left as it was. -/
inductive Node.Announces (diagnostic : String) : Node → Node → Prop
  | function {before after : FunctionDef} :
    before.Announces diagnostic after → Announces diagnostic (.function before) (.function after)
  | other {global : Node} : global.function? = none → Announces diagnostic global global

/-- A state keeps its name, and its event handlers announce themselves afterwards. -/
structure State.Announces (diagnostic : String) (before after : State) : Prop where
  name : after.name? = before.name?
  events : List.Forall₂ (FunctionDef.Announces diagnostic) before.events after.events

section

variable (diagnostic : String)

theorem FunctionDef.announces_announced (function : FunctionDef) :
    function.Announces diagnostic (function.announced diagnostic) where
  type := rfl
  name := rfl
  params := rfl
  body := by cases hbody : function.body? <;> simp [announced, entryCall, hbody]

theorem forall₂_announced (functions : List FunctionDef) :
    List.Forall₂ (FunctionDef.Announces diagnostic) functions
      (functions.map (·.announced diagnostic)) := by
  rw [List.forall₂_map_right_iff, List.forall₂_same]
  exact fun function _ => function.announces_announced diagnostic

theorem Node.announces_mapFunction (global : Node) :
    global.Announces diagnostic (global.mapFunction (·.announced diagnostic)) := by
  cases hfunction : global.function? with
  | none =>
    have hsame : global.mapFunction (·.announced diagnostic) = global := by
      cases global <;> first | rfl | cases hfunction
    rw [hsame]
    exact .other hfunction
  | some function =>
    obtain rfl : global = .function function := by cases global <;> cases hfunction; rfl
    exact .function (function.announces_announced diagnostic)

theorem State.announces_mapFunctions (state : State) :
    state.Announces diagnostic (state.mapFunctions (·.announced diagnostic)) where
  name := rfl
  events := forall₂_announced diagnostic state.events

/-- Tracing always succeeds and gives the number of functions.  The globals and the states stay as
many and in their order, and of them only the blocks of the functions change; so the functions
before and after correspond one to one.  Replacing the functions reaches those of
`Script.functions`, in that order, whatever is done with each. -/
theorem Script.traceEntry_changes_blocks (script : Script) :
    (∃ traced, script.traceEntry diagnostic = .ok (traced, script.functions.length) ∧
      script.announce diagnostic = (traced, .ok script.functions.length) ∧
      List.Forall₂ (Node.Announces diagnostic) script.globals traced.globals ∧
      List.Forall₂ (State.Announces diagnostic) script.states traced.states ∧
      List.Forall₂ (FunctionDef.Announces diagnostic) script.functions traced.functions) ∧
    script.reached = script.functions ∧
    ∀ {σ : Type} (step : FunctionDef → StateM σ FunctionDef) (s : σ),
      Prod.map Script.functions id ((script.mapFunctionsM step).run s) =
        (script.functions.mapM step).run s := by
  refine ⟨⟨_, script.traceEntry_eq diagnostic, script.announce_eq diagnostic, ?_, ?_, ?_⟩,
    script.reached_eq, fun step s => script.run_mapFunctionsM step s⟩
  · rw [mapFunctions, List.forall₂_map_right_iff, List.forall₂_same]
    exact fun global _ => global.announces_mapFunction diagnostic
  · rw [mapFunctions, List.forall₂_map_right_iff, List.forall₂_same]
    exact fun state _ => state.announces_mapFunctions diagnostic
  · rw [functions_mapFunctions]
    exact forall₂_announced diagnostic script.functions

end

end Lsl
