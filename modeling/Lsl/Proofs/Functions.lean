import Lsl.Proofs.Syntax.Editing
import Lsl.Proofs.Trace
import Lsl.Session
/-!
# The functions of a script

Replacing the functions of a script one after the other works off the list of its functions, and
leaves all else as it is.  A script is sound when its functions are, and whatever else is global; so
it stays sound when one of them gets another sound block, and when it is traced.
-/

namespace Lsl

/-! ## Replacing functions -/

section

variable {m : Type → Type} [Monad m] [LawfulMonad m]

/-- Lists of parts that are worked off one after the other are worked off as one list. -/
theorem flatMap_mapM {α γ : Type} (parts : α → List γ) (step : γ → m γ) {work : α → m α}
    (h : ∀ a, parts <$> work a = (parts a).mapM step) (as : List α) :
    List.flatMap parts <$> as.mapM work = (as.flatMap parts).mapM step := by
  induction as with
  | nil => simp
  | cons a as ih =>
    rw [List.flatMap_cons, List.mapM_append, ← h, ← ih, List.mapM_cons]
    simp only [map_eq_pure_bind, bind_assoc, pure_bind, List.flatMap_cons]

theorem Node.functions_mapFunctionM (step : FunctionDef → m FunctionDef) (node : Node) :
    (fun node : Node => node.function?.toList) <$> node.mapFunctionM step =
      node.function?.toList.mapM step := by
  cases node <;> simp [Node.mapFunctionM, Node.function?]

theorem State.events_mapFunctionsM (step : FunctionDef → m FunctionDef) (state : State) :
    State.events <$> state.mapFunctionsM step = state.events.mapM step := by
  simp [mapFunctionsM]

/-- The functions of a script are replaced one after the other, in their order. -/
theorem Script.functions_mapFunctionsM (step : FunctionDef → m FunctionDef) (script : Script) :
    Script.functions <$> script.mapFunctionsM step = script.functions.mapM step := by
  rw [functions_eq, List.filterMap_eq_flatMap_toList, List.mapM_append,
    ← flatMap_mapM State.events step (State.events_mapFunctionsM step),
    ← flatMap_mapM _ step (Node.functions_mapFunctionM step)]
  unfold mapFunctionsM
  simp only [map_eq_pure_bind, bind_assoc, pure_bind, functions_eq,
    List.filterMap_eq_flatMap_toList]

end

section

variable {α β : Type}

/-- A list worked off with a count of the elements before. -/
theorem mapM_run_mapIdx {step : α → StateM Nat β} {f : Nat → α → β}
    (hstep : ∀ a n, (step a).run n = (f n a, n + 1)) (as : List α) (n : Nat) :
    ((as.mapM step).run n).1 = as.mapIdx fun k a => f (n + k) a := by
  induction as generalizing n with
  | nil => rfl
  | cons a as ih =>
    have hrest : (((a :: as).mapM step).run n).1 = f n a :: ((as.mapM step).run (n + 1)).1 := by
      rw [List.mapM_cons, StateT.run_bind, hstep]
      rfl
    rw [hrest, ih, List.mapIdx_cons]
    simp only [Nat.add_zero, Nat.add_assoc, Nat.add_comm 1]

/-- What a list turns into comes from its elements. -/
theorem exists_of_mem_mapM_run {σ : Type} {step : α → StateM σ β} {as : List α} {s : σ} {b : β}
    (h : b ∈ ((as.mapM step).run s).1) : ∃ a ∈ as, ∃ s', b = ((step a).run s').1 := by
  induction as generalizing s with
  | nil => cases h
  | cons a as ih =>
    have hcons : (((a :: as).mapM step).run s).1 =
        ((step a).run s).1 :: ((as.mapM step).run ((step a).run s).2).1 := by
      rw [List.mapM_cons]
      rfl
    rw [hcons, List.mem_cons] at h
    rcases h with rfl | h
    · exact ⟨a, by simp, s, rfl⟩
    · obtain ⟨a', ha', s', rfl⟩ := ih h
      exact ⟨a', by simp [ha'], s', rfl⟩

end

/-- Elements are counted while one of them is changed. -/
theorem mapM_run_modify {α : Type} (index : Nat) (f : α → α) (as : List α) :
    ((as.mapM fun a => (modifyGet fun place =>
      (if place = index then f a else a, place + 1) : StateM Nat α)).run 0).1 =
      as.modify index f := by
  rw [@mapM_run_mapIdx _ _ _ (fun place a => if place = index then f a else a)]
  · apply List.ext_getElem?
    intro k
    rw [List.getElem?_mapIdx, List.getElem?_modify]
    simp only [Nat.zero_add, eq_comm]
    rfl
  · intro a n
    rfl

/-! ## Replacing functions by themselves -/

section

variable {α γ σ : Type} {step : γ → StateM σ γ}

theorem length_mapM_run (xs : List γ) (s : σ) : ((xs.mapM step).run s).1.length = xs.length := by
  induction xs generalizing s with
  | nil => rfl
  | cons x xs ih =>
    rw [List.mapM_cons]
    exact congrArg (· + 1) (ih ((step x).run s).2)

/-- A list that turns into itself does so at both of its ends. -/
theorem mapM_run_append_self {xs ys : List γ} {s : σ}
    (h : (((xs ++ ys).mapM step).run s).1 = xs ++ ys) :
    ((xs.mapM step).run s).1 = xs ∧ ((ys.mapM step).run ((xs.mapM step).run s).2).1 = ys := by
  rw [List.mapM_append] at h
  exact List.append_inj h (length_mapM_run xs s)

/-- What is worked off part by part is unchanged when its parts are. -/
theorem mapM_run_self {parts : α → List γ} {work : α → StateM σ α}
    (hparts : ∀ a, parts <$> work a = (parts a).mapM step)
    (hself : ∀ a s, (((parts a).mapM step).run s).1 = parts a → ((work a).run s).1 = a)
    {as : List α} {s : σ} (h : (((as.flatMap parts).mapM step).run s).1 = as.flatMap parts) :
    ((as.mapM work).run s).1 = as := by
  induction as generalizing s with
  | nil => rfl
  | cons a as ih =>
    obtain ⟨hfirst, hrest⟩ := mapM_run_append_self h
    have hstate : ((work a).run s).2 = (((parts a).mapM step).run s).2 := by
      rw [← hparts]
      rfl
    rw [← hstate] at hrest
    rw [List.mapM_cons]
    exact congrArg₂ List.cons (hself a s hfirst) (ih hrest)

end

/-- A script whose functions are replaced by themselves is unchanged. -/
theorem Script.mapFunctionsM_run_self {σ : Type} {step : FunctionDef → StateM σ FunctionDef}
    {script : Script} {s : σ} (h : ((script.functions.mapM step).run s).1 = script.functions) :
    ((script.mapFunctionsM step).run s).1 = script := by
  obtain ⟨globals, states⟩ := script
  rw [functions_eq, List.filterMap_eq_flatMap_toList] at h
  obtain ⟨hglobals, hstates⟩ := mapM_run_append_self h
  rw [← flatMap_mapM _ step (Node.functions_mapFunctionM step)] at hstates
  have hnode (node : Node) (s : σ)
      (h : ((node.function?.toList.mapM step).run s).1 = node.function?.toList) :
      ((node.mapFunctionM step).run s).1 = node := by
    cases node <;> try rfl
    next f => exact congrArg Node.function (List.head_eq_of_cons_eq h)
  have hstate (state : State) (s : σ) (h : ((state.events.mapM step).run s).1 = state.events) :
      ((state.mapFunctionsM step).run s).1 = state := by
    obtain ⟨name?, events⟩ := state
    exact congrArg (State.mk name?) h
  exact congrArg₂ Script.mk
    (mapM_run_self (Node.functions_mapFunctionM step) hnode hglobals)
    (mapM_run_self (State.events_mapFunctionsM step) hstate hstates)

/-- One function is changed, at its place. -/
theorem Script.functions_modifyFunction (script : Script) (index : Nat)
    (f : FunctionDef → FunctionDef) :
    (script.modifyFunction index f).functions = script.functions.modify index f := by
  rw [← mapM_run_modify, ← functions_mapFunctionsM]
  rfl

theorem Script.modifyFunction_self {script : Script} {index : Nat}
    {f : FunctionDef → FunctionDef}
    (h : ∀ function, script.functions[index]? = some function → f function = function) :
    script.modifyFunction index f = script := by
  refine mapFunctionsM_run_self ((mapM_run_modify index f script.functions).trans ?_)
  apply List.ext_getElem?
  intro place
  rw [List.getElem?_modify]
  cases hfunction : script.functions[place]? with
  | none => rfl
  | some function =>
    by_cases hplace : index = place
    · subst hplace
      simp [h function hfunction]
    · simp [hplace]

theorem Script.mem_globals_modifyFunction {script : Script} {index : Nat}
    {f : FunctionDef → FunctionDef} {node : Node} (hnode : node.function? = none)
    (h : node ∈ (script.modifyFunction index f).globals) : node ∈ script.globals := by
  obtain ⟨node', hnode', place, rfl⟩ := exists_of_mem_mapM_run h
  cases node' <;> first | exact hnode' | cases hnode

/-! ## Sound functions -/

/-- A script is sound when its functions are, and whatever else is global. -/
theorem Node.sound_script {script : Script} : (Node.script script).Sound ↔
    (∀ function ∈ script.functions, (Node.function function).Sound) ∧
      ∀ node ∈ script.globals, node.function? = none → node.isGlobal = true ∧ node.Sound := by
  have hstate (state : State) :
      (Node.state state).Sound ↔ ∀ event ∈ state.events, (Node.function event).Sound := by
    rw [sound_iff_of_ne_script (by nofun)]
    exact List.forall_mem_map
  have hglobal (node : Node) (function : FunctionDef) :
      node.function? = some function ↔ node = .function function := by
    cases node <;> simp [Node.function?]
  rw [sound_iff]
  simp only [Node.children, Script.functions_eq, List.mem_append, List.mem_map, List.mem_filterMap,
    List.mem_flatMap, hglobal]
  constructor
  · rintro ⟨hproper, hchildren⟩
    refine ⟨?_, fun node hnode _ => ⟨hproper.globals script rfl node hnode,
      hchildren node (.inl hnode)⟩⟩
    rintro function (⟨_, hnode, rfl⟩ | ⟨state, hmem, hevent⟩)
    · exact hchildren _ (.inl hnode)
    · exact (hstate state).1 (hchildren _ (.inr ⟨state, hmem, rfl⟩)) function hevent
  · rintro ⟨hfunctions, hothers⟩
    refine ⟨proper_script fun node hnode => ?_, ?_⟩
    · cases hfunction : node.function? with
      | none => exact (hothers node hnode hfunction).1
      | some function =>
        rw [hglobal] at hfunction
        rw [hfunction, isGlobal]
    · rintro child (hnode | ⟨state, hmem, rfl⟩)
      · cases hfunction : child.function? with
        | none => exact (hothers child hnode hfunction).2
        | some function =>
          rw [hglobal] at hfunction
          subst hfunction
          exact hfunctions function (.inl ⟨_, hnode, rfl⟩)
      · exact (hstate state).2 fun event hevent => hfunctions event (.inr ⟨state, hmem, hevent⟩)

theorem Node.sound_body {body : Body} :
    (Node.body body).Sound ↔ ∀ statement ∈ body.statements, statement.Sound :=
  sound_iff_of_ne_script (by nofun)

/-- The block of a sound function is sound. -/
theorem Node.sound_body_of_function {function : FunctionDef} {body : Body}
    (h : (Node.function function).Sound) (hbody : function.body? = some body) :
    (Node.body body).Sound :=
  (sound_iff.1 h).2 _ (by simp [Node.children, bodyNodes, hbody])

theorem Node.sound_withBody {function : FunctionDef} {body : Body}
    (h : (Node.function function).Sound) (hbody : (Node.body body).Sound) :
    (Node.function { function with body? := some body }).Sound :=
  (keeps_set (Element.sound_node.2 hbody) (.function function) "body").sound h

theorem sound_entryCall (diagnostic name : String) : (entryCall diagnostic name).Sound := by
  have hname : (Node.value (.leaf (.text ("\"" ++ name ++ "\"")))).Sound :=
    Node.sound_value (Operation.sound_leaf (Element.sound_text _))
  have hcall : (Node.call diagnostic
      [.node (.value (.leaf (.text ("\"" ++ name ++ "\""))))]).Sound := by
    refine (Node.sound_iff_of_ne_script (by nofun)).2 fun child hchild => ?_
    obtain rfl := List.mem_singleton.1 hchild
    exact hname
  exact (Node.sound_iff_of_ne_script (by nofun)).2
    (Operation.sound_leaf (Element.sound_node.2 hcall))

theorem Script.keeps_announce (script : Script) (diagnostic : String) :
    (Node.script script).Keeps (.script (script.announce diagnostic).1) := by
  rw [announce_eq]
  refine ⟨rfl, fun hsound => ?_⟩
  rw [Node.sound_script] at hsound ⊢
  rw [functions_mapFunctions]
  refine ⟨List.forall_mem_map.2 fun function hfunction => ?_, fun node hnode hnone => ?_⟩
  · have hfunctionSound := hsound.1 function hfunction
    refine Node.sound_withBody hfunctionSound (Node.sound_body.2 ?_)
    rw [List.forall_mem_cons]
    refine ⟨sound_entryCall _ _, ?_⟩
    cases hbody : function.body? with
    | none => exact nofun
    | some body =>
      exact Node.sound_body.1 (Node.sound_body_of_function hfunctionSound hbody)
  · obtain ⟨node', hnode', rfl⟩ := List.mem_map.1 hnode
    have hsame : node'.mapFunction (·.announced diagnostic) = node' := by
      cases node' <;> first | rfl | cases hnone
    rw [hsame] at hnone ⊢
    exact hsound.2 node' hnode' hnone

end Lsl
