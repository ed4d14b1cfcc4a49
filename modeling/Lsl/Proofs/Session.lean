import Lsl.Proofs.Functions
import Lsl.Proofs.Program
/-!
# What a session keeps

However long a session is and whatever steps it takes, the root stays a sound node of the kind that
it was, as long as the values that go in are sound.  A step that is refused changes nothing, and a
step on a block changes that block only.
-/

namespace Lsl

/-! ## The blocks of a root -/

/-- The block at an address. -/
def Node.blockAt? (root : Node) (address : Option Nat) : Option Body :=
  (root.block? address).map Prod.fst

theorem Node.blockAt?_script (script : Script) (index : Nat) :
    (Node.script script).blockAt? (some index) =
      script.functions[index]?.bind FunctionDef.body? := by
  rw [blockAt?, block?]
  cases script.functions[index]? with
  | none => rfl
  | some function => cases hbody : function.body? <;> simp [hbody]

/-- A block is the root itself or stands in a function of it. -/
theorem Node.block?_cases {root : Node} {address : Option Nat} {body : Body}
    {replace : Body → Node} (h : root.block? address = some (body, replace)) :
    (root = .body body ∧ address = none ∧ replace = .body) ∨
    ∃ script index function, root = .script script ∧ address = some index ∧
      script.functions[index]? = some function ∧ function.body? = some body ∧
      replace = fun new => .script (script.modifyFunction index ({ · with body? := some new })) := by
  unfold block? at h
  split at h
  · cases h
    exact .inl ⟨rfl, rfl, rfl⟩
  · next script index =>
    cases hfunction : script.functions[index]? with
    | none => simp [hfunction] at h
    | some function =>
      cases hbody : function.body? with
      | none => simp [hfunction, hbody] at h
      | some block =>
        simp only [hfunction, hbody, bind, Option.bind, pure] at h
        cases h
        exact .inr ⟨script, index, function, rfl, rfl, hfunction, hbody, rfl⟩
  · cases h

section

variable {root : Node} {address : Option Nat} {body : Body} {replace : Body → Node}
  (h : root.block? address = some (body, replace))

include h

theorem Node.blockAt?_replace (new : Body) : (replace new).blockAt? address = some new := by
  obtain ⟨rfl, rfl, rfl⟩ | ⟨script, index, function, rfl, rfl, hfunction, -, rfl⟩ := block?_cases h
  · rfl
  · rw [blockAt?_script, Script.functions_modifyFunction, List.getElem?_modify, hfunction]
    simp

theorem Node.blockAt?_replace_of_ne (new : Body) {other : Option Nat} (hother : other ≠ address) :
    (replace new).blockAt? other = root.blockAt? other := by
  obtain ⟨rfl, rfl, rfl⟩ | ⟨script, index, function, rfl, rfl, -, -, rfl⟩ := block?_cases h
  · cases other with
    | none => exact absurd rfl hother
    | some place => rfl
  · cases other with
    | none => rfl
    | some place =>
      have hplace : index ≠ place := fun heq => hother (heq ▸ rfl)
      rw [blockAt?_script, blockAt?_script, Script.functions_modifyFunction, List.getElem?_modify]
      simp [hplace]

/-- A block that is put back is left as it was. -/
theorem Node.replace_self : replace body = root := by
  obtain ⟨rfl, rfl, rfl⟩ | ⟨script, index, function, rfl, rfl, hfunction, hbody, rfl⟩ :=
    block?_cases h
  · rfl
  · refine congrArg Node.script (Script.modifyFunction_self fun function' hfunction' => ?_)
    cases hfunction.symm.trans hfunction'
    obtain ⟨type?, name?, params, body?⟩ := function
    cases hbody
    rfl

theorem Node.keeps_replace {new : Body}
    (hnew : (Node.body body).Sound → (Node.body new).Sound) : root.Keeps (replace new) := by
  obtain ⟨rfl, rfl, rfl⟩ | ⟨script, index, function, rfl, rfl, hfunction, hbody, rfl⟩ :=
    block?_cases h
  · exact ⟨rfl, hnew⟩
  · refine ⟨rfl, fun hsound => ?_⟩
    rw [sound_script] at hsound ⊢
    refine ⟨fun changed hchanged => ?_, fun node hnode hnone => ?_⟩
    · rw [Script.functions_modifyFunction] at hchanged
      obtain ⟨place, hplace⟩ := List.mem_iff_getElem?.1 hchanged
      rw [List.getElem?_modify] at hplace
      obtain ⟨former, hformer, rfl⟩ := Option.map_eq_some_iff.1 hplace
      have hfunctionSound := hsound.1 former (List.mem_of_getElem? hformer)
      split
      · next heq =>
        subst heq
        cases hfunction.symm.trans hformer
        exact sound_withBody hfunctionSound (hnew (sound_body_of_function hfunctionSound hbody))
      · exact hfunctionSound
    · exact hsound.2 node (Script.mem_globals_modifyFunction hnone hnode) hnone

end

/-! ## Steps -/

/-- The elements that a step puts into the tree. -/
def Step.supplied : Step → List Element
  | .set _ value | .setComponent _ value => [value]
  | .setList _ values | .setOverflow values => values
  | .insert _ _ node | .push _ node => [.node node]
  | _ => []

theorem insertIdx_eq_take_drop {α : Type} {as : List α} {index : Nat} (h : index ≤ as.length)
    (a : α) : as.insertIdx index a = as.take index ++ a :: as.drop index := by
  induction index generalizing as with
  | zero => rfl
  | succ index ih =>
    cases as with
    | nil => simp at h
    | cons first rest => simp [ih (Nat.le_of_succ_le_succ h)]

theorem Body.insert_of_le {body : Body} {index : Nat} (h : index ≤ body.statements.length)
    (node : Node) : body.insert index node =
      (⟨body.statements.take index ++ node :: body.statements.drop index⟩, .ok ()) := by
  rw [Body.insert, if_pos h, insertIdx_eq_take_drop h]

theorem Body.insert_of_lt {body : Body} {index : Nat} (h : body.statements.length < index)
    (node : Node) : body.insert index node =
      (body, .error (.indexOutOfBounds index body.statements.length)) := by
  rw [Body.insert, if_neg (Nat.not_le.2 h)]

/-- A statement that goes in at the end is one that goes in after all others. -/
theorem Body.push_eq_insert (body : Body) (node : Node) :
    body.push node = (body.insert body.statements.length node).1 := by
  rw [insert_of_le (Nat.le_refl _), List.take_length, List.drop_length, push]

theorem Body.sound_insert {body : Body} {node : Node} (hnode : node.Sound) (index : Nat)
    (hbody : (Node.body body).Sound) : (Node.body (body.insert index node).1).Sound := by
  unfold Body.insert
  split
  · next hindex =>
    rw [Node.sound_body] at hbody ⊢
    intro statement hstatement
    rcases (List.mem_insertIdx hindex).1 hstatement with rfl | hstatement
    · exact hnode
    · exact hbody statement hstatement
  · exact hbody

/-- A step keeps the kind of the root and its soundness, refused or not. -/
theorem Step.keeps_next {step : Step} (hsupplied : ∀ value ∈ step.supplied, value.Sound)
    (root : Node) : root.Keeps (step.next root).1 := by
  cases step with
  | set field value => exact Node.keeps_set (hsupplied value (by simp [supplied])) root field
  | setList field values => exact Node.keeps_setList hsupplied root field
  | setOverflow values => exact Node.keeps_setOverflow hsupplied root
  | setComponent axis value =>
    rw [next]
    split
    · next hset => exact Node.keeps_setComponent? (hsupplied value (by simp [supplied])) hset
    · exact .refl root
  | insert address index node =>
    rw [next]
    split
    · next hblock =>
      have hnode := Element.sound_node.1 (hsupplied (.node node) (by simp [supplied]))
      exact Node.keeps_replace hblock (Body.sound_insert hnode index)
    · exact .refl root
  | push address node =>
    rw [next]
    split
    · next body replace hblock =>
      have hnode := Element.sound_node.1 (hsupplied (.node node) (by simp [supplied]))
      rw [Body.push_eq_insert]
      exact Node.keeps_replace hblock (Body.sound_insert hnode _)
    · exact .refl root
  | trace diagnostic =>
    cases root <;> try exact .refl _
    next script => exact script.keeps_announce diagnostic
  -- the other steps only look at the root
  | hasField _ _ | describe _ | render _ => exact .refl root
  | functions => cases root <;> exact .refl _
  | measure _ | component _ =>
    rw [next]
    split <;> exact .refl root

theorem Step.eq_error_of_answer {α : Type} {reply : α → Reply} {result : Except Error α}
    {refusal : Refusal} (h : answer reply result = .error refusal) : ∃ e, result = .error e := by
  cases result with
  | error e => exact ⟨e, rfl⟩
  | ok a => cases h

/-- A step that is refused has changed nothing. -/
theorem Step.next_of_refused {step : Step} {root : Node} {refusal : Refusal}
    (h : (step.next root).2 = .error refusal) : (step.next root).1 = root := by
  cases step with
  | set field value =>
    obtain ⟨e, he⟩ := eq_error_of_answer h
    exact Node.atomic_set root field value e he
  | setList field values =>
    obtain ⟨e, he⟩ := eq_error_of_answer h
    exact Node.atomic_setList root field values e he
  | setOverflow values =>
    obtain ⟨e, he⟩ := eq_error_of_answer h
    exact Node.atomic_setOverflow root values e he
  | insert address index node =>
    rw [next] at h ⊢
    split at h
    · next body replace hblock =>
      obtain ⟨e, he⟩ := eq_error_of_answer h
      dsimp only
      rw [body.atomic_insert index node e he]
      exact Node.replace_self hblock
    · rfl
  | push address node =>
    rw [next] at h ⊢
    split at h
    · cases h
    · rfl
  | setComponent axis value =>
    rw [next] at h ⊢
    split at h
    · cases h
    · rfl
  | trace diagnostic =>
    cases root <;> try rfl
    next script =>
      obtain ⟨e, he⟩ : ∃ e, (script.announce diagnostic).2 = .error e := eq_error_of_answer h
      rw [Script.announce_eq] at he
      cases he
  | hasField _ _ | describe _ | render _ => rfl
  | functions => cases root <;> rfl
  | measure _ | component _ =>
    rw [next]
    split <;> rfl

/-! ## Sessions -/

/-- The root after some steps. -/
def Step.run (root : Node) (steps : List Step) : Node :=
  steps.foldl (fun root step => (step.next root).1) root

theorem Step.keeps_run {steps : List Step}
    (hsupplied : ∀ step ∈ steps, ∀ value ∈ step.supplied, value.Sound) (root : Node) :
    root.Keeps (Step.run root steps) := by
  induction steps generalizing root with
  | nil => exact .refl root
  | cons step steps ih =>
    have hstep := step.keeps_next (hsupplied step (by simp)) root
    have hrest := ih (fun step hstep => hsupplied step (by simp [hstep])) (step.next root).1
    exact hstep.trans hrest

/-- The nodes that a session can start from. -/
inductive Starts : Node → Prop
  | empty (kind : Kind) : Starts kind.empty
  | parsed {source : String} {script : Script} :
    parseScript source = .ok script → Starts (.script script)

theorem Kind.sound_empty (kind : Kind) : kind.empty.Sound := by
  have hproper : kind.empty.Proper := by
    by_cases hkind : kind = .script
    · subst hkind
      exact Node.proper_script nofun
    · exact Node.proper_of_kind_ne_script (by simpa using hkind)
  have hchildren : kind.empty.children = [] := by cases kind <;> rfl
  refine Node.sound_iff.2 ⟨hproper, ?_⟩
  rw [hchildren]
  exact nofun

theorem Starts.sound {root : Node} (h : Starts root) : root.Sound := by
  cases h with
  | empty kind => exact kind.sound_empty
  | @parsed source script h =>
    rcases parseScript_cases source with ⟨_, script', -, hscript, hshaped⟩ | ⟨_, _, _, _, -, herror⟩
    · cases h.symm.trans hscript
      exact Node.sound_of_wellShaped (by rwa [Node.wellShaped])
    · cases h.symm.trans herror

/-- Inserting is refused past the end of the block only, and else changes that block only. -/
theorem Step.insert_next {root : Node} {address : Option Nat} {body : Body}
    (h : root.blockAt? address = some body) (index : Nat) (node : Node) :
    ((∃ refusal, ((Step.insert address index node).next root).2 = .error refusal) ↔
      body.statements.length < index) ∧
    (index ≤ body.statements.length →
      ((Step.insert address index node).next root).1.blockAt? address =
        some ⟨body.statements.take index ++ node :: body.statements.drop index⟩ ∧
      ∀ other ≠ address,
        ((Step.insert address index node).next root).1.blockAt? other = root.blockAt? other) := by
  obtain ⟨⟨body, replace⟩, hblock, rfl⟩ := Option.map_eq_some_iff.1 h
  dsimp only
  rw [next, hblock]
  dsimp only
  by_cases hindex : index ≤ body.statements.length
  · rw [Body.insert_of_le hindex]
    refine ⟨⟨?_, fun h => absurd hindex (Nat.not_le.2 h)⟩, fun _ => ⟨?_, fun other hother => ?_⟩⟩
    · rintro ⟨_, ⟨⟩⟩
    · exact Node.blockAt?_replace hblock _
    · exact Node.blockAt?_replace_of_ne hblock _ hother
  · have hlt := Nat.lt_of_not_le hindex
    rw [Body.insert_of_lt hlt]
    exact ⟨⟨fun _ => hlt, fun _ => ⟨_, rfl⟩⟩, fun h => absurd h hindex⟩

/-- A literal is refused components that are not as many as its axes, and else has just those. -/
theorem Step.setOverflow_next {root : Node} (haxes : root.kind.axes ≠ []) (values : List Element) :
    ((∃ refusal, ((Step.setOverflow values).next root).2 = .error refusal) ↔
      values.length ≠ root.kind.axes.length) ∧
    (values.length = root.kind.axes.length →
      ((Step.setOverflow values).next root).1.components = values) := by
  by_cases hlength : values.length = root.kind.axes.length
  · obtain ⟨haccepted, hcomponents⟩ := Node.components_setOverflow haxes hlength
    refine ⟨⟨?_, fun h => absurd hlength h⟩, fun _ => hcomponents⟩
    rintro ⟨refusal, hrefused⟩
    obtain ⟨e, he⟩ := eq_error_of_answer hrefused
    cases haccepted.symm.trans he
  · rw [next, Node.setOverflow_of_length_ne haxes hlength]
    exact ⟨⟨fun _ => hlength, fun _ => ⟨_, rfl⟩⟩, fun h => absurd h hlength⟩

theorem Step.run_concat (root : Node) (steps : List Step) (step : Step) :
    Step.run root (steps ++ [step]) = (step.next (Step.run root steps)).1 := by
  rw [run, List.foldl_append]
  rfl

/-- What every session keeps, however long: after each of its steps the root is of its kind, and all
the nodes in it are proper; if the step was refused, the root is what it was; a step that inserts
into a block is refused past the end only, and else puts its statement in front of the one that was
there, in that block and no other; and a step that gives a literal its components is refused any but
the right number of them, and else they are what the literal has. -/
theorem Starts.run_keeps {start : Node} (hstart : Starts start) (steps : List Step) (step : Step)
    (hsupplied : ∀ step' ∈ steps ++ [step], ∀ value ∈ step'.supplied, value.Sound) :
    let before := Step.run start steps
    let after := Step.run start (steps ++ [step])
    after.kind = start.kind ∧
    (∀ refusal, (step.next before).2 = .error refusal → after = before) ∧
    (∀ node : Node, node.Within after → node.Proper) ∧
    (∀ address index node body, step = .insert address index node →
      before.blockAt? address = some body →
      ((∃ refusal, (step.next before).2 = .error refusal) ↔ body.statements.length < index) ∧
      (index ≤ body.statements.length →
        after.blockAt? address =
          some ⟨body.statements.take index ++ node :: body.statements.drop index⟩ ∧
        ∀ other ≠ address, after.blockAt? other = before.blockAt? other)) ∧
    ∀ values, step = .setOverflow values → start.kind.axes ≠ [] →
      ((∃ refusal, (step.next before).2 = .error refusal) ↔
        values.length ≠ start.kind.axes.length) ∧
      (values.length = start.kind.axes.length → after.components = values) := by
  intro before after
  have hkeeps : start.Keeps after := Step.keeps_run hsupplied start
  have hafter : after = (step.next before).1 := Step.run_concat start steps step
  refine ⟨hkeeps.kind, fun refusal hrefused => ?_, hkeeps.sound hstart.sound, ?_, ?_⟩
  · rw [hafter]
    exact Step.next_of_refused hrefused
  · rintro address index node body rfl hbody
    rw [hafter]
    exact Step.insert_next hbody index node
  · rintro values rfl haxes
    have hbefore : before.kind = start.kind :=
      (Step.keeps_run (fun step' hstep' => hsupplied step' (by simp [hstep'])) start).kind
    rw [hafter, ← hbefore]
    exact Step.setOverflow_next (by rwa [hbefore]) values

/-- A function comes into an empty script, a statement is refused behind the end of its block, and
another one goes in front. -/
theorem Starts.run_keeps_sample :
    let steps : List Step :=
      [.setList "globals" [.node (.function ⟨none, some "f", [], some ⟨[.jump (some "a")]⟩⟩)],
        .insert (some 0) 2 (.ret none)]
    let step : Step := .insert (some 0) 0 (.label (some "a"))
    Starts Kind.script.empty ∧
    (∀ step' ∈ steps ++ [step], ∀ value ∈ step'.supplied, value.Sound) ∧
    (Step.run Kind.script.empty (steps ++ [step])).kind = .script ∧
    (∀ node : Node, node.Within (Step.run Kind.script.empty (steps ++ [step])) → node.Proper) ∧
    (Step.run Kind.script.empty steps).blockAt? (some 0) = some ⟨[.jump (some "a")]⟩ ∧
    (Step.run Kind.script.empty (steps ++ [step])).blockAt? (some 0) =
      some ⟨[.label (some "a"), .jump (some "a")]⟩ := by
  intro steps step
  have hsupplied : ∀ step' ∈ steps ++ [step], ∀ value ∈ step'.supplied, value.Sound := by
    have hsound {node : Node} (h : node.wellShaped = true) : (Element.node node).Sound :=
      Element.sound_node.2 (Node.sound_of_wellShaped h)
    simp only [steps, step, List.cons_append, List.nil_append, List.forall_mem_cons, Step.supplied,
      List.not_mem_nil, false_implies, implies_true, and_true]
    exact ⟨hsound (by decide), hsound (by decide), hsound (by decide)⟩
  have hblock : (Step.run Kind.script.empty steps).blockAt? (some 0) =
    some ⟨[.jump (some "a")]⟩ := rfl
  obtain ⟨hkind, -, hproper, hinsert, -⟩ := (Starts.empty .script).run_keeps steps step hsupplied
  exact ⟨.empty .script, hsupplied, hkind, hproper, hblock,
    ((hinsert _ _ _ _ rfl hblock).2 (Nat.zero_le _)).1⟩

end Lsl
