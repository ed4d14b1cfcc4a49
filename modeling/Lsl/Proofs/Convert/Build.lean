import Lsl.Proofs.Convert.Item
import Lsl.Proofs.Syntax.Assemble
/-!
# Nodes from their children

The node of each kind that the children from the grammar make up.
-/

namespace Lsl

namespace Rule

/-- The rules of operands, which fill no field of their own name. -/
def isOperand : Rule → Bool
  | .call | .quaternion | .vector | .list | .value | .float | .integer | .string | .ident | .preMod
  | .cast | .postMod => true
  | _ => false

theorem ne_typeName_of_isOperand {r : Rule} (h : r.isOperand = true) : r ≠ .typeName := by
  rintro rfl
  cases h

/-- The rules of the statements of a block. -/
def isStatement : Rule → Bool
  | .variable | .ifElse | .whileLoop | .doLoop | .forLoop | .jump | .label | .ret | .stateChange
  | .expression | .body => true
  | _ => false

end Rule

/-- A single item, if there is an element. -/
def Item.optional (rule : Rule) (element? : Option Element) : List Item :=
  (element?.map (Item.single rule)).toList

@[simp] theorem Item.optional_none (rule : Rule) : Item.optional rule none = [] := rfl

@[simp] theorem Item.optional_some (rule : Rule) (element : Element) :
    Item.optional rule (some element) = [.single rule element] := rfl

/-! ## Lists of elements of one kind -/

theorem mapM_map_eq_ok {α : Type} (f : Element → Except Error α) (g : α → Element)
    (h : ∀ a, f (g a) = .ok a) (as : List α) : (as.map g).mapM f = .ok as := by
  induction as with
  | nil => rfl
  | cons a as ih =>
    rw [List.map_cons, List.mapM_cons, h, ih]
    rfl

theorem expectGlobals_map {globals : List Node} (h : globals.all Node.isGlobal = true) :
    expectGlobals (globals.map .node) = .ok globals := by
  have hnone : globals.find? (!·.isGlobal) = none := by
    rw [List.find?_eq_none]
    intro node hnode
    simp [List.all_eq_true.1 h node hnode]
  unfold expectGlobals
  rw [mapM_map_eq_ok (Element.expectNode .script "globals") .node (fun _ => rfl)]
  dsimp only [bind, Except.bind]
  rw [hnone]
  rfl

/-! ## Filling one field after the other -/

section

variable {node next : Node} {r : Rule} {rest : List Item}

theorem fill_single {element : Element} {old? : Option Element}
    (hlist : node.kind.hasField r.field .list = false)
    (hsingle : node.kind.hasField r.field .single = true)
    (hset : (node.set r.field element).kept = .ok (next, old?)) :
    fill node (.single r element :: rest) = fill next rest := by
  rw [fill, hlist, hsingle, hset]
  rfl

/-- An element without a field of its own goes to the field `value`. -/
theorem fill_value {element : Element} {old? : Option Element}
    (hlist : node.kind.hasField r.field .list = false)
    (hsingle : node.kind.hasField r.field .single = false)
    (hvalue : node.kind.hasField "value" .single = true)
    (hset : (node.set "value" element).kept = .ok (next, old?)) :
    fill node (.single r element :: rest) = fill next rest := by
  rw [fill, hlist, hsingle, hvalue, hset]
  rfl

theorem fill_group {elements old : List Element}
    (hlist : node.kind.hasField r.field .list = true)
    (hset : (node.setList r.field elements).kept = .ok (next, old)) :
    fill node (.group r elements :: rest) = fill next rest := by
  rw [fill, hlist, hset]
  rfl

/-- Elements for which there is no field at all are left over. -/
theorem fill_overflow {items : List (Rule × Element)}
    (hitems : ∀ item ∈ items, node.kind.hasField item.1.field .list = false ∧
      node.kind.hasField item.1.field .single = false)
    (hvalue : node.kind.hasField "value" .single = false) :
    fill node (items.map fun item => .single item.1 item.2) =
      some (node, items.map Prod.snd) := by
  induction items with
  | nil => rfl
  | cons item items ih =>
    obtain ⟨hlist, hsingle⟩ := hitems item List.mem_cons_self
    rw [List.map_cons, fill, hlist, hsingle, hvalue,
      ih fun item hitem => hitems item (List.mem_cons_of_mem _ hitem)]
    rfl

end

/-- The node of a kind without overflow is what its fields are filled with. -/
theorem build_of_fill {kind : Kind} {items : List Item} {node : Node}
    (hkind : kind.acceptsOverflow = false) (h : fill kind.empty items = some (node, [])) :
    build kind items = some node := by
  rw [build, h, hkind]
  rfl

/-! ## Nodes with fields -/

theorem build_type {text : String} {primitive : Primitive}
    (h : Primitive.parse text = .ok primitive) :
    build .type [.single .typeName (.text text)] = some (.type primitive) := by
  have hset : (Kind.type.empty.set "value" (.text text)).kept = .ok (.type primitive, none) := by
    simp only [Kind.empty, Node.set, h]
    rfl
  exact build_of_fill rfl (fill_value rfl rfl rfl hset)

theorem build_param (type : Primitive) (name : String) :
    build .param [.single .type (.ofType type), .single .name (.text name)] =
      some (.param ⟨some type, some name⟩) :=
  rfl

theorem build_function (type? : Option Primitive) (name : String) (params : List Param)
    (body : Body) :
    build .function (Item.optional .type (type?.map .ofType) ++
      [.single .name (.text name), .group .params (params.map fun p => .node (.param p)),
        .single .body (.ofBody body)]) =
      some (.function ⟨type?, some name, params, some body⟩) := by
  have hparams (f : FunctionDef) : ((Node.function f).setList "params"
      (params.map fun p => .node (.param p))).kept =
      .ok (.function { f with params }, f.params.map (.node ∘ .param)) := by
    simp only [Node.setList]
    rw [mapM_map_eq_ok (Element.expectParam .function "params") _ (fun _ => rfl)]
    rfl
  refine build_of_fill rfl ?_
  cases type? with
  | none => exact (fill_single rfl rfl rfl).trans ((fill_group rfl (hparams _)).trans rfl)
  | some type =>
    refine (fill_single rfl rfl rfl).trans ((fill_single rfl rfl rfl).trans ?_)
    exact (fill_group rfl (hparams _)).trans rfl

theorem build_variable (type : Primitive) (name : String) (value? : Option Element) :
    build .variable ([.single .type (.ofType type), .single .name (.text name)] ++
      Item.optional .value value?) = some (.variable (some type) (some name) value?) := by
  cases value? <;> rfl

theorem build_state (name? : Option String) (events : List FunctionDef) :
    build .state (Item.optional .name (name?.map .text) ++
      [.group .events (events.map fun f => .node (.function f))]) =
      some (.state ⟨name?, events⟩) := by
  have hevents (s : State) : ((Node.state s).setList "events"
      (events.map fun f => .node (.function f))).kept =
      .ok (.state { s with events }, s.events.map (.node ∘ .function)) := by
    simp only [Node.setList]
    rw [mapM_map_eq_ok (Element.expectFunction .state "events") _ (fun _ => rfl)]
    rfl
  refine build_of_fill rfl ?_
  cases name? with
  | none => exact (fill_group rfl (hevents _)).trans rfl
  | some name => exact (fill_single rfl rfl rfl).trans ((fill_group rfl (hevents _)).trans rfl)

theorem build_script {globals : List Node} (states : List State)
    (hglobals : globals.all Node.isGlobal = true) :
    build .script [.group .globals (globals.map .node),
      .group .states (states.map fun s => .node (.state s))] =
      some (.script ⟨globals, states⟩) := by
  have hset (s : Script) : ((Node.script s).setList "globals" (globals.map .node)).kept =
      .ok (.script { s with globals }, s.globals.map .node) := by
    simp only [Node.setList]
    rw [expectGlobals_map hglobals]
    rfl
  have hstates (s : Script) : ((Node.script s).setList "states"
      (states.map fun s => .node (.state s))).kept =
      .ok (.script { s with states }, s.states.map (.node ∘ .state)) := by
    simp only [Node.setList]
    rw [mapM_map_eq_ok (Element.expectState .script "states") _ (fun _ => rfl)]
    rfl
  refine build_of_fill rfl ?_
  exact (fill_group rfl (hset _)).trans ((fill_group rfl (hstates _)).trans rfl)

theorem build_stateChange (target? : Option String) :
    build .stateChange (Item.optional .name (target?.map .text)) =
      some (.stateChange target?) := by
  cases target? <;> rfl

theorem build_jump (target : String) :
    build .jump [.single .name (.text target)] = some (.jump (some target)) := rfl

theorem build_label (target : String) :
    build .label [.single .name (.text target)] = some (.label (some target)) := rfl

theorem build_ret (value? : Option Element) :
    build .ret (Item.optional .value value?) = some (.ret value?) := by
  cases value? <;> rfl

theorem build_call (name : String) (arguments : List Element) :
    build .call [.single .name (.text name), .group .arguments arguments] =
      some (.call (some name) arguments) := rfl

theorem build_ifElse (condition : Node) (body : Body) (else? : Option Node) :
    build .ifElse ([.single .condition (.node condition), .single .body (.ofBody body)] ++
      Item.optional .elseBranch (else?.map .node)) =
      some (.ifElse (some condition) (some body) else?) := by
  cases else? <;> rfl

theorem build_whileLoop (condition : Node) (body : Body) :
    build .whileLoop [.single .condition (.node condition), .single .body (.ofBody body)] =
      some (.whileLoop (some condition) (some body)) := rfl

theorem build_doLoop (condition : Node) (body : Body) :
    build .doLoop [.single .body (.ofBody body), .single .condition (.node condition)] =
      some (.doLoop (some condition) (some body)) := rfl

theorem build_forLoop (precommands loopcommands : List Node) (condition? : Option Node)
    (body : Body) :
    build .forLoop ([.group .precommands (precommands.map .node)] ++
      Item.optional .condition (condition?.map .node) ++
      [.group .loopcommands (loopcommands.map .node), .single .body (.ofBody body)]) =
      some (.forLoop precommands condition? loopcommands (some body)) := by
  have hpre (pre loop : List Node) (c? : Option Node) (b? : Option Body) :
      ((Node.forLoop pre c? loop b?).setList "precommands" (precommands.map .node)).kept =
      .ok (.forLoop precommands c? loop b?, pre.map .node) := by
    simp only [Node.setList]
    rw [mapM_map_eq_ok (Element.expectNode .forLoop "precommands") _ (fun _ => rfl)]
    rfl
  have hloop (pre loop : List Node) (c? : Option Node) (b? : Option Body) :
      ((Node.forLoop pre c? loop b?).setList "loopcommands" (loopcommands.map .node)).kept =
      .ok (.forLoop pre c? loopcommands b?, loop.map .node) := by
    simp only [Node.setList]
    rw [mapM_map_eq_ok (Element.expectNode .forLoop "loopcommands") _ (fun _ => rfl)]
    rfl
  refine build_of_fill rfl ?_
  cases condition? with
  | none =>
    exact (fill_group rfl (hpre ..)).trans ((fill_group rfl (hloop ..)).trans rfl)
  | some condition =>
    refine (fill_group rfl (hpre ..)).trans ((fill_single rfl rfl rfl).trans ?_)
    exact (fill_group rfl (hloop ..)).trans rfl

theorem build_cast (type : Primitive) {r : Rule} (hr : r.isOperand = true) (value : Element) :
    build .cast [.single .type (.ofType type), .single r value] =
      some (.cast (some type) (some value)) := by
  cases r <;> first | rfl | cases hr

theorem build_preMod (symbol : String) {r : Rule} (hr : r.isOperand = true) (value : Element) :
    build .preMod [.single .operator (.text symbol), .single r value] =
      some (.preMod (some symbol) (some value)) := by
  cases r <;> first | rfl | cases hr

theorem build_postMod (symbol : String) {r : Rule} (hr : r = .member ∨ r = .ident)
    (value : Element) :
    build .postMod [.single r value, .single .operator (.text symbol)] =
      some (.postMod (some symbol) (some value)) := by
  rcases hr with rfl | rfl <;> rfl

/-! ## Nodes with an overflow list -/

theorem build_overflow (kind : Kind) (items : List (Rule × Element))
    (hitems : ∀ item ∈ items, kind.hasField item.1.field .list = false ∧
      kind.hasField item.1.field .single = false)
    (hvalue : kind.hasField "value" .single = false) (hkind : kind.acceptsOverflow = true) :
    build kind (items.map fun item => .single item.1 item.2) =
      (Prod.fst <$> (kind.empty.setOverflow (items.map Prod.snd)).kept).toOption := by
  rw [build, fill_overflow (by rwa [Kind.kind_empty]) (by rwa [Kind.kind_empty]), hkind]
  rfl

theorem build_body (statements : List (Rule × Node)) :
    build .body (statements.map fun item => .single item.1 (.node item.2)) =
      some (.body ⟨statements.map Prod.snd⟩) := by
  have h := build_overflow .body (statements.map fun item => (item.1, Element.node item.2))
    (fun _ _ => ⟨rfl, rfl⟩) rfl rfl
  rw [List.map_map, List.map_map] at h
  refine h.trans ?_
  have hnodes : statements.map (Prod.snd ∘ fun item => (item.1, Element.node item.2)) =
      (statements.map Prod.snd).map .node := by
    rw [List.map_map]
    rfl
  rw [hnodes]
  simp only [Kind.empty, Node.setOverflow]
  rw [mapM_map_eq_ok (Element.expectNode .body "statements") _ (fun _ => rfl)]
  rfl

theorem build_list (values : List Element) :
    build .list (values.map (.single .value)) = some (.list values) := by
  have h := build_overflow .list (values.map fun value => (.value, value))
    (fun _ _ => ⟨rfl, rfl⟩) rfl rfl
  rw [List.map_map, List.map_map] at h
  refine h.trans ?_
  simp only [Kind.empty, Node.setOverflow, Function.comp_def, List.map_id']
  rfl

theorem build_vector (x y z : Element) :
    build .vector [.single .value x, .single .value y, .single .value z] =
      some (.vector x y z) := rfl

theorem build_quaternion (x y z s : Element) :
    build .quaternion [.single .value x, .single .value y, .single .value z, .single .value s] =
      some (.quaternion x y z s) := rfl

/-- The items of a run of operands and operators. -/
def Item.ofRun (first : Rule × Element) (rounds : List (Rule × String × Element)) : List Item :=
  .single first.1 first.2 ::
    rounds.flatMap fun round => [.single .operator (.text round.2.1), .single round.1 round.2.2]

/-- The expression node of a kind that holds an operation. -/
def Operation.toNode (operation : Operation) : Kind → Node
  | .expression => .expression operation
  | .condition => .condition operation
  | _ => .value operation

theorem build_operation {kind : Kind} (hkind : kind.isExpression = true)
    {first : Rule × Element} {rounds : List (Rule × String × Element)}
    (hfirst : first.1.isOperand = true)
    (hrounds : rounds.all (fun round => round.1.isOperand) = true) {o : Operation}
    (h : assemble (flatRun first.2 (rounds.map Prod.snd)) = .ok o) :
    build kind (Item.ofRun first rounds) = some (o.toNode kind) := by
  let run : List (Rule × Element) := first :: rounds.flatMap fun round =>
    [(.operator, .text round.2.1), (round.1, round.2.2)]
  have hrun : Item.ofRun first rounds = run.map fun item => .single item.1 item.2 := by
    simp [run, Item.ofRun, List.map_flatMap]
  have helements : run.map Prod.snd = flatRun first.2 (rounds.map Prod.snd) := by
    simp [run, flatRun, List.map_flatMap, List.flatMap_map]
  -- No operand, and no operator, has the name of a field of an expression.
  have hoperand {r : Rule} (hr : r.isOperand = true) :
      kind.hasField r.field .list = false ∧ kind.hasField r.field .single = false := by
    cases kind <;> first | (cases hkind; done) | (cases r <;> first | (cases hr; done) | decide)
  have hoperator : kind.hasField Rule.operator.field .list = false ∧
      kind.hasField Rule.operator.field .single = false := by
    cases kind <;> first | (cases hkind; done) | decide
  have hitems : ∀ item ∈ run, kind.hasField item.1.field .list = false ∧
      kind.hasField item.1.field .single = false := by
    intro item hitem
    rcases List.mem_cons.1 hitem with rfl | hitem
    · exact hoperand hfirst
    · obtain ⟨round, hround, hitem⟩ := List.mem_flatMap.1 hitem
      rcases List.mem_cons.1 hitem with rfl | hitem
      · exact hoperator
      · rw [List.mem_singleton.1 hitem]
        exact hoperand (List.all_eq_true.1 hrounds round hround)
  rw [hrun]
  cases kind <;> first | (cases hkind; done) | skip
  all_goals
    rw [build_overflow _ run hitems rfl rfl, helements]
    simp only [Kind.empty, Node.setOverflow, h]
    rfl

/-- The words of a run are those of its elements. -/
theorem Item.lexemes_ofRun {first : Rule × Element} {rounds : List (Rule × String × Element)}
    (hfirst : first.1.isOperand = true)
    (hrounds : rounds.all (fun round => round.1.isOperand) = true) :
    (Item.ofRun first rounds).flatMap Item.lexemes =
      (flatRun first.2 (rounds.map Prod.snd)).flatMap Element.lexemes := by
  have hoperand {r : Rule} (hr : r.isOperand = true) (element : Element) :
      (Item.single r element).lexemes = element.lexemes :=
    Item.lexemes_single (Rule.ne_typeName_of_isOperand hr) element
  rw [Item.ofRun, flatRun, List.flatMap_cons, List.flatMap_cons, hoperand hfirst, List.flatMap_map]
  congr 1
  induction rounds with
  | nil => rfl
  | cons round rounds ih =>
    rw [List.all_cons, Bool.and_eq_true] at hrounds
    simp only [List.flatMap_cons, List.flatMap_append, List.flatMap_nil, List.append_nil,
      hoperand hrounds.1, ih hrounds.2]
    rfl

theorem Operation.lexemes_toNode (operation : Operation) (kind : Kind) :
    (operation.toNode kind).lexemes = operation.lexemes := by
  cases kind <;> rw [Operation.toNode, Node.lexemes] <;> rintro ⟨⟩

end Lsl
