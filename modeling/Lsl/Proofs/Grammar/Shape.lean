import Lsl.Proofs.Convert.Build
import Lsl.Proofs.Grammar.Gap
/-!
# The shape of what the grammar yields

What each rule of the grammar yields once it is converted: every match of a rule shows items of one
form, and every node among them is well shaped.  The induction is over matches; its step is one lemma
for each rule.
-/

namespace Lsl.Rule

open Peg Pattern Lexeme

/-! ## The form of each rule -/

/-- The texts of the rules without parts. -/
def isText : Rule → String → Bool
  | .typeName, text => typeNames.contains text
  | .name, text | .ident, text => isName text.toList
  | .member, text => isMember text.toList
  | .float, text => isFloat text.toList
  | .integer, text => isInteger text.toList
  | .string, text => isString text.toList
  | _, _ => true

/-- An operator that can stand at a cursor as a binary one: inside the last component of a literal
it does not close the literal. -/
def Fits (c : Cursor) (symbol : String) : Prop :=
  (Level.of? symbol).isSome = true ∧
    (c.stack.head? = some ['>'] → isClosingOperator symbol = false)

/-- After the gap an equals sign comes next. -/
def BeforeEquals (c : Cursor) : Prop :=
  ∃ c₁ rest, grammar.Skips c c₁ ∧ c₁.rest = '=' :: rest

/-- The items that a match of a rule shows. -/
def Form (r : Rule) (c c' : Cursor) (items : List Item) : Prop :=
  match r with
  | .typeName | .name | .ident | .member | .float | .integer | .string =>
    ∃ text, r.isText text = true ∧ items = [.single r (.text text)]
  | .operator => ∃ symbol, (operators.find? fun word => word.toList.isPrefixOf c.rest) = some symbol ∧
      c.Spans symbol.toList c' ∧ items = [.single .operator (.text symbol)]
  | .type => ∃ primitive : Primitive, primitive.isVoid = false ∧
      items = [.single .type (.ofType primitive)]
  | .param => ∃ param : Param, param.wellShaped = true ∧
      items = [.single .param (.node (.param param))]
  | .params => ∃ params : List Param, (∀ param ∈ params, param.wellShaped = true) ∧
      items = [.group .params (params.map fun p => .node (.param p))]
  | .function => ∃ function : FunctionDef, function.wellShaped = true ∧
      items = [.single .function (.node (.function function))]
  | .events => ∃ events : List FunctionDef, (∀ function ∈ events, function.wellShaped = true) ∧
      items = [.group .events (events.map fun f => .node (.function f))]
  | .state => ∃ state : State, state.wellShaped = true ∧
      items = [.single .state (.node (.state state))]
  | .states => ∃ states : List State, (∀ state ∈ states, state.wellShaped = true) ∧
      items = [.group .states (states.map fun s => .node (.state s))]
  | .globals => ∃ globals : List Node,
      (∀ node ∈ globals, node.kind.isGlobal = true ∧ node.wellShaped = true) ∧
      items = [.group .globals (globals.map .node)]
  | .body | .elseBranch => ∃ body : Body, body.wellShaped = true ∧
      items = [.single r (.ofBody body)]
  | .statement | .simpleStatement => ∃ nodes : List (Rule × Node),
      (∀ item ∈ nodes, item.2.kind.isStatement = true ∧ item.2.wellShaped = true) ∧
      items = nodes.map fun item => .single item.1 (.node item.2)
  | .precommands | .loopcommands => ∃ commands : List Operation,
      (∀ command ∈ commands, command.wellShaped = true) ∧
      items = [.group r (commands.map fun o => .node (.expression o))]
  | .arguments => ∃ values : List Operation, (∀ value ∈ values, value.wellShaped = true) ∧
      items = [.group .arguments (values.map fun o => .node (.value o))]
  | .value => ∃ o : Operation, o.wellShaped = true ∧
      (c.stack.head? = some ['>'] → o.fitsLast = true) ∧ items = [.single .value (.node (.value o))]
  | .expression => ∃ o : Operation, o.wellShaped = true ∧
      items = [.single .expression (.node (.expression o))]
  | .condition => ∃ o : Operation, o.wellShaped = true ∧
      items = [.single .condition (.node (.condition o))]
  | .operand | .primary => ∃ r' element, Rule.isOperand r' = true ∧
      element.isPlainOperand = true ∧ items = [.single r' element] ∧
      ∃ x rest, c.rest = x :: rest ∧ startsOperand x = true
  | .binaryOperator => ∃ symbol, items = [.single .operator (.text symbol)] ∧
      (grammar.Skips c c → Fits c symbol ∨ BeforeEquals c')
  | .variable | .ifElse | .whileLoop | .doLoop | .forLoop | .jump | .label | .ret | .stateChange
  | .preMod | .postMod | .cast | .call | .quaternion | .vector | .list =>
    ∃ node : Node, r.kind? = some node.kind ∧ node.wellShaped = true ∧
      items = [.single r (.node node)]
  | _ => True

/-- What a match of a rule means: the stack is unchanged, and the items have the form of the rule. -/
def Shape (r : Rule) : Meaning Item := fun c c' items =>
  c'.stack = c.stack ∧ r.Form c c' items

/-! ## Lists of items -/

/-- Items that stand for things with a property, one item each. -/
def ListOf {α : Type} (P : α → Prop) (f : α → Item) (items : List Item) : Prop :=
  ∃ as : List α, (∀ a ∈ as, P a) ∧ items = as.map f

section

variable {α : Type} {P : α → Prop} {f : α → Item} {c c' : Cursor} {items items' : List Item}

theorem ListOf.nil : ListOf P f [] :=
  ⟨[], nofun, rfl⟩

theorem ListOf.append (h : ListOf P f items) (h' : ListOf P f items') :
    ListOf P f (items ++ items') := by
  obtain ⟨as, has, rfl⟩ := h
  obtain ⟨bs, hbs, rfl⟩ := h'
  refine ⟨as ++ bs, fun a ha => ?_, List.map_append.symm⟩
  rcases List.mem_append.1 ha with ha | ha
  · exact has a ha
  · exact hbs a ha

theorem listOf_rounds {m : Meaning Item} (hm : ∀ c c' items, m c c' items → ListOf P f items)
    (h : Rounds grammar m c c' items) : ListOf P f items := by
  induction h with
  | done => exact .nil
  | round _ hround _ ih => exact (hm _ _ _ hround).append ih

theorem listOf_star {p : Pattern Rule}
    (hp : ∀ c c' items, p.Yields grammar Shape c c' items → ListOf P f items)
    (h : (star p).Yields grammar Shape c c' items) : ListOf P f items := by
  obtain ⟨-, rfl⟩ | ⟨_, _, _, hfirst, hrounds, rfl⟩ := h
  · exact .nil
  · exact (hp _ _ _ hfirst).append (listOf_rounds hp hrounds)

theorem listOf_commaSeparated {r : Rule}
    (hr : ∀ c c' items, r.Shape c c' items → ListOf P f items)
    (h : (commaSeparated (.rule r)).Yields grammar Shape c c' items) : ListOf P f items := by
  obtain ⟨_, _, _, _, hfirst, -, hrest, rfl⟩ | ⟨-, rfl⟩ := h
  · refine (hr _ _ _ hfirst).append (listOf_star (fun _ _ _ hnext => ?_) hrest)
    obtain ⟨_, _, _, _, ⟨-, rfl⟩, -, hnext, rfl⟩ := hnext
    exact hr _ _ _ hnext
  · exact .nil

end

/-! ## Operators -/

/-- A lookahead for a missing equals sign fails only where one comes after the gap. -/
theorem beforeEquals_of_fail {c c₁ : Cursor} {p : Pattern Rule} {us : List (ParseTree Rule)}
    (h : Derives grammar false (cat [p, notAhead (word "=")]) c none)
    (hp : Derives grammar false p c (some (c₁, us))) : BeforeEquals c₁ := by
  rcases h.of_seq_fail with hnone | ⟨_, _, hsome, hgap | ⟨c₂, _, hgap, hnone⟩⟩
  · cases hp.unique hnone
  · exact absurd hgap not_gap_fail
  · cases hp.unique hsome
    obtain ⟨⟨c₃, ts⟩, hequals⟩ := hnone.of_notAhead_fail
    have hspans := (Cursor.accept?_eq_some hequals.of_lit).1
    exact ⟨c₂, c₃.rest, ⟨_, hgap⟩, hspans.1⟩

/-- The operators that have no level of their own. -/
theorem level_of_operator {symbol : String} (h : symbol ∈ operators) :
    (Level.of? symbol).isSome = true ∨ symbol = "++" ∨ symbol = "--" ∨ symbol = "~" ∨
      symbol = "!" := by
  revert symbol
  decide

/-- Where the closing angle does not close a literal, an equals sign comes after the gap, and so the
operator there is not a shift. -/
theorem beforeEquals_of_closing {c c' : Cursor} {symbol : String}
    (hclosing : Derives grammar false (.rule .closingAngle) c none)
    (htop : c.stack.head? = some ['>']) (hspans : c.Spans symbol.toList c')
    (hstack : c'.stack = c.stack) (hsymbol : isClosingOperator symbol = true) :
    BeforeEquals c' := by
  obtain ⟨below, hbelow⟩ : ∃ below, c.stack = ['>'] :: below := by
    cases hc : c.stack with
    | nil => rw [hc] at htop; cases htop
    | cons top below =>
      rw [hc] at htop
      cases htop
      exact ⟨below, rfl⟩
  obtain ⟨rest, hrest⟩ : ∃ rest, symbol.toList = '>' :: rest := by
    simp only [isClosingOperator, Bool.or_eq_true, beq_iff_eq] at hsymbol
    rcases hsymbol with rfl | rfl
    · exact ⟨[], rfl⟩
    · exact ⟨['>'], rfl⟩
  let c₁ : Cursor := ⟨c.position + 1, rest ++ c'.rest, c.stack⟩
  have hspans₁ : c.Spans ['>'] c₁ := by
    refine ⟨?_, rfl⟩
    rw [hspans.1, hrest]
    rfl
  have hpeek : Derives grammar false peek c (some (c₁, [])) := by
    have hstep : Derives grammar false peek c _ := .step rfl
    have haccept : c.accept? ['>'] = some c₁ := Cursor.accept?_of_spans hspans₁ rfl
    rw [Cursor.acceptTop?, hbelow] at hstep
    dsimp only at hstep
    rwa [haccept] at hstep
  have hbefore := beforeEquals_of_fail (hclosing.of_silent rfl) hpeek
  simp only [isClosingOperator, Bool.or_eq_true, beq_iff_eq] at hsymbol
  rcases hsymbol with rfl | rfl
  · have : c₁ = c' := hspans₁.unique hspans hstack.symm
    rwa [this] at hbefore
  · -- The second angle stands where the equals sign would have to.
    cases hrest
    obtain ⟨c₂, rest, hskips, hequals⟩ := hbefore
    have hsolid : grammar.Skips c₁ c₁ := skips_solid ⟨stops_cons.2 rfl, rfl⟩
    rw [← hsolid.unique hskips] at hequals
    cases hequals

/-- The lookaheads in front of a binary operator leave only operators with a level, except in front
of an equals sign, which no operand starts with. -/
theorem fits_or_beforeEquals {c c' : Cursor} {symbol : String}
    (hclosing : Derives grammar false (.rule .closingAngle) c none)
    (hunary : Derives grammar false (oneOf [word "++", word "--", word "~",
      cat [word "!", notAhead (word "=")]]) c none)
    (hmem : symbol ∈ operators) (hspans : c.Spans symbol.toList c') (hstack : c'.stack = c.stack) :
    Fits c symbol ∨ BeforeEquals c' := by
  have hlit : Derives grammar false (.lit symbol.toList) c (some (c', [])) :=
    .lit hspans hstack
  obtain ⟨hinc, hunary⟩ := hunary.of_alt_fail
  obtain ⟨hdec, hunary⟩ := hunary.of_alt_fail
  obtain ⟨htilde, hbang⟩ := hunary.of_alt_fail
  rcases level_of_operator hmem with hlevel | rfl | rfl | rfl | rfl
  · by_cases htop : c.stack.head? = some ['>']
    · cases hc : isClosingOperator symbol with
      | false => exact .inl ⟨hlevel, fun _ => hc⟩
      | true => exact .inr (beforeEquals_of_closing hclosing htop hspans hstack hc)
    · exact .inl ⟨hlevel, fun h => absurd h htop⟩
  · cases hlit.unique hinc
  · cases hlit.unique hdec
  · cases hlit.unique htilde
  · exact .inr (beforeEquals_of_fail hbang hlit)

theorem form_binaryOperator {c c' : Cursor} {items : List Item}
    (h : (pattern .binaryOperator).Yields grammar Shape c c' items) :
    Form .binaryOperator c c' items := by
  simp only [pattern, cat, Yields] at h
  obtain ⟨_, _, _, _, ⟨hclosing, rfl, rfl⟩, hskips, ⟨_, _, _, _, ⟨hunary, rfl, rfl⟩, hskips',
    ⟨hstack, symbol, hfind, hspans, rfl⟩, rfl⟩, rfl⟩ := h
  refine ⟨symbol, rfl, fun hsolid => ?_⟩
  cases hsolid.unique hskips
  cases hsolid.unique hskips'
  exact fits_or_beforeEquals hclosing hunary (List.mem_of_find?_eq_some hfind) hspans hstack

/-! ## Operations -/

/-- A round of an operation: an operator that fits, and an operand. -/
theorem round_of_yields {c c' : Cursor} {items : List Item} (hsolid : grammar.Skips c c)
    (h : (cat [.rule .binaryOperator, .rule .operand]).Yields grammar Shape c c' items) :
    c'.stack = c.stack ∧ ∃ round : Rule × String × Element, round.1.isOperand = true ∧
      Fits c round.2.1 ∧ round.2.2.isPlainOperand = true ∧
      items = [.single .operator (.text round.2.1), .single round.1 round.2.2] := by
  obtain ⟨c₁, c₂, _, _, ⟨hstack₁, symbol, rfl, hfits⟩, hskips, ⟨hstack₂, r, element, hr, helement,
    rfl, x, rest, hrest, hx⟩, rfl⟩ := h
  refine ⟨by rw [hstack₂, skips_stack hskips, hstack₁], (r, symbol, element), hr, ?_, helement, rfl⟩
  rcases hfits hsolid with hfits | ⟨c₃, rest', hskips', hequals⟩
  · exact hfits
  · -- No operand starts with the equals sign.
    cases hskips.unique hskips'
    rw [hequals] at hrest
    cases hrest
    cases hx

/-- The items of further rounds of an operation. -/
theorem rounds_of_yields {c c' : Cursor} {items : List Item}
    (h : Rounds grammar ((cat [.rule .binaryOperator, .rule .operand]).Yields grammar Shape)
      c c' items) :
    ∃ rounds : List (Rule × String × Element), rounds.all (fun round => round.1.isOperand) = true ∧
      wellShapedRounds (rounds.map Prod.snd) = true ∧
      (c.stack.head? = some ['>'] →
        (rounds.map Prod.snd).all (fun round => !isClosingOperator round.1) = true) ∧
      items = rounds.flatMap fun round =>
        [.single .operator (.text round.2.1), .single round.1 round.2.2] := by
  induction h with
  | done => exact ⟨[], rfl, rfl, fun _ => rfl, rfl⟩
  | round hskips hround _ ih =>
    obtain ⟨hstack, round, hr, hfits, helement, rfl⟩ := round_of_yields (skips_idem hskips) hround
    obtain ⟨rounds, hrs, hshaped, hfit, rfl⟩ := ih
    rw [hstack, skips_stack hskips] at hfit
    rw [Fits, skips_stack hskips] at hfits
    refine ⟨round :: rounds, ?_, ?_, fun htop => ?_, rfl⟩
    · rw [List.all_cons, hr, hrs]
      rfl
    · rw [List.map_cons, wellShapedRounds, List.all_cons, hfits.1, helement]
      exact hshaped
    · rw [List.map_cons, List.all_cons, hfits.2 htop]
      exact hfit htop

/-- The items of an operation: an operand, and then rounds, none of which has an operator that closes
the literal that the operation is the last component of. -/
theorem run_of_yields {c c' : Cursor} {items : List Item}
    (h : operationPattern.Yields grammar Shape c c' items) :
    ∃ (first : Rule × Element) (rounds : List (Rule × String × Element)),
      first.1.isOperand = true ∧ first.2.isPlainOperand = true ∧
      rounds.all (fun round => round.1.isOperand) = true ∧
      wellShapedRounds (rounds.map Prod.snd) = true ∧
      (c.stack.head? = some ['>'] →
        (rounds.map Prod.snd).all (fun round => !isClosingOperator round.1) = true) ∧
      items = .single first.1 first.2 :: rounds.flatMap fun round =>
        [.single .operator (.text round.2.1), .single round.1 round.2.2] := by
  simp only [operationPattern, cat] at h
  obtain ⟨c₁, c₂, _, items, ⟨hstack, r, element, hr, helement, rfl, -⟩, hskips, hrounds, rfl⟩ := h
  -- The first round of the repetition is like the further ones.
  have hall : Rounds grammar ((cat [.rule .binaryOperator, .rule .operand]).Yields grammar Shape)
      c₂ c' items := by
    rcases hrounds with ⟨rfl, rfl⟩ | ⟨_, _, _, hround, hrounds, rfl⟩
    · exact .done
    · exact .round (skips_idem hskips) hround hrounds
  obtain ⟨rounds, hrs, hshaped, hfit, rfl⟩ := rounds_of_yields hall
  rw [skips_stack hskips, hstack] at hfit
  exact ⟨(r, element), rounds, hr, helement, hrs, hshaped, hfit, rfl⟩

/-- An operation is converted to a well-shaped node. -/
theorem built_operation (kind : Kind) (hkind : kind.isExpression = true) {c c' : Cursor}
    {items : List Item} (h : operationPattern.Yields grammar Shape c c' items) :
    ∃ o : Operation, o.wellShaped = true ∧ (c.stack.head? = some ['>'] → o.fitsLast = true) ∧
      build kind items = some (o.toNode kind) ∧
      (o.toNode kind).lexemes = items.flatMap Item.lexemes := by
  obtain ⟨first, rounds, hr, helement, hrs, hshaped, hfit, rfl⟩ := run_of_yields h
  obtain ⟨o, ho, hwell, hlast⟩ := assemble_flatRun helement hshaped
  refine ⟨o, hwell, fun htop => hlast (hfit htop), ?_, ?_⟩
  · exact @build_operation kind hkind first rounds hr hrs o ho
  · rw [o.lexemes_toNode, lexemes_assemble _ ho]
    exact (@Item.lexemes_ofRun first rounds hr hrs).symm

/-! ## Operands -/

theorem level?_eq_none_of_text {text : String} (h : isOperandText text = true) :
    Level.of? text = none := by
  cases hlevel : Level.of? text with
  | none => rfl
  | some level =>
    have hmem : text ∈ level.operators := by
      simpa using List.find?_some hlevel
    have hall : ∀ level ∈ Level.all, ∀ symbol ∈ level.operators,
        isOperandText symbol = false := by decide
    rw [hall level level.mem_all text hmem] at h
    cases h

theorem plainOperand_of_text {text : String} (h : isOperandText text = true) :
    (Element.text text).isPlainOperand = true := by
  rw [Element.isPlainOperand, Element.level?_text, level?_eq_none_of_text h,
    Element.isWellShapedOperand, h]
  rfl

theorem plainOperand_of_node {r : Rule} {node : Node} (hr : r.isOperand = true)
    (hkind : r.kind? = some node.kind) (h : node.wellShaped = true) :
    (Element.node node).isPlainOperand = true := by
  have hoperand : node.kind.isOperand = true := by
    have hall : ∀ kind, r.kind? = some kind → kind.isOperand = true := by
      intro kind hk
      cases r <;> first | (cases hr; done) | (cases hk; done) | (cases hk; rfl)
    exact hall _ hkind
  rw [Element.isPlainOperand, Element.isWellShapedOperand, hoperand, h]
  rfl

/-- The operator found at a prefix modifier. -/
theorem prefixOperators_of_find {rest : List Char} {symbol word : String}
    (hword : word ∈ ["++", "--", "!", "~", "-"]) (hrest : ∃ tail, rest = word.toList ++ tail)
    (hfind : (operators.find? fun text => text.toList.isPrefixOf rest) = some symbol) :
    symbol ∈ prefixOperators := by
  obtain ⟨tail, rfl⟩ := hrest
  have hmem := List.mem_of_find?_eq_some hfind
  have hhead : symbol.toList.head? = word.toList.head? := by
    have hhead : symbol.toList.isPrefixOf (word.toList ++ tail) = true := by
      simpa using List.find?_some hfind
    obtain ⟨tail', htail⟩ := List.isPrefixOf_iff_prefix.1 hhead
    have hne : ∀ word ∈ ["++", "--", "!", "~", "-"], word.toList ≠ [] := by decide
    have hne' : ∀ symbol ∈ operators, symbol.toList ≠ [] := by decide
    have := congrArg List.head? htail
    rwa [List.head?_append_of_ne_nil _ (hne' symbol hmem),
      List.head?_append_of_ne_nil _ (hne word hword)] at this
  by_cases hinc : word = "++"
  · subst hinc
    cases hfind
    decide
  · have hall : ∀ word ∈ ["++", "--", "!", "~", "-"], ∀ symbol ∈ operators,
        symbol.toList.head? = word.toList.head? → word ≠ "++" →
        symbol ∈ prefixOperators := by decide
    exact hall word hword symbol hmem hhead hinc

theorem postfixOperators_of_find {rest : List Char} {symbol word : String}
    (hword : word ∈ ["++", "--"]) (hrest : ∃ tail, rest = word.toList ++ tail)
    (hfind : (operators.find? fun text => text.toList.isPrefixOf rest) = some symbol) :
    symbol ∈ postfixOperators := by
  obtain ⟨tail, rfl⟩ := hrest
  simp only [List.mem_cons, List.not_mem_nil, or_false] at hword
  rcases hword with rfl | rfl <;> cases hfind <;> decide

/-! ## Nodes of the other kinds -/

section

variable {c c' : Cursor} {items : List Item}

/-- The items build a well-shaped node of a kind, which has all their words in order. -/
def Builds (kind : Kind) (items : List Item) : Prop :=
  ∃ node, build kind items = some node ∧ node.kind = kind ∧ node.wellShaped = true ∧
    node.lexemes = items.flatMap Item.lexemes

theorem parse_typeName {text : String} (h : typeNames.contains text = true) :
    ∃ primitive, Primitive.parse text = .ok primitive ∧ primitive.isVoid = false := by
  rw [List.contains_iff_mem] at h
  simp only [typeNames, List.mem_cons, List.not_mem_nil, or_false] at h
  rcases h with rfl | rfl | rfl | rfl | rfl | rfl | rfl | rfl <;> exact ⟨_, rfl, rfl⟩

theorem builds_variable (h : (pattern .variable).Yields grammar Shape c c' items) :
    Builds .variable items := by
  obtain ⟨_, _, _, _, ⟨-, type, htype, rfl⟩, -, h₁, rfl⟩ := h.splitRule
  obtain ⟨_, _, _, _, ⟨-, name, hname, rfl⟩, -, h₂, rfl⟩ := h₁.splitRule
  obtain ⟨_, _, _, _, hvalue, -, h₃, rfl⟩ := h₂.split
  cases h₃.eq_nil rfl
  have hname : isName name.toList = true := hname
  rcases hvalue with hvalue | hvalue
  · obtain ⟨_, _, -, hvalue⟩ := hvalue.skip rfl
    obtain ⟨-, o, ho, -, rfl⟩ := hvalue
    refine ⟨_, build_variable type name (some (.node (.value o))), rfl, ?_, ?_⟩
    · simp [Node.wellShaped, typed, htype, named, hname, Element.isWellShapedValue, ho]
    · simp [Node.lexemes]
  · cases hvalue.eq_nil rfl
    refine ⟨_, build_variable type name none, rfl, ?_, ?_⟩
    · simp [Node.wellShaped, typed, htype, named, hname]
    · simp [Node.lexemes]

theorem builds_param (h : (pattern .param).Yields grammar Shape c c' items) :
    ∃ param, build .param items = some (.param param) ∧ param.wellShaped = true ∧
      param.lexemes = items.flatMap Item.lexemes := by
  obtain ⟨_, _, _, _, ⟨-, type, htype, rfl⟩, -, ⟨-, name, hname, rfl⟩, rfl⟩ := h.splitRule
  have hname : isName name.toList = true := hname
  refine ⟨_, build_param type name, ?_, ?_⟩
  · simp [Param.wellShaped, typed, htype, named, hname]
  · simp [Param.lexemes]

theorem builds_function (h : (pattern .function).Yields grammar Shape c c' items) :
    ∃ function, build .function items = some (.function function) ∧
      function.wellShaped = true ∧ function.lexemes = items.flatMap Item.lexemes := by
  obtain ⟨_, _, _, _, htype, -, h₁, rfl⟩ := h.split
  obtain ⟨_, _, _, _, ⟨-, name, hname, rfl⟩, -, h₂, rfl⟩ := h₁.splitRule
  obtain ⟨_, _, -, h₃⟩ := h₂.skip rfl
  obtain ⟨_, _, _, _, ⟨-, params, hparams, rfl⟩, -, h₄, rfl⟩ := h₃.splitRule
  obtain ⟨_, _, -, h₅⟩ := h₄.skip rfl
  obtain ⟨_, _, -, h₆⟩ := h₅.skip rfl
  obtain ⟨-, body, hbody, rfl⟩ := h₆
  have hname : isName name.toList = true := hname
  have hparams : params.all Param.wellShaped = true := List.all_eq_true.2 hparams
  rcases htype with ⟨-, type, htype, rfl⟩ | hnone
  · refine ⟨_, build_function (some type) name params body, ?_, ?_⟩
    · simp [FunctionDef.wellShaped, typed, htype, named, hname, hparams, hbody]
    · simp [FunctionDef.lexemes, Node.lexemes]
  · cases hnone.eq_nil rfl
    refine ⟨_, build_function none name params body, ?_, ?_⟩
    · simp [FunctionDef.wellShaped, named, hname, hparams, hbody]
    · simp [FunctionDef.lexemes, Node.lexemes]

theorem builds_state (h : (pattern .state).Yields grammar Shape c c' items) :
    ∃ state, build .state items = some (.state state) ∧ state.wellShaped = true ∧
      state.lexemes = items.flatMap Item.lexemes := by
  obtain ⟨_, _, -, h₁⟩ := h.skip rfl
  obtain ⟨_, _, _, _, hname, -, h₂, rfl⟩ := h₁.split
  obtain ⟨_, _, -, h₃⟩ := h₂.skip rfl
  obtain ⟨_, _, _, _, ⟨-, events, hevents, rfl⟩, -, h₄, rfl⟩ := h₃.splitRule
  cases h₄.eq_nil rfl
  have hevents : areWellShapedFunctions events = true := by
    rw [areWellShapedFunctions_eq_all]
    exact List.all_eq_true.2 hevents
  rcases hname with hnone | hname
  · cases hnone.eq_nil rfl
    refine ⟨_, build_state none events, ?_, ?_⟩
    · simp [State.wellShaped, hevents]
    · simp [State.lexemes, Node.lexemes, functionLexemes_eq_flatMap]
  · obtain ⟨_, _, -, hnamed⟩ := hname.skip rfl
    obtain ⟨-, name, hisName, rfl⟩ := hnamed
    have hname : isName name.toList = true := hisName
    refine ⟨_, build_state (some name) events, ?_, ?_⟩
    · simp [State.wellShaped, named, hname, hevents]
    · simp [State.lexemes, Node.lexemes, functionLexemes_eq_flatMap]

theorem builds_jump (h : (pattern .jump).Yields grammar Shape c c' items) :
    Builds .jump items := by
  obtain ⟨_, _, -, h₁⟩ := h.skip rfl
  obtain ⟨_, _, _, _, ⟨-, name, hname, rfl⟩, -, h₂, rfl⟩ := h₁.splitRule
  cases h₂.eq_nil rfl
  have hname : isName name.toList = true := hname
  refine ⟨_, build_jump name, rfl, ?_, ?_⟩
  · simp [Node.wellShaped, named, hname]
  · simp [Node.lexemes]

theorem builds_label (h : (pattern .label).Yields grammar Shape c c' items) :
    Builds .label items := by
  obtain ⟨_, _, -, h₁⟩ := h.skip rfl
  obtain ⟨_, _, _, _, ⟨-, name, hname, rfl⟩, -, h₂, rfl⟩ := h₁.splitRule
  cases h₂.eq_nil rfl
  have hname : isName name.toList = true := hname
  refine ⟨_, build_label name, rfl, ?_, ?_⟩
  · simp [Node.wellShaped, named, hname]
  · simp [Node.lexemes]

theorem builds_ret (h : (pattern .ret).Yields grammar Shape c c' items) :
    Builds .ret items := by
  obtain ⟨_, _, -, h₁⟩ := h.skip rfl
  obtain ⟨_, _, _, _, hvalue, -, h₂, rfl⟩ := h₁.split
  cases h₂.eq_nil rfl
  rcases hvalue with ⟨-, o, ho, -, rfl⟩ | hnone
  · refine ⟨_, build_ret (some (.node (.value o))), rfl, ?_, ?_⟩
    · simp [Node.wellShaped, Element.isWellShapedValue, ho]
    · simp [Node.lexemes]
  · cases hnone.eq_nil rfl
    refine ⟨_, build_ret none, rfl, ?_, ?_⟩
    · simp [Node.wellShaped]
    · simp [Node.lexemes]

theorem builds_stateChange (h : (pattern .stateChange).Yields grammar Shape c c' items) :
    Builds .stateChange items := by
  obtain ⟨_, _, -, h₁⟩ := h.skip rfl
  obtain ⟨_, _, _, _, htarget, -, h₂, rfl⟩ := h₁.split
  cases h₂.eq_nil rfl
  rcases htarget with hdefault | ⟨-, name, hname, rfl⟩
  · cases hdefault.eq_nil rfl
    refine ⟨_, build_stateChange none, rfl, ?_, ?_⟩
    · simp [Node.wellShaped]
    · simp [Node.lexemes]
  · have hname : isName name.toList = true := hname
    refine ⟨_, build_stateChange (some name), rfl, ?_, ?_⟩
    · simp [Node.wellShaped, named, hname]
    · simp [Node.lexemes]

/-- A lookahead for operators that succeeds leaves no gap in front of the operator. -/
theorem find_of_ahead {texts : List String} {c c₁ c₂ : Cursor} {symbol : String}
    (htexts : texts.all (fun text => text.toList.head?.any fun x => !startsGap x) = true)
    (hahead : ∃ r, Derives grammar false (words texts) c (some r)) (hskips : grammar.Skips c c₁)
    (hform : Form .operator c₁ c₂ [.single .operator (.text symbol)]) :
    ∃ word ∈ texts, (∃ tail, c.rest = word.toList ++ tail) ∧
      (operators.find? fun text => text.toList.isPrefixOf c.rest) = some symbol := by
  obtain ⟨⟨c₃, ts⟩, hahead⟩ := hahead
  obtain ⟨word, hword, hspans, -⟩ := hahead.of_words
  have hsolid : Solid c.rest := by
    have hhead := List.all_eq_true.1 htexts word hword
    refine solid_of_stops ?_
    rw [hspans.1]
    cases hchars : word.toList with
    | nil => simp [hchars] at hhead
    | cons x chars => exact stops_cons.2 (by simpa [hchars] using hhead)
  cases (skips_solid hsolid).unique hskips
  obtain ⟨_, hfind, -, heq⟩ := hform
  cases heq
  exact ⟨word, hword, ⟨_, hspans.1⟩, hfind⟩

theorem builds_preMod (h : (pattern .preMod).Yields grammar Shape c c' items) :
    Builds .preMod items := by
  obtain ⟨_, _, _, _, ⟨hahead, rfl, rfl⟩, hskips, h₁, rfl⟩ := h.split
  obtain ⟨_, _, _, _, ⟨-, hoperator⟩, -, ⟨-, r, element, hr, helement, rfl, -⟩, rfl⟩ := h₁.splitRule
  have hoperator' := hoperator
  obtain ⟨symbol, -, -, rfl⟩ := hoperator
  obtain ⟨word, hword, hrest, hfind⟩ := find_of_ahead (by decide) hahead hskips hoperator'
  have hsymbol := prefixOperators_of_find hword hrest hfind
  refine ⟨_, build_preMod symbol hr element, rfl, ?_, ?_⟩
  · simp [Node.wellShaped, hsymbol, (Bool.and_eq_true_iff.1 helement).1]
  · simp [Node.lexemes, Item.lexemes_single (ne_typeName_of_isOperand hr)]

theorem builds_postMod (h : (pattern .postMod).Yields grammar Shape c c' items) :
    Builds .postMod items := by
  obtain ⟨_, _, _, _, hname, -, h₁, rfl⟩ := h.split
  obtain ⟨_, _, _, _, ⟨hahead, rfl, rfl⟩, hskips, ⟨-, hoperator⟩, rfl⟩ := h₁.split
  have hoperator' := hoperator
  obtain ⟨symbol, -, -, rfl⟩ := hoperator
  obtain ⟨word, hword, hrest, hfind⟩ := find_of_ahead (by decide) hahead hskips hoperator'
  have hsymbol := postfixOperators_of_find hword hrest hfind
  rcases hname with ⟨-, name, hname, rfl⟩ | ⟨-, name, hname, rfl⟩
  · have hname : isMember name.toList = true := hname
    refine ⟨_, build_postMod symbol (.inl rfl) (.text name), rfl, ?_, ?_⟩
    · simp [Node.wellShaped, hsymbol, hname]
    · simp [Node.lexemes]
  · have hname : isName name.toList = true := hname
    refine ⟨_, build_postMod symbol (.inr rfl) (.text name), rfl, ?_, ?_⟩
    · simp [Node.wellShaped, hsymbol, hname]
    · simp [Node.lexemes]

theorem builds_cast (h : (pattern .cast).Yields grammar Shape c c' items) :
    Builds .cast items := by
  obtain ⟨_, _, -, h₁⟩ := h.skip rfl
  obtain ⟨_, _, _, _, ⟨-, type, htype, rfl⟩, -, h₂, rfl⟩ := h₁.splitRule
  obtain ⟨_, _, -, h₃⟩ := h₂.skip rfl
  obtain ⟨-, r, element, hr, helement, rfl, -⟩ := h₃
  refine ⟨_, build_cast type hr element, rfl, ?_, ?_⟩
  · simp [Node.wellShaped, typed, htype, (Bool.and_eq_true_iff.1 helement).1]
  · simp [Node.lexemes, Item.lexemes_single (ne_typeName_of_isOperand hr)]

theorem areWellShapedValues_map {values : List Operation}
    (h : ∀ value ∈ values, value.wellShaped = true) :
    areWellShapedValues (values.map fun o => .node (.value o)) = true := by
  rw [areWellShapedValues_eq_all, List.all_map, List.all_eq_true]
  exact h

theorem areWellShaped_expressions {commands : List Operation}
    (h : ∀ command ∈ commands, command.wellShaped = true) :
    areWellShaped (· = .expression) (commands.map .expression) = true := by
  rw [areWellShaped_eq_all, List.all_map, List.all_eq_true]
  intro command hcommand
  simp [Node.wellShaped, Node.kind, h command hcommand]

theorem builds_call (h : (pattern .call).Yields grammar Shape c c' items) :
    Builds .call items := by
  obtain ⟨_, _, _, _, ⟨-, name, hname, rfl⟩, -, h₁, rfl⟩ := h.splitRule
  obtain ⟨_, _, -, h₂⟩ := h₁.skip rfl
  obtain ⟨_, _, _, _, ⟨-, values, hvalues, rfl⟩, -, h₃, rfl⟩ := h₂.splitRule
  cases h₃.eq_nil rfl
  have hname : isName name.toList = true := hname
  refine ⟨_, build_call name _, rfl, ?_, ?_⟩
  · simp [Node.wellShaped, named, hname, areWellShapedValues_map hvalues]
  · simp [Node.lexemes]

theorem listOf_params (h : (pattern .params).Yields grammar Shape c c' items) :
    ListOf (fun p : Param => p.wellShaped = true) (fun p => .single .param (.node (.param p)))
      items := by
  refine listOf_commaSeparated (fun _ _ _ hparam => ?_) h
  obtain ⟨-, param, hparam, rfl⟩ := hparam
  exact ⟨[param], by simpa using hparam, rfl⟩

theorem listOf_events (h : (pattern .events).Yields grammar Shape c c' items) :
    ListOf (fun f : FunctionDef => f.wellShaped = true)
      (fun f => .single .function (.node (.function f))) items := by
  refine listOf_star (fun _ _ _ hfunction => ?_) h
  obtain ⟨-, function, hfunction, rfl⟩ := hfunction
  exact ⟨[function], by simpa using hfunction, rfl⟩

theorem listOf_states (h : (pattern .states).Yields grammar Shape c c' items) :
    ListOf (fun s : State => s.wellShaped = true) (fun s => .single .state (.node (.state s)))
      items := by
  refine listOf_star (fun _ _ _ hstate => ?_) h
  obtain ⟨-, state, hstate, rfl⟩ := hstate
  exact ⟨[state], by simpa using hstate, rfl⟩

theorem listOf_globals (h : (pattern .globals).Yields grammar Shape c c' items) :
    ListOf (fun item : Rule × Node => item.2.kind.isGlobal = true ∧ item.2.wellShaped = true)
      (fun item => .single item.1 (.node item.2)) items := by
  refine listOf_star (fun _ _ _ hglobal => ?_) h
  rcases hglobal with ⟨-, function, hfunction, rfl⟩ | ⟨-, node, hkind, hnode, rfl⟩
  · refine ⟨[(.function, .function function)], ?_, rfl⟩
    simpa [Node.wellShaped, Node.kind, Kind.isGlobal] using hfunction
  · have hvariable : node.kind = .variable := (Option.some.inj hkind).symm
    refine ⟨[(.variable, node)], ?_, rfl⟩
    simpa [hvariable, Kind.isGlobal] using hnode

theorem listOf_commands (h : (commaSeparated (.rule .expression)).Yields grammar Shape c c' items) :
    ListOf (fun o : Operation => o.wellShaped = true)
      (fun o => .single .expression (.node (.expression o))) items := by
  refine listOf_commaSeparated (fun _ _ _ hcommand => ?_) h
  obtain ⟨-, o, ho, rfl⟩ := hcommand
  exact ⟨[o], by simpa using ho, rfl⟩

theorem listOf_values (h : (commaSeparated (.rule .value)).Yields grammar Shape c c' items) :
    ListOf (fun o : Operation => o.wellShaped = true)
      (fun o => .single .value (.node (.value o))) items := by
  refine listOf_commaSeparated (fun _ _ _ hvalue => ?_) h
  obtain ⟨-, o, ho, -, rfl⟩ := hvalue
  exact ⟨[o], by simpa using ho, rfl⟩

theorem builds_list (h : (pattern .list).Yields grammar Shape c c' items) :
    Builds .list items := by
  obtain ⟨_, _, -, h₁⟩ := h.skip rfl
  obtain ⟨_, _, _, _, hvalues, -, h₂, rfl⟩ := h₁.split
  cases h₂.eq_nil rfl
  obtain ⟨values, hshaped, rfl⟩ := listOf_values hvalues
  refine ⟨.list (values.map fun o => .node (.value o)), ?_, rfl, ?_, ?_⟩
  · rw [← build_list, List.map_map, List.append_nil]
    rfl
  · simp [Node.wellShaped, areWellShapedValues_map hshaped]
  · simp [Node.lexemes, List.flatMap_map]

/-- The last component of a literal and what follows it. -/
theorem lastComponent
    (h : (cat [pushLit ['>'], .rule .value, drop, word ">"]).Yields grammar Shape c c' items) :
    ∃ o : Operation, o.wellShaped = true ∧ o.fitsLast = true ∧
      items = [.single .value (.node (.value o))] := by
  obtain ⟨_, _, _, _, ⟨rfl, rfl⟩, hskips, h₁, rfl⟩ := h.split
  obtain ⟨_, _, _, _, ⟨-, o, ho, hlast, rfl⟩, -, h₂, rfl⟩ := h₁.splitRule
  cases h₂.eq_nil rfl
  exact ⟨o, ho, hlast (by rw [skips_stack hskips]; rfl), rfl⟩

theorem builds_vector (h : (pattern .vector).Yields grammar Shape c c' items) :
    Builds .vector items := by
  obtain ⟨_, _, -, h₁⟩ := h.skip rfl
  obtain ⟨_, _, -, h₂⟩ := h₁.skip rfl
  obtain ⟨_, _, _, _, ⟨-, x, hx, -, rfl⟩, -, h₃, rfl⟩ := h₂.splitRule
  obtain ⟨_, _, -, h₄⟩ := h₃.skip rfl
  obtain ⟨_, _, _, _, ⟨-, y, hy, -, rfl⟩, -, h₅, rfl⟩ := h₄.splitRule
  obtain ⟨_, _, -, h₆⟩ := h₅.skip rfl
  obtain ⟨_, _, -, h₇⟩ := h₆.skip rfl
  obtain ⟨z, hz, hlast, rfl⟩ := lastComponent h₇
  refine ⟨_, build_vector (.node (.value x)) (.node (.value y)) (.node (.value z)), rfl, ?_, ?_⟩
  · simp [Node.wellShaped, Element.isWellShapedValue, Element.fitsLast, hx, hy, hz, hlast]
  · simp [Node.lexemes]

theorem builds_quaternion (h : (pattern .quaternion).Yields grammar Shape c c' items) :
    Builds .quaternion items := by
  obtain ⟨_, _, -, h₁⟩ := h.skip rfl
  obtain ⟨_, _, -, h₂⟩ := h₁.skip rfl
  obtain ⟨_, _, _, _, ⟨-, x, hx, -, rfl⟩, -, h₃, rfl⟩ := h₂.splitRule
  obtain ⟨_, _, -, h₄⟩ := h₃.skip rfl
  obtain ⟨_, _, _, _, ⟨-, y, hy, -, rfl⟩, -, h₅, rfl⟩ := h₄.splitRule
  obtain ⟨_, _, -, h₆⟩ := h₅.skip rfl
  obtain ⟨_, _, _, _, ⟨-, z, hz, -, rfl⟩, -, h₇, rfl⟩ := h₆.splitRule
  obtain ⟨_, _, -, h₈⟩ := h₇.skip rfl
  obtain ⟨_, _, -, h₉⟩ := h₈.skip rfl
  obtain ⟨s, hs, hlast, rfl⟩ := lastComponent h₉
  refine ⟨_, build_quaternion (.node (.value x)) (.node (.value y)) (.node (.value z))
    (.node (.value s)), rfl, ?_, ?_⟩
  · simp [Node.wellShaped, Element.isWellShapedValue, Element.fitsLast, hx, hy, hz, hs, hlast]
  · simp [Node.lexemes]

theorem builds_body (h : (pattern .body).Yields grammar Shape c c' items) :
    ∃ body, build .body items = some (.body body) ∧ body.wellShaped = true ∧
      body.lexemes = items.flatMap Item.lexemes := by
  have hstatements : ∃ nodes : List (Rule × Node),
      (∀ item ∈ nodes, item.2.kind.isStatement = true ∧ item.2.wellShaped = true) ∧
      items = nodes.map fun item => .single item.1 (.node item.2) := by
    rcases h with h | ⟨-, hone⟩
    · obtain ⟨_, _, -, h₁⟩ := h.skip rfl
      obtain ⟨_, _, _, _, hstar, -, h₂, rfl⟩ := h₁.split
      cases h₂.eq_nil rfl
      rw [List.append_nil]
      refine listOf_star (fun _ _ _ hstatement => ?_) hstar
      obtain ⟨-, hstatement⟩ := hstatement
      exact hstatement
    · exact hone
  obtain ⟨nodes, hnodes, rfl⟩ := hstatements
  refine ⟨_, build_body nodes, ?_, ?_⟩
  · rw [Body.wellShaped, areWellShaped_eq_all, List.all_map, List.all_eq_true]
    intro item hitem
    simp [hnodes item hitem]
  · rw [Body.lexemes, nodeLexemes_eq_flatMap, List.flatMap_map, List.flatMap_map]
    rfl

theorem builds_ifElse (h : (pattern .ifElse).Yields grammar Shape c c' items) :
    Builds .ifElse items := by
  obtain ⟨_, _, -, h₁⟩ := h.skip rfl
  obtain ⟨_, _, -, h₂⟩ := h₁.skip rfl
  obtain ⟨_, _, _, _, ⟨-, o, ho, rfl⟩, -, h₃, rfl⟩ := h₂.splitRule
  obtain ⟨_, _, -, h₄⟩ := h₃.skip rfl
  obtain ⟨_, _, _, _, ⟨-, body, hbody, rfl⟩, -, helse, rfl⟩ := h₄.splitRule
  have hnone : Builds .ifElse ([.single .condition (.node (.condition o))] ++
      ([.single .body (.ofBody body)] ++ [])) := by
    refine ⟨_, build_ifElse (.condition o) body none, rfl, ?_, ?_⟩
    · simp [Node.wellShaped, ho, hbody]
    · simp [Node.lexemes]
  rcases helse with helse | helse
  · obtain ⟨_, _, -, helse⟩ := helse.skip rfl
    rcases helse with hempty | ⟨-, other, hother, rfl⟩
    · cases hempty.eq_nil rfl
      exact hnone
    · refine ⟨_, build_ifElse (.condition o) body (some (.body other)), rfl, ?_, ?_⟩
      · simp [Node.wellShaped, ho, hbody, hother]
      · simp [Node.lexemes]
  · cases helse.eq_nil rfl
    exact hnone

theorem builds_whileLoop (h : (pattern .whileLoop).Yields grammar Shape c c' items) :
    Builds .whileLoop items := by
  obtain ⟨_, _, -, h₁⟩ := h.skip rfl
  obtain ⟨_, _, -, h₂⟩ := h₁.skip rfl
  obtain ⟨_, _, _, _, ⟨-, o, ho, rfl⟩, -, h₃, rfl⟩ := h₂.splitRule
  obtain ⟨_, _, -, h₄⟩ := h₃.skip rfl
  obtain ⟨-, body, hbody, rfl⟩ := h₄
  refine ⟨_, build_whileLoop (.condition o) body, rfl, ?_, ?_⟩
  · simp [Node.wellShaped, ho, hbody]
  · simp [Node.lexemes]

theorem builds_doLoop (h : (pattern .doLoop).Yields grammar Shape c c' items) :
    Builds .doLoop items := by
  obtain ⟨_, _, -, h₁⟩ := h.skip rfl
  obtain ⟨_, _, _, _, ⟨-, body, hbody, rfl⟩, -, h₂, rfl⟩ := h₁.splitRule
  obtain ⟨_, _, -, h₃⟩ := h₂.skip rfl
  obtain ⟨_, _, -, h₄⟩ := h₃.skip rfl
  obtain ⟨_, _, _, _, ⟨-, o, ho, rfl⟩, -, h₅, rfl⟩ := h₄.splitRule
  cases h₅.eq_nil rfl
  refine ⟨_, build_doLoop (.condition o) body, rfl, ?_, ?_⟩
  · simp [Node.wellShaped, ho, hbody]
  · simp [Node.lexemes]

theorem builds_forLoop (h : (pattern .forLoop).Yields grammar Shape c c' items) :
    Builds .forLoop items := by
  obtain ⟨_, _, -, h₁⟩ := h.skip rfl
  obtain ⟨_, _, -, h₂⟩ := h₁.skip rfl
  obtain ⟨_, _, _, _, ⟨-, pre, hpre, rfl⟩, -, h₃, rfl⟩ := h₂.splitRule
  obtain ⟨_, _, -, h₄⟩ := h₃.skip rfl
  obtain ⟨_, _, _, _, hcondition, -, h₅, rfl⟩ := h₄.split
  obtain ⟨_, _, -, h₆⟩ := h₅.skip rfl
  obtain ⟨_, _, _, _, ⟨-, loop, hloop, rfl⟩, -, h₇, rfl⟩ := h₆.splitRule
  obtain ⟨_, _, -, h₈⟩ := h₇.skip rfl
  obtain ⟨-, body, hbody, rfl⟩ := h₈
  have hpre := areWellShaped_expressions hpre
  have hloop := areWellShaped_expressions hloop
  have hbuild (condition? : Option Node) := build_forLoop (pre.map .expression)
    (loop.map .expression) condition? body
  simp only [List.map_map] at hbuild
  rcases hcondition with ⟨-, o, ho, rfl⟩ | hnone
  · refine ⟨_, hbuild (some (.condition o)), rfl, ?_, ?_⟩
    · simp [Node.wellShaped, ho, hbody, hpre, hloop]
    · simp [Node.lexemes, nodeLexemes_eq_flatMap, List.flatMap_map]
  · cases hnone.eq_nil rfl
    refine ⟨_, hbuild none, rfl, ?_, ?_⟩
    · simp [Node.wellShaped, hbody, hpre, hloop]
    · simp [Node.lexemes, nodeLexemes_eq_flatMap, List.flatMap_map]

/-! ## Silent rules -/

theorem form_statement_of_node (r : Rule) (node : Node) (hr : r.kind? = some node.kind)
    (hstatement : r.isStatement = true) (h : node.wellShaped = true) :
    Form .simpleStatement c c' [.single r (.node node)] := by
  refine ⟨[(r, node)], fun item hitem => ?_, rfl⟩
  cases List.mem_singleton.1 hitem
  refine ⟨?_, h⟩
  have hall : ∀ kind, r.kind? = some kind → kind.isStatement = true := by
    intro kind hk
    cases r <;> first | (cases hstatement; done) | (cases hk; rfl)
  exact hall _ hr

theorem form_simpleStatement (h : (pattern .simpleStatement).Yields grammar Shape c c' items) :
    Form .simpleStatement c c' items := by
  have statement {r : Rule} {c' : Cursor} {items : List Item} (hr : r.isStatement = true)
      (h : ∃ node : Node, r.kind? = some node.kind ∧ node.wellShaped = true ∧
        items = [.single r (.node node)]) : Form .simpleStatement c c' items := by
    obtain ⟨node, hkind, hshaped, rfl⟩ := h
    exact form_statement_of_node r node hkind hr hshaped
  rcases h with h | h | h | h | h | h | h | h | h | h | h
  iterate 9 exact statement rfl h.2
  · obtain ⟨_, _, _, _, ⟨-, o, ho, rfl⟩, -, hsemicolon, rfl⟩ := h.splitRule
    cases hsemicolon.eq_nil rfl
    exact form_statement_of_node .expression (.expression o) rfl rfl (by rwa [Node.wellShaped])
  · cases h.eq_nil rfl
    exact ⟨[], List.forall_mem_nil _, rfl⟩

theorem form_statement (h : (pattern .statement).Yields grammar Shape c c' items) :
    Form .statement c c' items := by
  rcases h with h | ⟨-, h⟩
  · obtain ⟨_, _, -, hbody⟩ := h.skip rfl
    obtain ⟨-, body, hbody, rfl⟩ := hbody
    have hform : Form .simpleStatement c c' _ :=
      form_statement_of_node .body (.body body) rfl rfl (by rwa [Node.wellShaped])
    exact hform
  · exact h

theorem form_primary {ts : List (ParseTree Rule)}
    (hd : Derives grammar false (.rule .primary) c (some (c', ts)))
    (h : (pattern .primary).Yields grammar Shape c c' items) : Form .primary c c' items := by
  have hstarts : ∃ x rest, c.rest = x :: rest ∧ startsOperand x = true := by
    obtain ⟨x, rest, hrest, hx⟩ := starts_of_derives rfl hd
    have hx : startsPrimary x = true := hx
    exact ⟨x, rest, hrest, by rw [startsOperand, hx, Bool.or_true]⟩
  have node {r : Rule} {c' : Cursor} {items : List Item} (hr : r.isOperand = true)
      (h : ∃ node : Node, r.kind? = some node.kind ∧ node.wellShaped = true ∧
        items = [.single r (.node node)]) : Form .primary c c' items := by
    obtain ⟨node, hkind, hshaped, rfl⟩ := h
    exact ⟨r, _, hr, plainOperand_of_node hr hkind hshaped, rfl, hstarts⟩
  have text {r : Rule} {c' : Cursor} {items : List Item} (hr : r.isOperand = true)
      (h : ∃ text, isOperandText text = true ∧ items = [.single r (.text text)]) :
      Form .primary c c' items := by
    obtain ⟨text, htext, rfl⟩ := h
    exact ⟨r, _, hr, plainOperand_of_text htext, rfl, hstarts⟩
  rcases h with h | h | h | h | h | ⟨-, t, ht, rfl⟩ | ⟨-, t, ht, rfl⟩ | ⟨-, t, ht, rfl⟩ |
    ⟨-, t, ht, rfl⟩
  iterate 4 exact node rfl h.2
  · obtain ⟨_, _, -, hvalue⟩ := h.skip rfl
    obtain ⟨_, _, _, _, ⟨-, o, ho, -, rfl⟩, -, hclose, rfl⟩ := hvalue.splitRule
    cases hclose.eq_nil rfl
    exact node (r := .value) rfl ⟨.value o, rfl, by rwa [Node.wellShaped_value], rfl⟩
  · have ht : isFloat t.toList = true := ht
    exact text rfl ⟨t, by simp [isOperandText, ht], rfl⟩
  · have ht : isInteger t.toList = true := ht
    exact text rfl ⟨t, by simp [isOperandText, ht], rfl⟩
  · have ht : isString t.toList = true := ht
    exact text rfl ⟨t, by simp [isOperandText, ht], rfl⟩
  · have ht : isName t.toList = true := ht
    exact text rfl ⟨t, by simp [isOperandText, ht], rfl⟩

theorem form_operand {ts : List (ParseTree Rule)}
    (hd : Derives grammar false (.rule .operand) c (some (c', ts)))
    (h : (pattern .operand).Yields grammar Shape c c' items) : Form .operand c c' items := by
  have hstarts := starts_of_derives rfl hd
  have node {r : Rule} {c' : Cursor} {items : List Item} (hr : r.isOperand = true)
      (h : ∃ node : Node, r.kind? = some node.kind ∧ node.wellShaped = true ∧
        items = [.single r (.node node)]) : Form .operand c c' items := by
    obtain ⟨node, hkind, hshaped, rfl⟩ := h
    exact ⟨r, _, hr, plainOperand_of_node hr hkind hshaped, rfl, hstarts⟩
  rcases h with h | h | h | h
  iterate 3 exact node rfl h.2
  · exact h.2

end

/-! ## Every match has its shape -/

section

variable {r : Rule} {c c' : Cursor} {ts : List (ParseTree Rule)} {items : List Item}
  {text : String}

/-- No word but the name of a type is spelled in two ways. -/
theorem spelled_of_isText {text : String} (hr : r.isLexeme = true) (hoperator : r ≠ .operator)
    (h : r.isText text = true) : r = .typeName ∨ spelled text = text := by
  by_cases htext : text = "quaternion"
  · subst htext
    cases r <;> first | (cases hr; done) | exact .inl rfl | exact absurd rfl hoperator |
      exact absurd h (by decide)
  · exact .inr (if_neg htext)

/-- A rule without parts carries the text that it takes. -/
theorem carries_of_scans {take? : List Char → Option (List Char)} (hr : r.kind? = none)
    (hword : r.isLexeme = true) (hscans : Scans grammar (.rule r) take?)
    (htext : ∀ text head, take? text = some head →
      r = .typeName ∨ spelled (String.ofList head) = String.ofList head)
    (h : Derives grammar true (.rule r) c (some (c', []))) :
    ∃ text, take? c.rest = some text ∧ c.Spans text c' ∧
      Carries ⟨r, String.ofList (c.textTo c'), []⟩ (.single r (.text (String.ofList text))) := by
  obtain ⟨text, htake, hspans⟩ := hscans.eq_some h
  refine ⟨text, htake, hspans, ?_⟩
  rw [hspans.textTo]
  exact .leaf hr hword (htext _ _ htake)

theorem form_lexical {take? : List Char → Option (List Char)} (hr : r.kind? = none)
    (hword : r.isLexeme = true) (hoperator : r ≠ .operator) (hscans : Scans grammar (.rule r) take?)
    (htext : ∀ text head, take? text = some head → r.isText (String.ofList head) = true)
    (h : Derives grammar true (.rule r) c (some (c', []))) :
    ∃ x, Carries ⟨r, String.ofList (c.textTo c'), []⟩ x ∧ c'.stack = c.stack ∧
      ∃ text, r.isText text = true ∧ [x] = [.single r (.text text)] := by
  obtain ⟨text, htake, -, hcarries⟩ := carries_of_scans hr hword hscans
    (fun text head htake => spelled_of_isText hword hoperator (htext text head htake)) h
  exact ⟨_, hcarries, stack_eq h, _, htext _ _ htake, rfl⟩

theorem carries_of_builds {kind : Kind} (hr : r.kind? = some kind)
    (hs : List.Forall₂ Carries ts items) (h : Builds kind items) :
    ∃ x, Carries ⟨r, text, ts⟩ x ∧ ∃ node : Node, r.kind? = some node.kind ∧
      node.wellShaped = true ∧ [x] = [.single r (.node node)] := by
  obtain ⟨node, hbuild, hkind, hshaped, hwords⟩ := h
  exact ⟨_, .node hs hr hbuild hwords, node, by rw [hr, hkind], hshaped, rfl⟩

/-- A rule around single items carries their nodes as a group. -/
theorem carries_group (r : Rule) {α : Type} {P : α → Prop} {rule : α → Rule} {node : α → Node}
    (hr : r.isLexeme = false) (hs : List.Forall₂ Carries ts items)
    (h : ListOf P (fun a => .single (rule a) (.node (node a))) items) :
    ∃ as : List α, (∀ a ∈ as, P a) ∧
      Carries ⟨r, text, ts⟩ (.group r (as.map fun a => .node (node a))) := by
  obtain ⟨as, has, rfl⟩ := h
  rw [List.forall₂_map_right_iff] at hs
  have hnodes : List.Forall₂ (fun tree node => ∃ r, Carries tree (.single r (.node node))) ts
      (as.map node) := by
    rw [List.forall₂_map_right_iff]
    exact hs.imp fun tree a h => ⟨rule a, h⟩
  have hgroup : Carries ⟨r, text, ts⟩ _ := .group hr hnodes
  rw [List.map_map] at hgroup
  exact ⟨as, has, hgroup⟩

end

/-- The node of a rule with parts has the form of the rule. -/
theorem form_node {r : Rule} {c c' : Cursor} {ts : List (ParseTree Rule)} {items : List Item}
    {text : String} (hs : grammar.isSilent r = false) (ha : grammar.isAtomic r = false)
    (hcarries : List.Forall₂ Carries ts items)
    (h : (grammar.pattern r).Yields grammar Shape c c' items) :
    ∃ x, Carries ⟨r, text, ts⟩ x ∧ r.Form c c' [x] := by
  cases r
  case endOfInput => exact ⟨.raw .endOfInput, rfl, trivial⟩
  case script => exact ⟨.raw .script, rfl, trivial⟩
  case type =>
    obtain ⟨-, name, hname, rfl⟩ := h
    obtain ⟨primitive, hparse, hvoid⟩ := parse_typeName hname
    refine ⟨_, .node hcarries rfl (build_type hparse) ?_, primitive, hvoid, rfl⟩
    simp [Node.lexemes, Item.lexemes, Primitive.name_of_parse hparse hvoid]
  case param =>
    obtain ⟨param, hbuild, hparam, hwords⟩ := builds_param h
    exact ⟨_, .node hcarries rfl hbuild hwords, param, hparam, rfl⟩
  case params =>
    obtain ⟨params, hparams, hshow⟩ := carries_group .params rfl hcarries (listOf_params h)
    exact ⟨_, hshow, params, hparams, rfl⟩
  case function =>
    obtain ⟨function, hbuild, hfunction, hwords⟩ := builds_function h
    exact ⟨_, .node hcarries rfl hbuild hwords, function, hfunction, rfl⟩
  case events =>
    obtain ⟨events, hevents, hshow⟩ := carries_group .events rfl hcarries (listOf_events h)
    exact ⟨_, hshow, events, hevents, rfl⟩
  case state =>
    obtain ⟨state, hbuild, hstate, hwords⟩ := builds_state h
    exact ⟨_, .node hcarries rfl hbuild hwords, state, hstate, rfl⟩
  case states =>
    obtain ⟨states, hstates, hshow⟩ := carries_group .states rfl hcarries (listOf_states h)
    exact ⟨_, hshow, states, hstates, rfl⟩
  case globals =>
    obtain ⟨globals, hglobals, hshow⟩ := carries_group .globals rfl hcarries (listOf_globals h)
    refine ⟨_, hshow, globals.map Prod.snd, fun node hnode => ?_, by rw [List.map_map]; rfl⟩
    obtain ⟨item, hitem, rfl⟩ := List.mem_map.1 hnode
    exact hglobals item hitem
  case precommands =>
    obtain ⟨commands, hcommands, hshow⟩ := carries_group .precommands rfl hcarries (listOf_commands h)
    exact ⟨_, hshow, commands, hcommands, rfl⟩
  case loopcommands =>
    obtain ⟨commands, hcommands, hshow⟩ := carries_group .loopcommands rfl hcarries (listOf_commands h)
    exact ⟨_, hshow, commands, hcommands, rfl⟩
  case body =>
    obtain ⟨body, hbuild, hbody, hwords⟩ := builds_body h
    exact ⟨_, .node hcarries rfl hbuild hwords, body, hbody, rfl⟩
  case elseBranch =>
    obtain ⟨-, body, hbody, rfl⟩ := h
    cases hcarries with
    | cons hshow hnil =>
      cases hnil
      exact ⟨_, .pass rfl rfl hshow, body, hbody, rfl⟩
  case expression =>
    obtain ⟨o, ho, -, hbuild, hwords⟩ := built_operation .expression rfl h
    exact ⟨_, .node hcarries rfl hbuild hwords, o, ho, rfl⟩
  case value =>
    obtain ⟨o, ho, hlast, hbuild, hwords⟩ := built_operation .value rfl h
    exact ⟨_, .node hcarries rfl hbuild hwords, o, ho, hlast, rfl⟩
  case condition =>
    obtain ⟨o, ho, -, hbuild, hwords⟩ := built_operation .condition rfl h
    exact ⟨_, .node hcarries rfl hbuild hwords, o, ho, rfl⟩
  case «variable» => exact carries_of_builds rfl hcarries (builds_variable h)
  case ifElse => exact carries_of_builds rfl hcarries (builds_ifElse h)
  case whileLoop => exact carries_of_builds rfl hcarries (builds_whileLoop h)
  case doLoop => exact carries_of_builds rfl hcarries (builds_doLoop h)
  case forLoop => exact carries_of_builds rfl hcarries (builds_forLoop h)
  case jump => exact carries_of_builds rfl hcarries (builds_jump h)
  case label => exact carries_of_builds rfl hcarries (builds_label h)
  case ret => exact carries_of_builds rfl hcarries (builds_ret h)
  case stateChange => exact carries_of_builds rfl hcarries (builds_stateChange h)
  case preMod => exact carries_of_builds rfl hcarries (builds_preMod h)
  case postMod => exact carries_of_builds rfl hcarries (builds_postMod h)
  case cast => exact carries_of_builds rfl hcarries (builds_cast h)
  case call => exact carries_of_builds rfl hcarries (builds_call h)
  case quaternion => exact carries_of_builds rfl hcarries (builds_quaternion h)
  case vector => exact carries_of_builds rfl hcarries (builds_vector h)
  case list => exact carries_of_builds rfl hcarries (builds_list h)
  case arguments =>
    obtain ⟨values, hvalues, hshow⟩ := carries_group .arguments rfl hcarries (listOf_values h)
    exact ⟨_, hshow, values, hvalues, rfl⟩
  all_goals first | (cases hs; done) | cases ha

theorem grammar_means : grammar.Means Carries Shape where
  silent {r c c' ts items} hs ha hd h := by
    refine ⟨stack_eq hd, ?_⟩
    cases r
    case statement => exact form_statement h
    case simpleStatement => exact form_simpleStatement h
    case binaryOperator => exact form_binaryOperator h
    case operand => exact form_operand hd h
    case primary => exact form_primary hd h
    case identChar => trivial
    case closingAngle => trivial
    case exponent => trivial
    all_goals first | (cases hs; done) | cases ha
  node {r c c' ts items} hs ha hd hcarries h := by
    have hd' : Derives grammar (false || grammar.isAtomic r) (grammar.pattern r) c
        (some (c', ts)) := by rwa [ha]
    obtain ⟨x, hx, hform⟩ := form_node hs ha hcarries h
    exact ⟨x, hx, stack_eq (.node hs hd'), hform⟩
  silentAtomic {r c c'} hs ha hd := by
    refine ⟨stack_eq (.silent hs (by rwa [Bool.true_or])), ?_⟩
    cases r
    case whitespace => trivial
    case comment => trivial
    all_goals first | (cases hs; done) | cases ha
  nodeAtomic {r c c'} hs ha hd := by
    have hrule : Derives grammar true (.rule r) c (some (c', [])) := .node hs hd
    cases r
    case keyword => exact ⟨.raw .keyword, rfl, stack_eq hrule, trivial⟩
    case operator =>
      have hspelled (text head : List Char)
          (htake : (operators.find? fun word => word.toList.isPrefixOf text).map String.toList =
            some head) : spelled (String.ofList head) = String.ofList head := by
        obtain ⟨symbol, hfind, rfl⟩ := Option.map_eq_some_iff.1 htake
        rw [String.ofList_toList]
        have hall : ∀ symbol ∈ operators, spelled symbol = symbol := by decide
        exact hall symbol (List.mem_of_find?_eq_some hfind)
      obtain ⟨text, htake, hspans, hshow⟩ := carries_of_scans rfl rfl scans_operator
        (fun text head htake => .inr (hspelled text head htake)) hrule
      obtain ⟨symbol, hfind, rfl⟩ := Option.map_eq_some_iff.1 htake
      rw [String.ofList_toList] at hshow
      exact ⟨_, hshow, stack_eq hrule, symbol, hfind, hspans, rfl⟩
    case typeName =>
      refine form_lexical rfl rfl nofun scans_typeName (fun text head htake => ?_) hrule
      dsimp only at htake
      split at htake
      · next hmem =>
        cases htake
        obtain ⟨name, hname, heq⟩ := List.mem_map.1 (List.contains_iff_mem.1 hmem)
        rw [← heq, String.ofList_toList]
        exact List.contains_iff_mem.2 hname
      · cases htake
    case name =>
      refine form_lexical rfl rfl nofun scans_name (fun text head htake => ?_) hrule
      simpa [isText] using takeName?_eq_some htake
    case ident =>
      refine form_lexical rfl rfl nofun scans_ident (fun text head htake => ?_) hrule
      simpa [isText] using takeName?_eq_some htake
    case member =>
      refine form_lexical rfl rfl nofun scans_member (fun text head htake => ?_) hrule
      simpa [isText] using takeMember?_eq_some htake
    case float =>
      refine form_lexical rfl rfl nofun scans_float (fun text head htake => ?_) hrule
      simpa [isText] using takeFloat?_eq_some htake
    case integer =>
      refine form_lexical rfl rfl nofun scans_integer (fun text head htake => ?_) hrule
      simpa [isText] using takeInteger?_eq_some htake
    case string =>
      refine form_lexical rfl rfl nofun scans_string (fun text head htake => ?_) hrule
      simpa [isText] using takeString?_eq_some htake
    all_goals first | (cases hs; done) | cases ha

end Lsl.Rule
