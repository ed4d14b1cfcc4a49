import Lsl.Proofs.Roundtrip.Fraction
/-!
# Reading operations with two sides

An operation with two sides is read back if its sides are.  The work is in what comes before its
operator: neither does the operator run into the left side, nor does it help a try to read a literal
that goes on there.
-/

namespace Lsl

/-- What is written for an operation as the side of another one. -/
def Operation.sideElement : Operation → Element
  | ⟨none, some center, none⟩ => center
  | o => .node (.value o)

section

variable {o : Operation} (hshaped : o.wellShaped = true)

include hshaped

theorem Operation.cases_of_wellShaped :
    o.isBinary = true ∧ o.sideElement = .node (.value o) ∨
      ∃ center, o = ⟨none, some center, none⟩ ∧ center.isPlainOperand = true := by
  unfold Operation.wellShaped at hshaped
  split at hshaped
  · exact .inl ⟨rfl, rfl⟩
  · next center => exact .inr ⟨center, rfl, hshaped⟩
  · cases hshaped

theorem Operation.operandText_sideElement (width : Nat) :
    o.sideElement.operandText width = Element.operandText width (.node (.value o)) := by
  rcases o.cases_of_wellShaped hshaped with ⟨-, hside⟩ | ⟨center, rfl, -⟩
  · rw [hside]
  · rw [Element.operandText_value hshaped]
    rfl

theorem Operation.isPlainOperand_sideElement : o.sideElement.isPlainOperand = true := by
  rcases o.cases_of_wellShaped hshaped with ⟨-, hside⟩ | ⟨center, rfl, hcenter⟩
  · rw [hside, Element.isPlainOperand, Element.isWellShapedOperand, Node.wellShaped_value, hshaped]
    rfl
  · exact hcenter

/-- The side of a settled operation that is a value node stands in parentheses. -/
theorem Operation.isBinary_of_sideElement
    (hsettled : (o.isBinary || !(o.center?.any Element.isExpression)) = true) {o' : Operation}
    (hside : o.sideElement = .node (.value o')) : o'.isBinary = true := by
  rcases o.cases_of_wellShaped hshaped with ⟨hbinary, hside'⟩ | ⟨center, rfl, -⟩
  · cases hside'.symm.trans hside
    exact hbinary
  · cases hside
    cases hsettled

theorem Operation.toOperand_sideElement
    (hsettled : (o.isBinary || !(o.center?.any Element.isExpression)) = true) :
    o.sideElement.toOperand = .value o := by
  rcases o.cases_of_wellShaped hshaped with ⟨-, hside⟩ | ⟨center, rfl, -⟩
  · rw [hside]
    rfl
  · have hcenter : center.isExpression = false := by simpa [Operation.isBinary] using hsettled
    cases center with
    | text t => rfl
    | node n =>
      have hkind : n.kind.isExpression = false := hcenter
      simp only [Operation.sideElement, Element.toOperand, hkind]
      rfl

end

theorem Operation.tries_sideElement (o : Operation) :
    o.sideElement.tries = (Node.value o).tries := by
  obtain ⟨_ | left, _ | center, _ | right⟩ := o <;> rfl

theorem Operation.lastOperand_sideElement (o : Operation) :
    o.sideElement.lastOperand = (Node.value o).lastOperand := by
  obtain ⟨_ | left, _ | center, _ | right⟩ := o <;> rfl

theorem Operation.core_sideElement (o : Operation) :
    o.sideElement.core = (Node.value o).core := by
  obtain ⟨_ | left, _ | center, _ | right⟩ := o <;> rfl

/-- A run of two operands with an operator between them. -/
theorem assemble_of_operands {first second : Element} {symbol : String}
    (hfirst : first.isPlainOperand = true) (hsecond : second.isPlainOperand = true)
    (hsymbol : (Level.of? symbol).isSome = true) :
    assemble [first, .text symbol, second] =
      .ok ⟨some first.toOperand, some (.text symbol), some second.toOperand⟩ := by
  have hrounds : wellShapedRounds [(symbol, second)] = true := by
    simp [wellShapedRounds, hsymbol, hsecond]
  obtain ⟨before, symbol', operand, after, hsplit, -, -, heq⟩ :=
    splitLoosest?_flatRun (isRun_of_wellShaped hfirst hrounds) (List.cons_ne_nil _ _)
  have hbefore : before = [] := by
    cases before with
    | nil => rfl
    | cons round before => simp at hsplit
  subst hbefore
  cases hsplit
  rw [flatRun_cons, flatRun_nil, flatRun_nil] at heq
  rw [assemble_of_split (by simp) heq, assembleSide, assembleSide]
  rfl

namespace Rule

open Peg Pattern Lexeme

variable {s : List (List Char)} {text text' rest : List Char} {width : Nat}

/-! ## How operands start -/

/-- The first word of a member is a name. -/
theorem name_of_isMember {word : List Char} (h : isMember word = true) :
    ∃ name tail, word = name ++ '.' :: tail ∧ isName name = true := by
  unfold isMember at h
  split at h
  · next tail htail =>
    refine ⟨word.takeWhile isNameChar, tail, ?_, (Bool.and_eq_true_iff.1 h).1⟩
    rw [← htail, List.takeWhile_append_dropWhile]
  · cases h

/-- A node that is an operand starts with a bracket, a modifier or a name. -/
theorem operandText_node {n : Node} (hkind : n.kind.isOperand = true) (hshaped : n.wellShaped = true)
    (hvalue : ∀ o, n = .value o → o.isBinary = true) :
    (∃ x tail, Element.operandText width (.node n) = x :: tail ∧ x.isDigit = false ∧
      isNameStart x = false) ∨
    ∃ word y tail, Element.operandText width (.node n) = word ++ y :: tail ∧ isName word = true ∧
      isNameChar y = false ∧ (n.isModifiedName = false → y = '(' ∨ y = '.') := by
  cases n
  case call name? arguments =>
    obtain _ | name := name?
    · simp [Node.wellShaped, named] at hshaped
    · obtain ⟨tail, htext⟩ : ∃ tail, Element.operandText width
          (.node (.call (some name) arguments)) = name.toList ++ '(' :: tail := by
        simp [Element.operandText, Element.renderIn, Node.renderIn_call]
      rw [Node.wellShaped, Bool.and_eq_true] at hshaped
      exact .inr ⟨_, _, _, htext, hshaped.1, rfl, fun _ => .inl rfl⟩
  case cast type? value? =>
    obtain ⟨type, value, htype, hvalue', rfl, rfl⟩ := Node.cast_of_wellShaped hshaped
    exact .inl ⟨'(', _, Element.operandText_cast htype hvalue', rfl, rfl⟩
  case list values =>
    obtain ⟨tail, htext⟩ : ∃ tail, Element.operandText width (.node (.list values)) =
        '[' :: tail := by
      simp [Element.operandText, Element.renderIn, Node.renderIn_list]
    exact .inl ⟨'[', tail, htext, rfl, rfl⟩
  case vector x y z =>
    obtain ⟨tail, htext⟩ : ∃ tail, Element.operandText width (.node (.vector x y z)) =
        '<' :: tail := by
      simp [Element.operandText, Element.renderIn, Node.renderIn_vector]
    exact .inl ⟨'<', tail, htext, rfl, rfl⟩
  case quaternion x y z last =>
    obtain ⟨tail, htext⟩ : ∃ tail, Element.operandText width (.node (.quaternion x y z last)) =
        '<' :: tail := by
      simp [Element.operandText, Element.renderIn, Node.renderIn_quaternion]
    exact .inl ⟨'<', tail, htext, rfl, rfl⟩
  case value o =>
    rw [Node.wellShaped_value] at hshaped
    rw [Element.operandText_value hshaped, hvalue o rfl]
    exact .inl ⟨'(', _, rfl, rfl, rfl⟩
  case preMod symbol? value? =>
    obtain ⟨symbol, hsymbol, value, hvalue', rfl, rfl⟩ := Node.preMod_of_wellShaped hshaped
    have hheads : ∀ symbol ∈ prefixOperators,
        symbol.toList.head?.any ['+', '-', '!', '~'].contains = true := by decide
    have hhead := hheads symbol hsymbol
    cases hlist : symbol.toList with
    | nil =>
      rw [hlist] at hhead
      cases hhead
    | cons x tail =>
      rw [hlist, List.head?_cons, Option.any_some, List.contains_iff_mem] at hhead
      simp only [List.mem_cons, List.not_mem_nil, or_false] at hhead
      refine .inl ⟨x, _, by rw [Element.operandText_preMod symbol hvalue', hlist]; rfl, ?_, ?_⟩
      · rcases hhead with rfl | rfl | rfl | rfl <;> rfl
      · rcases hhead with rfl | rfl | rfl | rfl <;> rfl
  case postMod symbol? value? =>
    obtain ⟨symbol, hsymbol, name, hname, rfl, rfl⟩ := Node.postMod_of_wellShaped hshaped
    rw [Bool.or_eq_true] at hname
    rw [Element.operandText_postMod]
    rcases hname with hname | hname
    · have hmodified (hfalse : isName name.toList = false) : False := by
        cases hname.symm.trans hfalse
      simp only [postfixOperators, List.mem_cons, List.not_mem_nil, or_false] at hsymbol
      rcases hsymbol with rfl | rfl
      · exact .inr ⟨_, _, _, rfl, hname, rfl, fun hfalse => absurd hfalse hmodified⟩
      · exact .inr ⟨_, _, _, rfl, hname, rfl, fun hfalse => absurd hfalse hmodified⟩
    · obtain ⟨word, tail, hword, hword'⟩ := name_of_isMember hname
      rw [hword, List.append_assoc, List.cons_append]
      exact .inr ⟨_, _, _, rfl, hword', rfl, fun _ => .inr rfl⟩
  all_goals cases hkind

/-- What follows the dot of a member operator is not a name with a modifier. -/
theorem unmodified_dot {element : Element} (helement : element.isWellShapedOperand = true)
    (hvalue : ∀ o, element = .node (.value o) → o.isBinary = true)
    (hmodified : ∀ n, element = .node n → n.isModifiedName = false) (hrest : Follows rest) :
    Unmodified ('.' :: (element.operandText width ++ rest)) := by
  intro word tail heq hword hstops
  have heq' : element.operandText width ++ rest = word ++ tail := List.cons.inj heq |>.2
  -- The word of the member is the name that the operand starts with.
  have hsame {name tail' : List Char} (hname : isName name = true)
      (htext : element.operandText width ++ rest = name ++ tail') (hstops' : Stops isNameChar tail') :
      tail = tail' := by
    have htake := takeWhile_append (all_of_isWord hword) hstops
    rw [← heq', htext, takeWhile_append (all_of_isWord (Bool.and_eq_true_iff.1 hname).1) hstops'] at htake
    rw [htake] at htext
    exact List.append_cancel_left (heq'.symm.trans htext)
  have hhead {x : Char} {tail' : List Char} (htext : element.operandText width ++ rest = x :: tail')
      (hx : isNameStart x = false) : False := by
    rw [htext] at heq'
    cases word with
    | nil => cases hword
    | cons y word =>
      cases heq'
      rw [isWord, hx] at hword
      cases hword
  cases element with
  | text t =>
    rw [Element.isWellShapedOperand] at helement
    simp only [isOperandText, Bool.or_eq_true] at helement
    rw [Element.operandText_text] at hsame hhead
    rcases helement with ((h | h) | h) | h
    · obtain ⟨text', hgap, -, hnone⟩ := hrest.gap
      rw [hsame h rfl hrest.stops]
      rw [NoneOf, List.all_cons, Bool.and_eq_true] at hnone
      exact ⟨text', hgap, hnone.2⟩
    · obtain ⟨x, tail', htext, hx⟩ := head_of_isInteger h
      exact absurd (hhead (by rw [htext]; rfl) (isDigit_eq (.inl hx)).2.1) id
    · obtain ⟨x, tail', htext, hx⟩ := head_of_isFloat h
      exact absurd (hhead (by rw [htext]; rfl) (isDigit_eq hx).2.1) id
    · unfold isString at h
      split at h
      · next htext => exact absurd (hhead (by rw [htext]; rfl) rfl) id
      · cases h
  | node n =>
    rw [Element.isWellShapedOperand, Bool.and_eq_true] at helement
    have hnode := @operandText_node width n helement.1 helement.2 fun o ho => hvalue o (by rw [ho])
    rcases hnode with ⟨x, tail', htext, -, hx⟩ | ⟨name, y, tail', htext, hname, hstop, hy⟩
    · exact absurd (hhead (by rw [htext]; rfl) hx) id
    · have htext' : Element.operandText width (.node n) ++ rest = name ++ y :: (tail' ++ rest) := by
        rw [htext, List.append_assoc, List.cons_append]
      rw [hsame hname htext' (stops_cons.2 hstop)]
      rcases hy (hmodified n rfl) with rfl | rfl
      · exact ⟨_, (solid_cons rfl).gapTo, rfl⟩
      · exact ⟨_, (solid_cons rfl).gapTo, rfl⟩

/-! ## Operators in the place of operands -/

/-- An operator that starts neither a modifier nor any other operand. -/
theorem fails_operand_of_noneOf {x : Char} (hprimary : startsPrimary x = false)
    (h : NoneOf ["++", "--", "!", "~", "-"] (x :: text)) : Fails (.rule .operand) s (x :: text) := by
  have hparts := hprimary
  simp only [startsPrimary, Bool.or_eq_false_iff] at hparts
  refine .rule rfl (.alt ?_ (.alt ?_ (.alt ?_ (fails_of_head rfl hprimary))))
  · exact .rule rfl (.seqFirst (.ahead (fails_words h)))
  · exact fails_of_head rfl hparts.1.1.2
  · exact fails_of_head rfl hparts.1.1.1.1.1.1

/-- An angle does not start a literal if its first component leads to none, neither to a rotation nor
to a vector. -/
theorem fails_operand_of_angle (hgap : GapTo text text') (hsolid : Solid text')
    (hquaternion : Fails (.seq (.rule .value) (finishPattern 2)) ([','] :: s) text')
    (hvector : Fails (.seq (.rule .value) (finishPattern 1)) ([','] :: s) text') :
    Fails (.rule .operand) s ('<' :: text) := by
  have hliteral {count : Nat}
      (h : Fails (.seq (.rule .value) (finishPattern count)) ([','] :: s) text') :
      Fails (cat [word "<", pushLit [','], .rule .value, finishPattern count]) s ('<' :: text) :=
    .seqSecond (.word "<") hgap (.next (.pushLit [',']) hsolid h)
  have hprimary : Fails (.rule .primary) s ('<' :: text) := by
    refine .rule rfl (.alt (fails_of_head rfl rfl) (.alt (.rule rfl (hliteral hquaternion))
      (.alt (.rule rfl (hliteral hvector)) (.alt (fails_of_head rfl rfl) (.alt ?_ ?_)))))
    · exact .seqFirst (.push (.word rfl))
    · exact .alt (fails_of_head rfl rfl) (.alt (fails_of_head rfl rfl)
        (.alt (fails_of_head rfl rfl) (fails_of_head rfl rfl)))
  exact .rule rfl (.alt (fails_of_head rfl rfl) (.alt (fails_of_head rfl rfl)
    (.alt (fails_of_head rfl rfl) hprimary)))

theorem fails_value_of_operand (h : Fails (.rule .operand) s text) : Fails (.rule .value) s text :=
  .rule rfl (.seqFirst h)

/-- A dot with no digit after it starts no operand. -/
theorem fails_operand_of_dot (h : Stops Char.isDigit text) : Fails (.rule .operand) s ('.' :: text) := by
  have hfloat : Fails (.rule .float) s ('.' :: text) := by
    refine .of_scans scans_float rfl rfl ?_
    have htake : text.takeWhile Char.isDigit = [] := by
      simpa using @takeWhile_append Char.isDigit [] text rfl h
    simp [takeFloat?, htake]
  have hprimary : Fails (.rule .primary) s ('.' :: text) := by
    refine .rule rfl (.alt (fails_of_head rfl rfl) (.alt (fails_of_head rfl rfl)
      (.alt (fails_of_head rfl rfl) (.alt (fails_of_head rfl rfl) (.alt ?_ (.alt hfloat ?_))))))
    · exact .seqFirst (.push (.word rfl))
    · exact .alt (fails_of_head rfl rfl) (.alt (fails_of_head rfl rfl) (fails_of_head rfl rfl))
  exact .rule rfl (.alt (fails_of_head rfl rfl) (.alt (fails_of_head rfl rfl)
    (.alt (fails_of_head rfl rfl) hprimary)))

/-! ## A try to read a literal at an operator -/

/-- The right side of an operation is read wherever the operation ends. -/
def ReadsRight (width : Nat) (element : Element) (rest : List Char) : Prop :=
  ∀ s, Nested s → ∃ r, Rule.isOperand r = true ∧
    Reads (.rule .operand) s (element.operandText width ++ rest) s rest [.single r element]

variable {element : Element} {count : Nat}

/-- A try fails at an operator that does not read as the start of an operand. -/
theorem pends_of_operator {symbol : String} (hlevel : (Level.of? symbol).isSome = true)
    (hdot : symbol ≠ ".") (hmodifier : symbol ∉ modifierOperators)
    (hliteral : symbol ∉ literalOperators) : Pends count (symbolText symbol ++ text) := by
  have hd := distinct_of_level hlevel (.inr ⟨text, rfl⟩)
  have htext : symbolText symbol ++ text = ' ' :: (symbol.toList ++ ' ' :: text) := by
    simp [symbolText, hdot]
  rw [htext]
  refine pends_of_fails hd.solid.blank (noneOf_cons rfl) fun s => ?_
  by_cases hle : symbol = "<="
  · subst hle
    have hvalue {text : List Char} : Fails (.rule .value) ([','] :: [','] :: s) ('=' :: text) :=
      .of_starts rfl (stops_cons.2 rfl)
    exact fails_operand_of_angle (solid_cons rfl).gapTo (solid_cons rfl) (.seqFirst hvalue)
      (.seqFirst hvalue)
  · have hmem := mem_binaryOperators hlevel
    simp only [binaryOperators, Level.all, Level.operators, List.flatMap_cons, List.flatMap_nil,
      List.cons_append, List.nil_append, List.mem_cons, List.not_mem_nil, or_false, hdot, hle] at hmem
    simp only [modifierOperators, List.mem_cons, List.not_mem_nil, or_false, not_or] at hmodifier
    simp only [literalOperators, List.mem_cons, List.not_mem_nil, or_false, not_or] at hliteral
    simp only [hmodifier, hliteral, false_or] at hmem
    rcases hmem with rfl | rfl | rfl | rfl | rfl | rfl | rfl | rfl | rfl | rfl | rfl | rfl | rfl |
      rfl | rfl | rfl | rfl | rfl <;>
      exact fails_operand_of_noneOf rfl rfl

/-- An operator that is not a dot has blanks around it. -/
theorem symbolText_append {symbol : String} (hdot : symbol ≠ ".") (text : List Char) :
    symbolText symbol ++ text = ' ' :: (symbol.toList ++ ' ' :: text) := by
  simp [symbolText, hdot]

section

variable {symbol : String} (hlevel : (Level.of? symbol).isSome = true)
  (hsolid : Solid (element.operandText width ++ rest)) (hright : ReadsRight width element rest)

include hlevel hsolid hright

/-- A try fails at an operator that reads as a modifier of the right side, if it fails after that. -/
theorem pends_of_modifierOperator (hsymbol : symbol ∈ modifierOperators)
    (hstalls : Stalls count rest) :
    Pends count (symbolText symbol ++ (element.operandText width ++ rest)) := by
  have hfacts : ∀ symbol ∈ modifierOperators, symbol ≠ "." ∧ symbol ∈ prefixOperators := by decide
  obtain ⟨hdot, hprefix⟩ := hfacts symbol hsymbol
  have hd := distinct_of_level hlevel (.inr ⟨element.operandText width ++ rest, rfl⟩)
  rw [symbolText_append hdot]
  refine pends_of_reads hd.solid.blank (noneOf_cons rfl) (fun s => ?_) hstalls
  obtain ⟨r, hr, hread⟩ := hright ([','] :: s) (nested_cons (by decide))
  exact ⟨_, reads_preMod hprefix hd.find hsolid.blank hr hread⟩

/-- A try fails at an operator that reads as the start of a literal, if the try for that literal
fails after the right side. -/
theorem pends_of_literalOperator (hsymbol : symbol ∈ literalOperators) (hvector : Stalls 1 rest)
    (hquaternion : Stalls 2 rest) :
    Pends count (symbolText symbol ++ (element.operandText width ++ rest)) := by
  have hfacts : ∀ symbol ∈ literalOperators, symbol ≠ "." := by decide
  have hd := distinct_of_level hlevel (.inr ⟨element.operandText width ++ rest, rfl⟩)
  have hangle (s : List (List Char)) :
      Fails (.rule .operand) s ('<' :: ' ' :: (element.operandText width ++ rest)) := by
    obtain ⟨r, -, hread⟩ := hright ([','] :: s) (nested_cons (by decide))
    exact fails_operand_of_angle hsolid.blank hsolid (fails_component hread (hquaternion s))
      (fails_component hread (hvector s))
  rw [symbolText_append (hfacts symbol hsymbol)]
  refine pends_of_fails hd.solid.blank (noneOf_cons rfl) fun s => ?_
  simp only [literalOperators, List.mem_cons, List.not_mem_nil, or_false] at hsymbol
  rcases hsymbol with rfl | rfl
  · exact hangle ([','] :: s)
  · have hvalue (count : Nat) : Fails (.seq (.rule .value) (finishPattern count)) ([','] :: [','] :: s)
        ('<' :: ' ' :: (element.operandText width ++ rest)) :=
      .seqFirst (fails_value_of_operand (hangle ([','] :: [','] :: s)))
    exact @fails_operand_of_angle ([','] :: s) _ _ (solid_cons rfl).gapTo (solid_cons rfl) (hvalue 2)
      (hvalue 1)

end

/-! ## The whole operation -/

/-- An operation without sides is read back if its operand is. -/
theorem readsOperation_leaf (h : ReadsOperand width element) :
    ReadsOperation width ⟨none, some element, none⟩ := by
  intro s rest hs hrest _ _ htries
  obtain ⟨r, stop, hr, hstop, hread⟩ := h s rest hs (.ends hrest) (joins_of_stops hrest.stops) htries
  have hassemble : assemble [element] = .ok (.leaf element) := by rw [assemble]
  rw [hstop.eq hrest.solid] at hread
  exact @RunsTo.leaf s _ _ _ (r, element) hr hassemble hread

section

variable {left right : Operation} {symbol : String}

/-- The operator comes after the gap that is before it, and the right side after the one behind. -/
theorem gapTo_symbolText (hlevel : (Level.of? symbol).isSome = true) (hsolid : Solid text) :
    ∃ after, GapTo (symbolText symbol ++ text) (symbol.toList ++ after) ∧
      Solid (symbol.toList ++ after) ∧ Spaced symbol after ∧ GapTo after text := by
  by_cases hdot : symbol = "."
  · subst hdot
    exact ⟨text, (solid_cons rfl).gapTo, solid_cons rfl, .inl rfl, hsolid.gapTo⟩
  · have hspaced : Spaced symbol (' ' :: text) := .inr ⟨text, rfl⟩
    have hd := distinct_of_level hlevel hspaced
    refine ⟨' ' :: text, ?_, hd.solid, hspaced, hsolid.blank⟩
    rw [symbolText, if_neg hdot, List.cons_append, List.append_assoc]
    exact hd.solid.blank

/-- The right side of a member operator is a number, or it does not start with a digit. -/
theorem number_or_stops (hshaped : right.wellShaped = true)
    (hsettled : (right.isBinary || !(right.center?.any Element.isExpression)) = true)
    (h : ReadsOperand width right.sideElement) :
    (∃ digits, right.sideElement.operandText width = digits ∧
      (isInteger digits = true ∨ isFloat digits = true) ∧
      digits.head?.any Char.isDigit = true ∧ (Node.value right).isNumber = true) ∨
    Stops Char.isDigit (right.sideElement.operandText width ++ rest) := by
  obtain ⟨x, tail, htext, -⟩ := h.head
  have hplain := right.isPlainOperand_sideElement hshaped
  have hbinary (o : Operation) := @Operation.isBinary_of_sideElement right hshaped hsettled o
  rw [Node.isNumber, ← right.core_sideElement]
  cases hside : right.sideElement with
  | text digits =>
    rw [hside, Element.operandText_text] at htext
    rw [hside, Element.isPlainOperand, Element.isWellShapedOperand, Bool.and_eq_true] at hplain
    rw [Element.operandText_text, Element.core]
    by_cases hdigit : x.isDigit = true
    · have hhead : digits.toList.head?.any Char.isDigit = true := by
        rw [htext]
        exact hdigit
      refine .inl ⟨_, rfl, ?_, hhead, hhead⟩
      simp only [isOperandText, Bool.or_eq_true] at hplain
      rcases hplain.1 with ((hname | hinteger) | hfloat) | hstring
      · obtain ⟨y, word, hword, hy⟩ := head_of_isName hname
        rw [hword] at hhead
        cases (isNameStart_eq hy).2.1.symm.trans hhead
      · exact .inl hinteger
      · exact .inr hfloat
      · unfold isString at hstring
        split at hstring
        · next hquote =>
          rw [hquote] at hhead
          cases hhead
        · cases hstring
    · rw [htext]
      exact .inr (stops_cons.2 (Bool.eq_false_iff.2 hdigit))
  | node n =>
    refine .inr ?_
    rw [hside] at hplain hbinary
    rw [Element.isPlainOperand, Element.isWellShapedOperand, Bool.and_eq_true,
      Bool.and_eq_true] at hplain
    have hnode := @operandText_node width n hplain.1.1 hplain.1.2
      fun o ho => hbinary o (by rw [ho])
    rcases hnode with ⟨y, tail', hy, hdigit, -⟩ | ⟨word, y, tail', hy, hword, -⟩
    · rw [hy]
      exact stops_cons.2 hdigit
    · obtain ⟨z, word', rfl, hz⟩ := head_of_isName hword
      rw [hy]
      exact stops_cons.2 (isNameStart_eq hz).2.1

/-- The conditions under which an operator and its right side do not run into the left side. -/
def Separate (left : Operation) (symbol : String) (right : Operation) : Prop :=
  (symbol == "." && ((Node.value left).endsInDigits ||
    ((Node.value left).endsInName && (Node.value right).isModifiedName))) = false

/-- The operator does not run into the left side. -/
theorem joins_symbolText (hshaped : right.wellShaped = true)
    (hsettled : (right.isBinary || !(right.center?.any Element.isExpression)) = true)
    (hseparate : Separate left symbol right) (hrest : Follows rest) :
    Joins left.sideElement (symbolText symbol ++ (right.sideElement.operandText width ++ rest)) := by
  by_cases hdot : symbol = "."
  · subst hdot
    simp only [Separate, beq_self_eq_true, Bool.true_and, Bool.or_eq_false_iff] at hseparate
    obtain ⟨hdigits, hname⟩ := hseparate
    intro word hlast
    rw [left.lastOperand_sideElement] at hlast
    refine ⟨fun hword => ?_, fun hword => ?_⟩
    · rw [Node.endsInDigits, hlast] at hdigits
      cases hdigits.symm.trans hword
    · rw [Node.endsInName, hlast] at hname
      have hmodified : (Node.value right).isModifiedName = false := by
        simpa [hword] using hname
      have hplain := right.isPlainOperand_sideElement hshaped
      refine unmodified_dot (Bool.and_eq_true_iff.1 hplain).1
        (fun o => right.isBinary_of_sideElement hshaped hsettled) (fun n hn => ?_) hrest
      rw [Node.isModifiedName, ← right.core_sideElement, hn] at hmodified
      exact hmodified
  · refine joins_of_stops ?_
    rw [symbolText, if_neg hdot]
    exact stops_cons.2 rfl

/-- The operator and the right side do not help a try to read a literal that goes on from the left
side. -/
theorem pends_symbolText (hlevel : (Level.of? symbol).isSome = true)
    (hshaped : right.wellShaped = true)
    (hsettled : (right.isBinary || !(right.center?.any Element.isExpression)) = true)
    (h : ReadsOperand width right.sideElement) (hrest : Ends rest)
    (hright : ReadsRight width right.sideElement rest)
    (hstrays : ∀ count ∈ Operation.strays
      ⟨some (.value left), some (.text symbol), some (.value right)⟩, Stalls count rest)
    {count : Nat} (hcount : count ∈ (Node.value left).tries) :
    Pends count (symbolText symbol ++ (right.sideElement.operandText width ++ rest)) := by
  rw [Operation.strays] at hstrays
  by_cases hmodifier : symbol ∈ modifierOperators
  · rw [List.contains_iff_mem.2 hmodifier, Bool.true_or, if_pos rfl] at hstrays
    exact pends_of_modifierOperator hlevel h.solid hright hmodifier (hstrays count hcount)
  · rw [Bool.eq_false_iff.2 (mt List.contains_iff_mem.1 hmodifier), Bool.false_or] at hstrays
    by_cases hdot : symbol = "."
    · subst hdot
      rcases @number_or_stops rest width right hshaped hsettled h with
        ⟨digits, htext, hnumber, hhead, hright⟩ | hstops
      · rw [hright, beq_self_eq_true, Bool.and_self, if_pos rfl] at hstrays
        have hpends := pends_of_number hnumber hhead hrest (hstrays count hcount)
        rw [htext]
        exact hpends
      · exact pends_of_fails (solid_cons rfl).gapTo (noneOf_cons rfl) fun s =>
          fails_operand_of_dot hstops
    · rw [beq_eq_false_iff_ne.2 hdot, Bool.false_and, if_neg Bool.false_ne_true] at hstrays
      by_cases hliteral : symbol ∈ literalOperators
      · have hnonempty : (Node.value left).tries.isEmpty = false :=
          List.isEmpty_eq_false_iff_exists_mem.2 ⟨count, hcount⟩
        rw [List.contains_iff_mem.2 hliteral, hnonempty, Bool.not_false, Bool.and_self,
          if_pos rfl] at hstrays
        exact pends_of_literalOperator hlevel h.solid hright hliteral (hstrays 1 (by simp))
          (hstrays 2 (by simp))
      · exact pends_of_operator hlevel hdot hmodifier hliteral

/-- An operation with two sides is read back if its sides are. -/
theorem readsOperation_binary (hleft : left.wellShaped = true)
    (hlevel : (Level.of? symbol).isSome = true) (hright : right.wellShaped = true)
    (hsettled : (left.isBinary || !(left.center?.any Element.isExpression)) = true)
    (hsettled' : (right.isBinary || !(right.center?.any Element.isExpression)) = true)
    (hseparate : Separate left symbol right) (h : ReadsOperand width left.sideElement)
    (h' : ReadsOperand width right.sideElement) :
    ReadsOperation width ⟨some (.value left), some (.text symbol), some (.value right)⟩ := by
  intro s rest hs hrest hfits hstrays htries
  have hreads : ReadsRight width right.sideElement rest := by
    intro s hs
    obtain ⟨r, stop, hr, hstop, hread⟩ := h' s rest hs (.ends hrest) (joins_of_stops hrest.stops)
      (by rw [right.tries_sideElement]; exact htries)
    rw [hstop.eq hrest.solid] at hread
    exact ⟨r, hr, hread⟩
  obtain ⟨r', hr', hread'⟩ := hreads s hs
  obtain ⟨r, stop, hr, hstop, hread⟩ := h s _ hs (.operator _ hlevel)
    (joins_symbolText hright hsettled' hseparate (.ends hrest)) fun count hcount => by
      rw [left.tries_sideElement] at hcount
      exact pends_symbolText hlevel hright hsettled' h' hrest hreads hstrays hcount
  obtain ⟨after, hgap, hsolid, hspaced, hgap'⟩ :=
    gapTo_symbolText hlevel (@ReadsOperand.solid rest width _ h')
  have hround : Reads roundPattern s (symbol.toList ++ after) s rest
      (roundItems (r', symbol, right.sideElement)) :=
    .seq (reads_binaryOperator hs hlevel hspaced fun htop => by
      simpa [Operation.fitsLast] using hfits htop) hgap' hread'
  have hassemble := assemble_of_operands (left.isPlainOperand_sideElement hleft)
    (right.isPlainOperand_sideElement hright) hlevel
  rw [left.toOperand_sideElement hleft hsettled, right.toOperand_sideElement hright hsettled']
    at hassemble
  rw [Operation.text_binary, ← left.operandText_sideElement hleft,
    ← right.operandText_sideElement hright, List.append_assoc, List.append_assoc]
  exact @RunsTo.binary s _ _ _ (r, left.sideElement) (r', symbol, right.sideElement) _ _ hr hr'
    hassemble hread (hstop.gapTo hgap hsolid) hround

end

end Rule

end Lsl
