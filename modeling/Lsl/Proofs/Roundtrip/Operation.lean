import Lsl.Proofs.Roundtrip.Pending
/-!
# Reading operations

An operation is read from its operands.  `RunsTo` says that a text starts with the operands and the
operator of an operation; where nothing further belongs to it, the text is read back as the
operation, and a try to read a literal that goes on from there fails if it fails after it.
-/

namespace Lsl.Rule

open Peg Pattern Lexeme

variable {s : List (List Char)} {text text' rest : List Char} {o : Operation} {width count : Nat}

/-! ## Operands and rounds -/

/-- The items of a round of an operation. -/
def roundItems (round : Rule × String × Element) : List Item :=
  [.single .operator (.text round.2.1), .single round.1 round.2.2]

/-- The text starts with the operands of an operation, after which the rest comes. -/
inductive RunsTo (s : List (List Char)) (text rest : List Char) (o : Operation) : Prop
  | leaf {first : Rule × Element} : first.1.isOperand = true → assemble [first.2] = .ok o →
      Reads (.rule .operand) s text s rest [.single first.1 first.2] → RunsTo s text rest o
  | binary {first : Rule × Element} {round : Rule × String × Element} {mid mid' : List Char} :
      first.1.isOperand = true → round.1.isOperand = true →
      assemble [first.2, .text round.2.1, round.2.2] = .ok o →
      Reads (.rule .operand) s text s mid [.single first.1 first.2] → GapTo mid mid' →
      Reads roundPattern s mid' s rest (roundItems round) → RunsTo s text rest o

/-- The rules of operations. -/
structure IsOperation (r : Rule) (kind : Kind) : Prop where
  builds : r.kind? = some kind
  expression : kind.isExpression = true
  pattern : r.pattern = operationPattern
  silent : r.isSilent = false
  atomic : r.isAtomic = false
  consumes : r.matchesNothing = false
  starts : Rule.starts r = startsOperand

theorem isOperation_value : IsOperation .value .value :=
  ⟨rfl, rfl, rfl, rfl, rfl, rfl, rfl⟩

theorem isOperation_expression : IsOperation .expression .expression :=
  ⟨rfl, rfl, rfl, rfl, rfl, rfl, rfl⟩

theorem isOperation_condition : IsOperation .condition .condition :=
  ⟨rfl, rfl, rfl, rfl, rfl, rfl, rfl⟩

theorem IsOperation.solid {r : Rule} {kind : Kind} (hr : IsOperation r kind)
    {items : List Item} (h : Reads (.rule r) s text s rest items) : Solid text := by
  obtain ⟨x, tail, rfl, hx⟩ := h.starts hr.consumes
  rw [hr.starts] at hx
  exact solid_of_startsOperand hx

/-- Where no round follows, the operation is read back. -/
theorem RunsTo.reads (h : RunsTo s text rest o) {r : Rule} {kind : Kind}
    (hr : IsOperation r kind) (hsolid : Solid rest) (hround : Fails roundPattern s rest) :
    Reads (.rule r) s text s rest [.single r (.node (o.toNode kind))] := by
  cases h with
  | @leaf first hfirst hassemble hread =>
    refine .node hr.builds (@build_operation kind hr.expression first [] hfirst rfl o hassemble)
      hr.silent hr.atomic ?_
    rw [hr.pattern]
    exact hread.next hsolid (.starNone hround)
  | @binary first round mid mid' hfirst hsecond hassemble hread hgap hread' =>
    have hrounds : [round].all (fun round => round.1.isOperand) = true := by
      rw [List.all_cons, hsecond]
      rfl
    refine .node hr.builds (@build_operation kind hr.expression first [round] hfirst hrounds o
      hassemble) hr.silent hr.atomic ?_
    rw [hr.pattern]
    exact hread.seq hgap (.starSome hread' (.moreNone hsolid.gapTo hround))

/-- A try to read a literal with the operation as a component fails if it fails after it. -/
theorem RunsTo.fails (h : RunsTo s text rest o)
    (hrest : Fails (.seq (.more roundPattern) (finishPattern count)) s rest) :
    Fails (.seq (.rule .value) (finishPattern count)) s text := by
  cases h with
  | leaf _ _ hread => exact fails_component hread hrest
  | binary _ _ _ hread hgap hread' =>
    exact fails_component hread (fails_more_of_round hgap hread' hrest)

theorem RunsTo.starts (h : RunsTo s text rest o) :
    ∃ x tail, text = x :: tail ∧ startsOperand x = true := by
  cases h with
  | leaf _ _ hread => exact hread.starts rfl
  | binary _ _ _ hread => exact hread.starts rfl

theorem RunsTo.solid (h : RunsTo s text rest o) : Solid text := by
  obtain ⟨x, tail, rfl, hx⟩ := h.starts
  exact solid_of_startsOperand hx

/-! ## What operands and operations can be followed by -/

/-- A dot with a name after it is not followed by a modifier. -/
def Unmodified (rest : List Char) : Prop :=
  ∀ word tail, rest = '.' :: (word ++ tail) → isWord word = true → Stops isNameChar tail →
    ∃ tail', GapTo tail tail' ∧ NoneOf ["++", "--"] tail'

/-- What follows an operand does not run into it. -/
def Joins (element : Element) (rest : List Char) : Prop :=
  ∀ word, element.lastOperand = .text word →
    (isDigits word.toList = true → Stops (· == '.') rest) ∧
      (isName word.toList = true → Unmodified rest)

/-- A match in front of the rest stops there, or at the end of the gap that comes first in it. -/
def StopsAt (rest stop : List Char) : Prop :=
  stop = rest ∨ GapTo rest stop

theorem StopsAt.gapTo {stop : List Char} (h : StopsAt rest stop) (hgap : GapTo rest text)
    (hsolid : Solid text) : GapTo stop text := by
  rcases h with rfl | hstop
  · exact hgap
  · have heq : text = stop := by
      obtain ⟨_, hskips⟩ := hstop 0 []
      exact (hgap.unique hskips).2.symm
    rw [← heq]
    exact hsolid.gapTo

theorem StopsAt.eq {stop : List Char} (h : StopsAt rest stop) (hsolid : Solid rest) :
    stop = rest := by
  rcases h with rfl | hstop
  · rfl
  · obtain ⟨_, hskips⟩ := hstop 0 []
    exact (hsolid.gapTo.unique hskips).2

/-- An operand is read back wherever it can be written. -/
def ReadsOperand (width : Nat) (element : Element) : Prop :=
  ∀ s rest, Nested s → Follows rest → Joins element rest →
    (∀ count ∈ element.tries, Pends count rest) →
    ∃ r stop, Rule.isOperand r = true ∧ StopsAt rest stop ∧
      Reads (.rule .operand) s (element.operandText width ++ rest) s stop [.single r element]

/-- An operation is read back wherever it can be written. -/
def ReadsOperation (width : Nat) (o : Operation) : Prop :=
  ∀ s rest, Nested s → Ends rest → (s.head? = some ['>'] → o.fitsLast = true) →
    (∀ count ∈ o.strays, Stalls count rest) → (∀ count ∈ o.tries, Pends count rest) →
    RunsTo s (o.text width ++ rest) rest o

theorem Ends.stops (h : Ends rest) : Stops (· == '.') rest := by
  cases h with
  | done => exact .nil _
  | close hx =>
    simp only [endsExpression, Bool.or_eq_true, beq_iff_eq] at hx
    rcases hx with (((rfl | rfl) | rfl) | rfl) | rfl <;> exact stops_cons.2 rfl

theorem joins_of_stops {element : Element} (h : Stops (· == '.') rest) : Joins element rest := by
  intro word _
  refine ⟨fun _ => h, fun _ word tail heq => ?_⟩
  rw [heq] at h
  cases stops_cons.1 h

/-- The written form of an operation starts like an operand. -/
theorem ReadsOperation.head (h : ReadsOperation width o) :
    ∃ x tail, o.text width = x :: tail ∧ startsOperand x = true := by
  have hruns := h [] [] nofun .done nofun (fun _ _ => stalls_nil) fun _ _ => pends_nil
  rw [List.append_nil] at hruns
  exact hruns.starts

theorem ReadsOperation.solid (h : ReadsOperation width o) : Solid (o.text width ++ rest) := by
  obtain ⟨x, tail, htext, hx⟩ := h.head
  rw [htext]
  exact solid_of_startsOperand hx

/-! ## Operations before the end of an expression -/

/-- An operation is read back in front of a bracket, a comma or a semicolon. -/
theorem ReadsOperation.reads (h : ReadsOperation width o) {r : Rule} {kind : Kind}
    (hr : IsOperation r kind) (hs : Nested s) {x : Char} (hx : endsExpression x = true)
    (hne : x ≠ '>') (hfits : s.head? = some ['>'] → o.fitsLast = true)
    (hstrays : ∀ count ∈ o.strays, Stalls count (x :: rest)) :
    Reads (.rule r) s (o.text width ++ x :: rest) s (x :: rest)
      [.single r (.node (o.toNode kind))] := by
  have hruns := h s (x :: rest) hs (.close hx) hfits hstrays fun _ _ => pends_of_ends hx hne
  exact hruns.reads hr (solid_of_ends hx) (fails_round_of_ends hx hne)

/-- An operation is read back at the end of a text. -/
theorem ReadsOperation.reads_whole (h : ReadsOperation width o) {r : Rule} {kind : Kind}
    (hr : IsOperation r kind) :
    Reads (.rule r) [] (o.text width) [] [] [.single r (.node (o.toNode kind))] := by
  have hruns := h [] [] nofun .done nofun (fun _ _ => stalls_nil) fun _ _ => pends_nil
  rw [List.append_nil] at hruns
  exact hruns.reads hr solid_nil (fails_round_of_noneOf rfl solid_nil)

/-! ## Operations one after the other -/

theorem nested_cons {top : List Char} (h : top ∈ [['('], ['['], [','], ['>']]) :
    Nested (top :: s) := by
  intro top' htop'
  cases htop'
  exact h

/-- What is written after an operation in a list or a literal: the further ones, and the rest. -/
def elementsText (width : Nat) : List Operation → List Char → List Char
  | [], rest => rest
  | o :: os, rest => ',' :: ' ' :: (o.text width ++ elementsText width os rest)

theorem commaText_append (o : Operation) (os : List Operation) (rest : List Char) :
    commaText ((o :: os).map (Operation.text width)) ++ rest =
      o.text width ++ elementsText width os rest := by
  induction os generalizing o with
  | nil => simp [elementsText]
  | cons o' os ih =>
    rw [elementsText, ← ih o']
    simp

/-- Only where no further operation is written, the rest follows at once. -/
theorem ends_elementsText (os : List Operation) {x : Char} (hx : endsExpression x = true) :
    ∃ y tail, elementsText width os (x :: rest) = y :: tail ∧ endsExpression y = true ∧
      (y = '>' → os = [] ∧ x = '>') := by
  cases os with
  | nil => exact ⟨x, rest, rfl, hx, fun h => ⟨rfl, h⟩⟩
  | cons o os => exact ⟨',', _, rfl, rfl, by rintro ⟨⟩⟩

/-- A try that needs `count` components before its last one comes to nothing in the operations `os`
and the rest: what it takes for its last component does not end in a closing angle. -/
structure Passes (rest : List Char) (os : List Operation) (count : Nat) : Prop where
  fits : os[count]?.all Operation.fitsLast = true
  unclosed : count + 1 = os.length → rest.head? ≠ some '>'
  stalls : os.length ≤ count → Stalls (count - os.length) rest

/-- Whatever goes on from one of the operations comes to nothing in those after it and the rest. -/
inductive Separated (rest : List Char) : List Operation → Prop
  | nil : Separated rest []
  | cons {o : Operation} {os : List Operation} : (∀ count ∈ o.strays, Passes rest os count) →
      (os = [] → ∀ count ∈ o.tries, Pends count rest) → Separated rest os →
      Separated rest (o :: os)

section

variable {os : List Operation} {x : Char} (hx : endsExpression x = true)

include hx

theorem ReadsOperation.runsTo (h : ReadsOperation width o) (hs : Nested s)
    (hfits : s.head? = some ['>'] → o.fitsLast = true)
    (hstrays : ∀ count ∈ o.strays, Stalls count (elementsText width os (x :: rest)))
    (htries : os = [] → ∀ count ∈ o.tries, Pends count (x :: rest)) :
    RunsTo s (o.text width ++ elementsText width os (x :: rest))
      (elementsText width os (x :: rest)) o := by
  cases os with
  | nil => exact h s _ hs (.close hx) hfits hstrays (htries rfl)
  | cons o' os =>
    exact h s _ hs (.close rfl) hfits hstrays fun _ _ => pends_of_ends rfl (by decide)

/-- A try that reads the operations one by one as its components fails in the end: it comes to an
operation that is its last component without a closing angle after it, or past all of them. -/
theorem stalls_elementsText (h : Separated (x :: rest) os)
    (hread : ∀ o ∈ os, ReadsOperation width o) (hpasses : Passes (x :: rest) os count) :
    Stalls count (elementsText width os (x :: rest)) := by
  induction h generalizing count with
  | nil => exact hpasses.stalls (Nat.zero_le count)
  | @cons o os hstrays htries hsep ih =>
    obtain ⟨ho, hos⟩ := List.forall_mem_cons.1 hread
    have hruns {s : List (List Char)} (hs : Nested s)
        (hfits : s.head? = some ['>'] → o.fitsLast = true) :=
      ho.runsTo hx hs hfits (fun count hcount => ih hos (hstrays count hcount)) htries
    rw [elementsText]
    intro s
    have hsolid : Solid (',' :: ' ' :: (o.text width ++ elementsText width os (x :: rest))) :=
      solid_cons rfl
    refine .next (.moreNone hsolid.gapTo (fails_round_of_ends rfl (by decide))) hsolid ?_
    cases count with
    | zero =>
      obtain ⟨y, tail, htail, hy, hangle⟩ := @ends_elementsText rest width os x hx
      have hne : y ≠ '>' := by
        intro heq
        obtain ⟨rfl, rfl⟩ := hangle heq
        exact hpasses.unclosed rfl rfl
      have hlast := @hruns (['>'] :: s) (nested_cons (by decide)) fun _ => hpasses.fits
      have hsolid' : Solid (y :: tail) := solid_of_ends hy
      have hclose : Fails (word ">") s (y :: tail) :=
        .word (by simp [List.isPrefixOf, Ne.symm hne])
      rw [htail] at hlast ⊢
      have hvalue := hlast.reads isOperation_value hsolid' (fails_round_of_ends hy hne)
      refine .next (.drop [',']) hsolid (.seqSecond (.word ",") hlast.solid.blank ?_)
      exact .next (.pushLit ['>']) hlast.solid
        (.next hvalue hsolid' (.next (.drop ['>']) hsolid' hclose))
    | succ count =>
      have hnext := @hruns ([','] :: s) (nested_cons (by decide)) nofun
      have hpasses' : Passes (x :: rest) os count :=
        ⟨hpasses.fits, fun heq => hpasses.unclosed (congrArg (· + 1) heq), fun hle => by
          simpa using hpasses.stalls (Nat.succ_le_succ hle)⟩
      exact .seqSecond (.word ",") hnext.solid.blank (hnext.fails (ih hos hpasses' s))

/-- Each of the operations is read back. -/
theorem Separated.runsTo (h : Separated (x :: rest) (o :: os))
    (hread : ∀ o' ∈ o :: os, ReadsOperation width o') (hs : Nested s)
    (hfits : s.head? = some ['>'] → o.fitsLast = true) :
    RunsTo s (o.text width ++ elementsText width os (x :: rest))
      (elementsText width os (x :: rest)) o := by
  obtain ⟨ho, hos⟩ := List.forall_mem_cons.1 hread
  cases h with
  | cons hstrays htries hsep =>
    exact ho.runsTo hx hs hfits
      (fun count hcount => stalls_elementsText hx hsep hos (hstrays count hcount)) htries

/-- In front of another one, or of what closes a list, it is read back whole. -/
theorem Separated.reads (h : Separated (x :: rest) (o :: os))
    (hread : ∀ o' ∈ o :: os, ReadsOperation width o') {r : Rule} {kind : Kind}
    (hr : IsOperation r kind) (hs : Nested s) (htop : s.head? ≠ some ['>'])
    (hne : os = [] → x ≠ '>') :
    Reads (.rule r) s (o.text width ++ elementsText width os (x :: rest)) s
      (elementsText width os (x :: rest)) [.single r (.node (o.toNode kind))] := by
  have hruns := h.runsTo hx hread hs fun h => absurd h htop
  obtain ⟨y, tail, htail, hy, hangle⟩ := @ends_elementsText rest width os x hx
  rw [htail] at hruns ⊢
  refine hruns.reads hr (solid_of_ends hy) (fails_round_of_ends hy fun heq => ?_)
  exact hne (hangle heq).1 (hangle heq).2

end

/-! ## Lists -/

/-- What closes a list lets no try go on. -/
theorem separated_of_separable {os : List Operation} {x : Char} (hx : closesList x = true)
    (h : separable os = true) : Separated (x :: rest) os := by
  have hends := ends_of_closesList hx
  induction os with
  | nil => exact .nil
  | cons o os ih =>
    rw [separable, Bool.and_eq_true, List.all_eq_true] at h
    refine .cons (fun count hcount => ⟨h.1 count hcount, fun _ hhead => ?_, fun _ => ?_⟩)
      (fun _ _ _ => pends_of_ends hends.1 hends.2) (ih h.2)
    · exact hends.2 (Option.some.inj hhead)
    · exact stalls_close hx

/-- The elements of a list after its first one. -/
theorem reads_elements {os : List Operation} {r : Rule} {kind : Kind} (hr : IsOperation r kind)
    (hs : Nested s) (htop : s.head? ≠ some ['>']) {x : Char} (hx : closesList x = true)
    (hread : ∀ o ∈ os, ReadsOperation width o) (h : Separated (x :: rest) os) :
    Reads (.more (seq (word ",") (.rule r))) s (elementsText width os (x :: rest)) s (x :: rest)
      (os.map fun o => .single r (.node (o.toNode kind))) := by
  have hends := ends_of_closesList hx
  induction h with
  | nil =>
    have hsolid : Solid (x :: rest) := solid_of_ends hends.1
    have hne : x ≠ ',' := by
      rintro rfl
      cases hx
    exact .moreNone hsolid.gapTo (.seqFirst (.word (by simp [List.isPrefixOf, Ne.symm hne])))
  | @cons o os hstrays htries hsep ih =>
    have hmore := ih fun o ho => hread o (List.mem_cons_of_mem _ ho)
    have hvalue := (Separated.cons hstrays htries hsep).reads hends.1 hread hr hs htop
      fun _ => hends.2
    exact .moreSome (solid_cons rfl).gapTo (.seq (.word ",") (hr.solid hvalue).blank hvalue) hmore

theorem solid_commaText {os : List Operation} (hread : ∀ o ∈ os, ReadsOperation width o)
    (hrest : Solid rest) : Solid (commaText (os.map (Operation.text width)) ++ rest) := by
  cases os with
  | nil => exact hrest
  | cons o os =>
    rw [commaText_append]
    exact (hread o List.mem_cons_self).solid

/-- Operations with commas between them, or none. -/
theorem reads_commaSeparated (os : List Operation) {r : Rule} {kind : Kind}
    (hr : IsOperation r kind) (hs : Nested s) (htop : s.head? ≠ some ['>']) {x : Char}
    (hx : closesList x = true) (hread : ∀ o ∈ os, ReadsOperation width o)
    (hseparable : separable os = true) :
    Reads (commaSeparated (.rule r)) s (commaText (os.map (Operation.text width)) ++ x :: rest) s
      (x :: rest) (os.map fun o => .single r (.node (o.toNode kind))) := by
  have hends := ends_of_closesList hx
  have hsep : Separated (x :: rest) os := separated_of_separable hx hseparable
  cases hsep with
  | nil =>
    have hstop : startsOperand x = false := by
      simp only [closesList, Bool.or_eq_true, beq_iff_eq] at hx
      rcases hx with (rfl | rfl) | rfl <;> rfl
    have hfail : Fails (.rule r) s (x :: rest) :=
      .of_starts hr.consumes (by rw [hr.starts]; exact stops_cons.2 hstop)
    exact .optNone (.seqFirst hfail)
  | @cons o os hstrays htries hsep =>
    have hvalue := (Separated.cons hstrays htries hsep).reads hends.1 hread hr hs htop
      fun _ => hends.2
    have hmore := reads_elements hr hs htop hx (fun o ho => hread o (List.mem_cons_of_mem _ ho)) hsep
    obtain ⟨y, tail, htail, hy, -⟩ := @ends_elementsText rest width os x hends.1
    have hsolid : Solid (elementsText width os (x :: rest)) := by
      rw [htail]
      exact solid_of_ends hy
    rw [commaText_append]
    exact .altFirst (hvalue.next hsolid (.star hsolid hmore))

end Lsl.Rule
