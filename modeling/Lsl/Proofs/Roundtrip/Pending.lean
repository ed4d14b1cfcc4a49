import Lsl.Proofs.Roundtrip.Word
/-!
# Tries to read a literal that fail

A vector literal is tried as a rotation literal first, and an angle that is an operator as the start
of a literal.  Such a try reads on past the text that it starts from.  What is written after an
operand makes it come to nothing: `Stalls` says so of a try that has read up to there, and `Pends` of
one that takes closing angles before that for operators.
-/

namespace Lsl.Rule

open Peg Pattern Lexeme

variable {s : List (List Char)} {text text' rest : List Char} {items : List Item} {count : Nat}

/-- What a literal needs after one of its components: `count` components between commas, and the last
one with the closing angle. -/
def finishPattern : Nat → Pattern Rule
  | 0 => cat [drop, word ",", pushLit ['>'], .rule .value, drop, word ">"]
  | count + 1 => seq (word ",") (seq (.rule .value) (finishPattern count))

/-- A try to read a literal that has come to the end of an operand, and needs `count` components
before the last one, fails in what follows. -/
def Stalls (count : Nat) (text : List Char) : Prop :=
  ∀ s, Fails (.seq (.more roundPattern) (finishPattern count)) ([','] :: s) text

/-- The try fails in what follows, however many closing angles come first. -/
def Pends (count : Nat) (text : List Char) : Prop :=
  ∀ angles, Stalls count (List.replicate (angles + 1) '>' ++ text)

theorem Pends.angle (h : Pends count text) : Pends count ('>' :: text) := by
  intro angles
  have := h (angles + 1)
  rwa [List.replicate_succ', List.append_assoc] at this

theorem Pends.stalls (h : Pends count text) : Stalls count ('>' :: text) :=
  h 0

/-! ## From an operand to the whole component -/

/-- The rounds after an operand as a repetition after the gap, or with the gaps before them. -/
theorem more_of_star {c c₁ c₂ c₃ : Cursor} {p : Pattern Rule} {ts : List (ParseTree Rule)}
    (hgap : grammar.Skips c c₁)
    (hstar : Derives grammar false (.star p) c₁ (some (c₂, ts))) (hgap' : grammar.Skips c₂ c₃) :
    ∃ c₂', Derives grammar false (.more p) c (some (c₂', ts)) ∧ grammar.Skips c₂' c₃ := by
  obtain ⟨gs, hgs⟩ := hgap
  rcases hstar.of_star with ⟨hnone, rfl, rfl⟩ | ⟨_, _, _, hfirst, hmore, rfl⟩
  · refine ⟨c, .moreNone hgs hnone, ?_⟩
    have hidem := skips_idem ⟨gs, hgs⟩
    rw [← hidem.unique hgap']
    exact ⟨gs, hgs⟩
  · exact ⟨c₂, .moreSome hgs hfirst hmore, hgap'⟩

/-- A try that fails from the end of an operand on fails from its start on. -/
theorem fails_component (hoperand : Reads (.rule .operand) s text s rest items)
    (hrest : Fails (.seq (.more roundPattern) (finishPattern count)) s rest) :
    Fails (.seq (.rule .value) (finishPattern count)) s text := by
  intro k
  obtain ⟨result, hresult⟩ := exists_derives false .value ⟨k, text, s⟩
  cases result with
  | none => exact .seqFirst hresult
  | some result =>
    obtain ⟨c, ts⟩ := result
    obtain ⟨c', gs, hgap⟩ := exists_skips c
    refine .seqSecond hresult hgap ?_
    obtain ⟨us, hvalue, -⟩ := hresult.of_node rfl
    obtain ⟨c₁, c₂, us₁, gs₁, us₂, hfirst, hgap₁, hstar, rfl⟩ := hvalue.of_seq
    obtain ⟨k₁, _, hread, -⟩ := hoperand k
    cases hread.unique hfirst
    obtain ⟨c₃, hmore, gs₃, hgap₃⟩ := more_of_star ⟨gs₁, hgap₁⟩ hstar ⟨gs, hgap⟩
    rcases (hrest k₁).of_seq_fail with hnone | ⟨c₄, _, hsome, hnone | ⟨_, _, hgap₄, hnone⟩⟩
    · cases hmore.unique hnone
    · cases hmore.unique hsome
      cases hgap₃.unique hnone
    · cases hmore.unique hsome
      cases hgap₃.unique hgap₄
      exact hnone

/-! ## Where a try fails -/

theorem fails_finish (hsolid : Solid text)
    (hcomma : ",".toList.isPrefixOf text = false) :
    Fails (finishPattern count) ([','] :: s) text := by
  cases count with
  | zero => exact .next (.drop [',']) hsolid (.seqFirst (.word hcomma))
  | succ count => exact .seqFirst (.word hcomma)

theorem stalls_of_fails (hgap : GapTo text text') (hsolid : Solid text')
    (hround : ∀ s, Fails roundPattern ([','] :: s) text')
    (hcomma : ",".toList.isPrefixOf text' = false) : Stalls count text := by
  intro s
  exact .seqSecond (.moreNone hgap (hround s)) hgap (fails_finish hsolid hcomma)

/-- A try that reads a round goes on after it. -/
theorem fails_more_of_round (hgap : GapTo text text')
    (hround : Reads roundPattern s text' s rest items)
    (hrest : Fails (.seq (.more roundPattern) (finishPattern count)) s rest) :
    Fails (.seq (.more roundPattern) (finishPattern count)) s text := by
  intro k
  obtain ⟨k₁, gs, hgs⟩ := hgap k s
  obtain ⟨k₂, ts, hts, -⟩ := hround k₁
  rcases (hrest k₂).of_seq_fail with hnone | ⟨c, _, hsome, hnone | ⟨_, _, hgap', hnone⟩⟩
  · exact absurd hnone Derives.not_more_fail
  · exact .seqBetween (.moreSome hgs hts hsome) hnone
  · exact .seqSecond (.moreSome hgs hts hsome) hgap' hnone

theorem stalls_of_reads (hgap : GapTo text text')
    (hround : ∀ s, ∃ items, Reads roundPattern ([','] :: s) text' ([','] :: s) rest items)
    (hrest : Stalls count rest) : Stalls count text := by
  intro s
  obtain ⟨items, hround⟩ := hround s
  exact fails_more_of_round hgap hround (hrest s)

/-! ## Closing angles as operators -/

theorem distinct_angle (h : NoneOf ["=", ">"] text) : Distinct ">" ('>' :: text) := by
  refine ⟨solid_cons rfl, ?_, stops_cons.2 rfl, rfl, .inr rfl, .inr (.inl rfl)⟩
  have hequals : ['='].isPrefixOf text = false := h.isPrefixOf "=" (by simp)
  have hangle : ['>'].isPrefixOf text = false := h.isPrefixOf ">" (by simp)
  simp [operators, hequals, hangle]

theorem distinct_angles : Distinct ">>" ('>' :: '>' :: text) :=
  ⟨solid_cons rfl, rfl, stops_cons.2 rfl, rfl, .inr rfl, .inr (.inl rfl)⟩

/-- Before the last component of a literal closing angles are operators. -/
theorem reads_angles {symbol : String} (hd : Distinct symbol (symbol.toList ++ text)) :
    Reads (.rule .binaryOperator) ([','] :: s) (symbol.toList ++ text) ([','] :: s) text
      [.single .operator (.text symbol)] := by
  have hnested : Nested ([','] :: s) := by
    intro top htop
    cases htop
    decide
  have hclosing : Reads (.notAhead (.rule .closingAngle)) ([','] :: s) _ ([','] :: s) _ [] :=
    .notAhead (fails_closingAngle hnested nofun hd)
  have hunary : Reads (.notAhead _) ([','] :: s) _ ([','] :: s) _ [] := .notAhead (fails_unary hd)
  exact .silent rfl rfl (hclosing.next hd.solid (hunary.next hd.solid (reads_operator hd.find)))

/-- More than two closing angles are not all taken for operators. -/
theorem stalls_angles : Stalls count ('>' :: '>' :: '>' :: text) := by
  refine stalls_of_fails (solid_cons rfl).gapTo (solid_cons rfl) (fun s => ?_) rfl
  exact .next (reads_angles distinct_angles) (solid_cons rfl) (.of_starts rfl (stops_cons.2 rfl))

/-- What holds after one operator and after another holds after any number of closing angles. -/
theorem pends_of_angles (h₁ : Stalls count ('>' :: text)) (h₂ : Stalls count ('>' :: '>' :: text)) :
    Pends count text := by
  intro angles
  match angles with
  | 0 => exact h₁
  | 1 => exact h₂
  | angles + 2 => exact stalls_angles

/-- No operand follows. -/
theorem pends_of_fails (hgap : GapTo text text') (h : NoneOf ["=", ">"] text)
    (hoperand : ∀ s, Fails (.rule .operand) ([','] :: s) text') : Pends count text := by
  refine pends_of_angles ?_ ?_
  · refine stalls_of_fails (solid_cons rfl).gapTo (solid_cons rfl) (fun s => ?_) rfl
    exact .seqSecond (reads_angles (distinct_angle h)) hgap (hoperand s)
  · refine stalls_of_fails (solid_cons rfl).gapTo (solid_cons rfl) (fun s => ?_) rfl
    exact .seqSecond (reads_angles distinct_angles) hgap (hoperand s)

/-- An operand follows, and the try stalls after it. -/
theorem pends_of_reads (hgap : GapTo text text') (h : NoneOf ["=", ">"] text)
    (hoperand : ∀ s, ∃ items, Reads (.rule .operand) ([','] :: s) text' ([','] :: s) rest items)
    (hrest : Stalls count rest) : Pends count text := by
  refine pends_of_angles ?_ ?_
  · refine stalls_of_reads (solid_cons rfl).gapTo (fun s => ?_) hrest
    obtain ⟨items, hread⟩ := hoperand s
    exact ⟨_, .seq (reads_angles (distinct_angle h)) hgap hread⟩
  · refine stalls_of_reads (solid_cons rfl).gapTo (fun s => ?_) hrest
    obtain ⟨items, hread⟩ := hoperand s
    exact ⟨_, .seq (reads_angles distinct_angles) hgap hread⟩

/-! ## Ends of expressions -/

/-- The characters after which an expression cannot go on in another component. -/
def closesList (x : Char) : Bool :=
  x == ';' || x == ')' || x == ']'

theorem ends_of_closesList {x : Char} (h : closesList x = true) :
    endsExpression x = true ∧ x ≠ '>' := by
  simp only [closesList, Bool.or_eq_true, beq_iff_eq] at h
  rcases h with (rfl | rfl) | rfl <;> decide

theorem solid_of_ends {x : Char} (h : endsExpression x = true) : Solid (x :: rest) :=
  (Ends.close h).solid

/-- At the end of the text a try has nothing to go on with. -/
theorem stalls_nil : Stalls count [] :=
  stalls_of_fails solid_nil.gapTo solid_nil (fun _ => fails_round_of_noneOf rfl solid_nil) rfl

theorem pends_nil : Pends count [] :=
  pends_of_fails solid_nil.gapTo rfl fun _ => .of_starts rfl (.nil _)

/-- Nor has it before what closes a list. -/
theorem stalls_close {x : Char} (h : closesList x = true) : Stalls count (x :: rest) := by
  have hends := ends_of_closesList h
  have hsolid : Solid (x :: rest) := solid_of_ends hends.1
  refine stalls_of_fails hsolid.gapTo hsolid (fun s => fails_round_of_ends hends.1 hends.2) ?_
  simp only [closesList, Bool.or_eq_true, beq_iff_eq] at h
  rcases h with (rfl | rfl) | rfl <;> rfl

theorem pends_of_ends {x : Char} (h : endsExpression x = true) (hx : x ≠ '>') :
    Pends count (x :: rest) := by
  simp only [endsExpression, Bool.or_eq_true, beq_iff_eq] at h
  rcases h with (((rfl | rfl) | rfl) | rfl) | rfl
  · exact pends_of_fails (solid_cons rfl).gapTo rfl fun s => .of_starts rfl (stops_cons.2 rfl)
  · exact pends_of_fails (solid_cons rfl).gapTo rfl fun s => .of_starts rfl (stops_cons.2 rfl)
  · exact pends_of_fails (solid_cons rfl).gapTo rfl fun s => .of_starts rfl (stops_cons.2 rfl)
  · exact pends_of_fails (solid_cons rfl).gapTo rfl fun s => .of_starts rfl (stops_cons.2 rfl)
  · exact absurd rfl hx

end Lsl.Rule
