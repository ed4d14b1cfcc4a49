import Lsl.Proofs.Roundtrip.Operand
/-!
# Numbers after a dot

The dot of a member operator and a number after it look like a number without a whole part.  So a
try to read a literal takes them for an operand; but it fails inside the number, or reads on only
where that ends.
-/

namespace Lsl

open Lexeme

variable {text : List Char}

/-- What can come after the dot in a number. -/
inductive IsFraction : List Char → Prop
  | none : IsFraction []
  | word {text : List Char} : isOperandText (String.ofList text) = true → IsFraction text
  /-- An exponent with a sign reads as a name and a number with an operator between them. -/
  | signed {letter : Char} {sign : String} {digits : List Char} : isName [letter] = true →
      sign = "+" ∨ sign = "-" → isDigits digits = true →
      IsFraction (letter :: (sign.toList ++ digits))

theorem isName_of_letter {e : Char} (he : (e == 'e' || e == 'E') = true) {digits : List Char}
    (hdigits : digits.all Char.isDigit = true) : isName (e :: digits) = true := by
  have hkeywords : ∀ word ∈ Rule.keywords.map String.toList,
      word.tail ≠ [] ∧ word.tail.head?.all (!Char.isDigit ·) = true := by decide
  have hstart : isNameStart e = true := by
    rw [Bool.or_eq_true, beq_iff_eq, beq_iff_eq] at he
    rcases he with rfl | rfl <;> rfl
  have hchars : digits.all isNameChar = true :=
    List.all_eq_true.2 fun c hc => isNameChar_of_isDigit (List.all_eq_true.1 hdigits c hc)
  rw [isName, isWord, hstart, hchars, Bool.and_self, Bool.true_and, Bool.not_eq_true',
    Bool.eq_false_iff]
  intro hkeyword
  obtain ⟨hne, htail⟩ := hkeywords _ (List.contains_iff_mem.1 hkeyword)
  cases digits with
  | nil => exact hne rfl
  | cons c digits =>
    rw [List.all_cons, Bool.and_eq_true] at hdigits
    simp [hdigits.1] at htail

theorem isFraction_of_isExponent (h : isExponent text = true) : IsFraction text := by
  cases text with
  | nil => cases h
  | cons e rest =>
    rw [isExponent, Bool.and_eq_true] at h
    obtain ⟨he, hdigits⟩ := h
    unfold takeSign at hdigits
    split at hdigits
    · exact .signed (isName_of_letter he rfl) (.inl rfl) hdigits
    · exact .signed (isName_of_letter he rfl) (.inr rfl) hdigits
    · have hall : rest.all Char.isDigit = true := (Bool.and_eq_true_iff.1 hdigits).2
      refine .word ?_
      rw [isOperandText, String.toList_ofList, isName_of_letter he hall]
      rfl

theorem isFraction_of_digits {fraction exponent : List Char} (h : isDigits fraction = true)
    (hexponent : exponent = [] ∨ isExponent exponent = true) : IsFraction (fraction ++ exponent) := by
  refine .word ?_
  rw [isOperandText, String.toList_ofList]
  rcases hexponent with rfl | hexponent
  · rw [List.append_nil, isInteger, h, Bool.or_true, Bool.or_true]
    rfl
  · rw [isFloat_of_exponent h hexponent, Bool.or_true, Bool.true_or]

/-- A number that starts with a digit, read with a dot in front of it: it is one number, or a number
in front of the rest of a hexadecimal one, or in front of another dot and what comes after that. -/
theorem isNumber_cases (h : isInteger text = true ∨ isFloat text = true)
    (hhead : text.head?.any Char.isDigit = true) :
    isFloat ('.' :: text) = true ∨
    (∃ x tail, text = '0' :: x :: tail ∧ (x = 'x' ∨ x = 'X')) ∨
    ∃ whole fraction, text = whole ++ '.' :: fraction ∧ isFloat ('.' :: whole) = true ∧
      IsFraction fraction := by
  have hwhole : (text.takeWhile Char.isDigit).all Char.isDigit = true := List.all_takeWhile
  have hempty : (text.takeWhile Char.isDigit).isEmpty = false := by
    cases text with
    | nil => cases hhead
    | cons c text =>
      have hc : c.isDigit = true := hhead
      rw [List.takeWhile_cons, if_pos hc]
      rfl
  have hsplit := (@List.takeWhile_append_dropWhile _ Char.isDigit text).symm
  have hdot {exponent : List Char} (hexponent : exponent = [] ∨ isExponent exponent = true) :
      isFloat ('.' :: (text.takeWhile Char.isDigit ++ exponent)) = true :=
    @isFloat_of_dot [] _ _ rfl hwhole hempty hexponent
  rcases h with h | h
  · rw [isInteger, Bool.or_eq_true] at h
    rcases h with h | h
    · unfold isHexadecimal at h
      split at h
      · next x tail =>
        rw [Bool.and_eq_true, Bool.and_eq_true, Bool.or_eq_true, beq_iff_eq, beq_iff_eq] at h
        exact .inr (.inl ⟨x, tail, rfl, h.1.1⟩)
      · cases h
    · refine .inl ?_
      have hfloat := @isFloat_of_dot [] text [] rfl (Bool.and_eq_true_iff.1 h).2
        (by simpa [isDigits] using (Bool.and_eq_true_iff.1 h).1) (.inl rfl)
      rwa [List.append_nil] at hfloat
  · unfold isFloat at h
    split at h
    · next rest hdrop =>
      rw [hdrop] at hsplit
      refine .inr (.inr ⟨_, rest, hsplit, by simpa using hdot (.inl rfl), ?_⟩)
      rw [Bool.and_eq_true, Bool.or_eq_true (List.isEmpty _), List.isEmpty_iff] at h
      rw [← @List.takeWhile_append_dropWhile _ Char.isDigit rest]
      cases hfraction : rest.takeWhile Char.isDigit with
      | nil =>
        rw [List.nil_append]
        rcases h.2 with hnone | hexponent
        · rw [hnone]
          exact .none
        · exact isFraction_of_isExponent hexponent
      | cons c digits =>
        have hall : (rest.takeWhile Char.isDigit).all Char.isDigit = true := List.all_takeWhile
        rw [hfraction] at hall
        exact isFraction_of_digits (by rw [isDigits, hall]; rfl) h.2
    · refine .inl ?_
      rw [hsplit]
      exact hdot (.inr (Bool.and_eq_true_iff.1 h).2)

namespace Rule

open Peg Pattern

variable {s : List (List Char)} {rest : List Char} {count : Nat}

/-- No operand starts where an expression ends. -/
theorem fails_operand_of_ends (h : Ends rest) : Fails (.rule .operand) s rest := by
  cases h with
  | done => exact .of_starts rfl (.nil _)
  | close hx =>
    refine .of_starts rfl (stops_cons.2 ?_)
    simp only [endsExpression, Bool.or_eq_true, beq_iff_eq] at hx
    rcases hx with (((rfl | rfl) | rfl) | rfl) | rfl <;> rfl

/-- The dot in a number reads as the member operator. -/
theorem reads_dot : Reads (.rule .binaryOperator) ([','] :: s) ('.' :: text) ([','] :: s) text
    [.single .operator (.text ".")] :=
  @reads_binaryOperator _ text "." (nested_cons (by decide)) rfl (.inl rfl) nofun

/-- A word at the end of an expression is read whole. -/
theorem reads_operand_of_text (h : isOperandText (String.ofList text) = true) (hrest : Ends rest)
    (hs : Nested s) : ∃ items, Reads (.rule .operand) s (text ++ rest) s rest items := by
  obtain ⟨r, stop, -, hstop, hread⟩ := @readsOperand_text 0 _ h s rest hs (.ends hrest)
    (joins_of_stops hrest.stops) nofun
  rw [hstop.eq hrest.solid, Element.operandText_text, String.toList_ofList] at hread
  exact ⟨_, hread⟩

/-- The sign of an exponent reads as an operator. -/
theorem distinct_sign {sign : String} (hsign : sign = "+" ∨ sign = "-") {digits : List Char}
    (hdigits : isDigits digits = true) : Distinct sign (sign.toList ++ (digits ++ rest)) := by
  cases digits with
  | nil => cases hdigits
  | cons c digits =>
    rw [isDigits, List.all_cons, Bool.and_eq_true, Bool.and_eq_true] at hdigits
    have hne {y : Char} (hy : y.isDigit = false) : y ≠ c := by
      rintro rfl
      cases hdigits.2.1.symm.trans hy
    have hequals : '=' ≠ c := hne rfl
    have hplus : '+' ≠ c := hne rfl
    have hminus : '-' ≠ c := hne rfl
    rcases hsign with rfl | rfl
    · refine ⟨solid_cons rfl, ?_, stops_cons.2 rfl, ?_, .inr rfl, .inr (.inr rfl)⟩
      · simp [operators, List.isPrefixOf, hequals, hplus]
      · simp [NoneOf, List.isPrefixOf, hplus]
    · refine ⟨solid_cons rfl, ?_, stops_cons.2 rfl, ?_, .inr rfl, .inr (.inr rfl)⟩
      · simp [operators, List.isPrefixOf, hequals, hminus]
      · simp [NoneOf, List.isPrefixOf, hminus]

/-- A try that comes to the dot in a number fails there, or goes on after the number. -/
theorem stalls_of_fraction (h : IsFraction text) (hrest : Ends rest) (hstalls : Stalls count rest) :
    Stalls count ('.' :: (text ++ rest)) := by
  have hsolid {text : List Char} : Solid ('.' :: text) := solid_cons rfl
  cases h with
  | none =>
    refine stalls_of_fails hsolid.gapTo hsolid (fun s => ?_) rfl
    exact .next reads_dot hrest.solid (fails_operand_of_ends hrest)
  | word h =>
    refine stalls_of_reads hsolid.gapTo (fun s => ?_) hstalls
    obtain ⟨items, hread⟩ := @reads_operand_of_text text ([','] :: s) rest h hrest
      (nested_cons (by decide))
    obtain ⟨x, tail, htext, hx⟩ := hread.starts rfl
    exact ⟨_, reads_dot.next (by rw [htext]; exact solid_of_startsOperand hx) hread⟩
  | @signed letter sign digits hletter hsign hdigits =>
    have hd := @distinct_sign rest sign hsign digits hdigits
    have hunmodified : Unmodified (sign.toList ++ (digits ++ rest)) := by
      rcases hsign with rfl | rfl <;> nofun
    rw [List.cons_append, List.append_assoc]
    refine stalls_of_reads hsolid.gapTo (fun s => ?_)
      (stalls_of_reads hd.solid.gapTo (fun s => ?_) hstalls)
    · have hname := @reads_operand_name ([','] :: s) _ _ (String.ofList [letter])
        (by rwa [String.toList_ofList]) hd.name hd.solid.gapTo hd.noneOf hunmodified
      rw [String.toList_ofList] at hname
      obtain ⟨x, tail, htext, hx⟩ := hname.starts rfl
      exact ⟨_, reads_dot.next (by cases htext; exact solid_of_startsOperand hx) hname⟩
    · have hdigits' : isOperandText (String.ofList digits) = true := by
        rw [isOperandText, String.toList_ofList, isInteger, hdigits, Bool.or_true, Bool.or_true]
        rfl
      obtain ⟨items, hread⟩ := @reads_operand_of_text digits ([','] :: s) rest hdigits' hrest
        (nested_cons (by decide))
      obtain ⟨x, tail, htext, hx⟩ := hread.starts rfl
      exact ⟨_, (reads_angles hd).next (by rw [htext]; exact solid_of_startsOperand hx) hread⟩

/-- A number behind a dot does not help a try to read a literal that goes on there, if that fails
after the number. -/
theorem pends_of_number (h : isInteger text = true ∨ isFloat text = true)
    (hhead : text.head?.any Char.isDigit = true) (hrest : Ends rest) (hstalls : Stalls count rest) :
    Pends count ('.' :: (text ++ rest)) := by
  have hsolid {text : List Char} : Solid ('.' :: text) := solid_cons rfl
  have hfloat {digits rest : List Char} (htake : takeFloat? ('.' :: (digits ++ rest)) =
      some ('.' :: digits)) (s : List (List Char)) :
      ∃ items, Reads (.rule .operand) s ('.' :: (digits ++ rest)) s rest items := by
    have hread := @reads_operand_float s rest (String.ofList ('.' :: digits))
      (by rw [String.toList_ofList]; exact htake)
    rw [String.toList_ofList] at hread
    exact ⟨_, hread⟩
  rcases isNumber_cases h hhead with h | ⟨x, tail, rfl, hx⟩ |
    ⟨whole, fraction, rfl, hwhole, hfraction⟩
  · have htake := takeFloat?_append h (Follows.ends hrest).stops
    exact pends_of_reads hsolid.gapTo rfl (fun s => hfloat htake _) hstalls
  · -- The rest of a hexadecimal number is neither an operator nor a comma.
    have htake : takeFloat? ('.' :: (['0'] ++ (x :: (tail ++ rest)))) = some ['.', '0'] := by
      rcases hx with rfl | rfl <;> rfl
    refine pends_of_reads hsolid.gapTo rfl (fun s => hfloat htake _) ?_
    rcases hx with rfl | rfl <;>
      exact stalls_of_fails (solid_cons rfl).gapTo (solid_cons rfl)
        (fun s => fails_round_of_noneOf rfl (solid_cons rfl)) rfl
  · have htake : takeFloat? ('.' :: (whole ++ '.' :: (fraction ++ rest))) = some ('.' :: whole) :=
      takeFloat?_append hwhole (stops_cons.2 rfl)
    rw [List.append_assoc]
    exact pends_of_reads hsolid.gapTo rfl (fun s => hfloat htake _)
      (stalls_of_fraction hfraction hrest hstalls)

end Rule

end Lsl
