import Lsl.Proofs.Roundtrip.Operation
/-!
# Reading operands

One lemma for each form of operand: if the operands and operations inside it are read back wherever
they can be written, so is it.
-/

namespace Lsl.Rule

open Peg Pattern Lexeme

variable {s : List (List Char)} {text text' rest : List Char} {width : Nat}

/-! ## Choosing the alternative -/

theorem fails_of_head {r : Rule} {x : Char} (hr : r.matchesNothing = false)
    (hx : Rule.starts r x = false) : Fails (.rule r) s (x :: rest) :=
  .of_starts hr (stops_cons.2 hx)

/-- The characters that names start with are those of no other operand. -/
theorem isNameStart_eq {x : Char} (h : isNameStart x = true) :
    startsModifier x = false ∧ x.isDigit = false ∧
      x ≠ '.' ∧ x ≠ '"' ∧ x ≠ '(' ∧ x ≠ '[' ∧ x ≠ '<' := by
  have hne {y : Char} (hy : isNameStart y = false) : x ≠ y := by
    rintro rfl
    cases h.symm.trans hy
  refine ⟨?_, ?_, hne rfl, hne rfl, hne rfl, hne rfl, hne rfl⟩
  · simp only [startsModifier, Bool.or_eq_false_iff, beq_eq_false_iff_ne]
    exact ⟨⟨⟨hne rfl, hne rfl⟩, hne rfl⟩, hne rfl⟩
  · rw [Bool.eq_false_iff]
    intro hdigit
    simp only [isNameStart, isAlpha_iff, isUpper_iff, isLower_iff, Char.isDigit,
      Bool.or_eq_true, Bool.and_eq_true, decide_eq_true_eq, beq_iff_eq,
      UInt32.le_iff_toNat_le] at h hdigit
    rcases h with (h | h) | rfl
    · have : 'A'.val.toNat = 65 := rfl
      have : '9'.val.toNat = 57 := rfl
      simp at *
      omega
    · simp at *
      omega
    · simp at hdigit

/-- An operand that is neither modified nor cast. -/
theorem reads_operand_of_primary {items : List Item} {x : Char} (hmodifier : startsModifier x = false)
    (hparen : x ≠ '(') (hmod : Fails (.rule .postMod) s (x :: text))
    (h : Reads (.rule .primary) s (x :: text) s rest items) :
    Reads (.rule .operand) s (x :: text) s rest items := by
  refine .silent rfl rfl (.altSecond ?_ (.altSecond ?_ (.altSecond hmod h)))
  · exact fails_of_head rfl hmodifier
  · exact fails_of_head rfl (by simpa [starts] using hparen)

/-- The alternatives for calls, literals, lists and parentheses fail at words of other forms. -/
theorem reads_primary_of_word {items : List Item} {x : Char} (hcall : Fails (.rule .call) s (x :: text))
    (hangle : x ≠ '<') (hbracket : x ≠ '[') (hparen : x ≠ '(')
    (h : Reads (oneOf [.rule .float, .rule .integer, .rule .string, .rule .ident]) s (x :: text) s
      rest items) : Reads (.rule .primary) s (x :: text) s rest items := by
  refine .silent rfl rfl (.altSecond hcall (.altSecond ?_ (.altSecond ?_ (.altSecond ?_
    (.altSecond ?_ h)))))
  · exact fails_of_head rfl (by simpa [starts] using hangle)
  · exact fails_of_head rfl (by simpa [starts] using hangle)
  · exact fails_of_head rfl (by simpa [starts] using hbracket)
  · exact .seqFirst (.push (.word (by simp [List.isPrefixOf, Ne.symm hparen])))

/-! ## Names -/

theorem head_of_isName {word : List Char} (h : isName word = true) :
    ∃ x tail, word = x :: tail ∧ isNameStart x = true := by
  rw [isName, Bool.and_eq_true] at h
  cases word with
  | nil => cases h.1
  | cons x tail => exact ⟨x, tail, rfl, (Bool.and_eq_true_iff.1 h.1).1⟩

/-- A name with nothing to modify it is not read as the target of a modifier. -/
theorem fails_postMod {name : List Char} (h : isName name = true) (hrest : Stops isNameChar rest)
    (hgap : GapTo rest text') (hmodifier : NoneOf ["++", "--"] text') (hdot : Unmodified rest) :
    Fails (.rule .postMod) s (name ++ rest) := by
  have hafter {text : List Char} (hnone : NoneOf ["++", "--"] text) :
      Fails (cat [ahead (words ["++", "--"]), .rule .operator]) s text :=
    .seqFirst (.ahead (fails_words hnone))
  refine .rule rfl ?_
  cases hmember : takeMember? (name ++ rest) with
  | none =>
    have hfail : Fails (.rule .member) s (name ++ rest) := .of_scans scans_member rfl rfl hmember
    have hident : Reads (.rule .ident) s (name ++ rest) s rest _ :=
      .leaf scans_ident rfl rfl rfl (takeName?_append h hrest)
    exact .seqSecond (.altSecond hfail hident) hgap (hafter hmodifier)
  | some member =>
    -- The member takes a dot and a word, and what comes after them is not a modifier.
    obtain ⟨name', hname', hbind⟩ := Option.bind_eq_some_iff.1 hmember
    rw [takeName?_append h hrest] at hname'
    cases hname'
    rw [List.drop_left] at hbind
    split at hbind
    · next tail =>
      dsimp only at hbind
      split at hbind
      · next hword =>
        have hsplit : tail = tail.takeWhile isNameChar ++ tail.dropWhile isNameChar :=
          List.takeWhile_append_dropWhile.symm
        have hstop : Stops isNameChar (tail.dropWhile isNameChar) := by
          intro x hx
          simpa [hx] using List.head?_dropWhile_not isNameChar tail
        obtain ⟨tail', hgap', hnone⟩ := hdot _ _ (congrArg _ hsplit) hword hstop
        have hread : Reads (.rule .member) s
            ((name ++ '.' :: tail.takeWhile isNameChar) ++ tail.dropWhile isNameChar) s
            (tail.dropWhile isNameChar) _ :=
          .leaf scans_member rfl rfl rfl (takeMember?_append (isMember_append h hword) hstop)
        rw [List.append_assoc, List.cons_append, ← hsplit] at hread
        exact .seqSecond (.altFirst hread) hgap' (hafter hnone)
      · cases hbind
    · cases hbind

/-- A name with neither a bracket nor a modifier after it. -/
theorem reads_operand_name {word : String} (h : isName word.toList = true)
    (hstops : Stops isNameChar rest) (hgap : GapTo rest text')
    (hnone : NoneOf ["(", "++", "--"] text') (hdot : Unmodified rest) :
    Reads (.rule .operand) s (word.toList ++ rest) s rest [.single .ident (.text word)] := by
  have hmodifier : NoneOf ["++", "--"] text' := by
    rw [NoneOf, List.all_cons, Bool.and_eq_true] at hnone
    exact hnone.2
  have hpost : Fails (.rule .postMod) s (word.toList ++ rest) :=
    fails_postMod h hstops hgap hmodifier hdot
  have hcall : Fails (.rule .call) s (word.toList ++ rest) := by
    refine .rule rfl (.seqSecond (reads_name h hstops) hgap ?_)
    exact .seqFirst (.push (.word (hnone.isPrefixOf "(" (by simp))))
  have hread := @reads_ident s rest word h hstops
  obtain ⟨x, tail, hword, hx⟩ := head_of_isName h
  obtain ⟨hmod, hdigit, hdot, hquote, hparen, hbracket, hangle⟩ := isNameStart_eq hx
  rw [hword, List.cons_append] at hpost hcall hread ⊢
  refine reads_operand_of_primary hmod hparen hpost (reads_primary_of_word hcall hangle hbracket
    hparen (.altSecond ?_ (.altSecond ?_ (.altSecond ?_ hread))))
  · exact fails_of_head rfl (by simp [starts, hdigit, hdot])
  · exact fails_of_head rfl (by simp [starts, hdigit])
  · exact fails_of_head rfl (by simp [starts, hquote])

theorem readsOperand_name {word : String} (h : isName word.toList = true) :
    ReadsOperand width (.text word) := by
  intro s rest _ hfollows hjoins _
  obtain ⟨text', hgap, -, hnone⟩ := hfollows.gap
  exact ⟨.ident, rest, rfl, .inl rfl,
    reads_operand_name h hfollows.stops hgap hnone ((hjoins word rfl).2 h)⟩

/-! ## Numbers and strings -/

/-- A word that starts like no name is not read as one. -/
theorem reads_operand_of_word {items : List Item} {x : Char} (hmodifier : startsModifier x = false)
    (hname : isNameStart x = false) (hangle : x ≠ '<') (hbracket : x ≠ '[') (hparen : x ≠ '(')
    (h : Reads (oneOf [.rule .float, .rule .integer, .rule .string, .rule .ident]) s (x :: text) s
      rest items) : Reads (.rule .operand) s (x :: text) s rest items :=
  reads_operand_of_primary hmodifier hparen (fails_of_head rfl hname)
    (reads_primary_of_word (fails_of_head rfl hname) hangle hbracket hparen h)

theorem isDigit_eq {x : Char} (h : x.isDigit = true ∨ x = '.') :
    startsModifier x = false ∧ isNameStart x = false ∧ x ≠ '<' ∧ x ≠ '[' ∧ x ≠ '(' := by
  rcases h with h | rfl
  · have hne {y : Char} (hy : y.isDigit = false) : x ≠ y := by
      rintro rfl
      cases h.symm.trans hy
    refine ⟨?_, ?_, hne rfl, hne rfl, hne rfl⟩
    · simp only [startsModifier, Bool.or_eq_false_iff, beq_eq_false_iff_ne]
      exact ⟨⟨⟨hne rfl, hne rfl⟩, hne rfl⟩, hne rfl⟩
    · rw [Bool.eq_false_iff]
      intro hname
      cases h.symm.trans (isNameStart_eq hname).2.1
  · decide

theorem head_of_isInteger {digits : List Char} (h : isInteger digits = true) :
    ∃ x tail, digits = x :: tail ∧ x.isDigit = true := by
  rw [isInteger, Bool.or_eq_true] at h
  rcases h with h | h
  · unfold isHexadecimal at h
    split at h
    · exact ⟨'0', _, rfl, rfl⟩
    · cases h
  · cases digits with
    | nil => cases h
    | cons x tail =>
      simp only [isDigits, List.all_cons, Bool.and_eq_true] at h
      exact ⟨x, tail, rfl, h.2.1⟩

theorem head_of_isFloat {digits : List Char} (h : isFloat digits = true) :
    ∃ x tail, digits = x :: tail ∧ (x.isDigit = true ∨ x = '.') := by
  cases digits with
  | nil => cases h
  | cons x tail =>
    refine ⟨x, tail, rfl, ?_⟩
    by_cases hx : x.isDigit = true
    · exact .inl hx
    · refine .inr ?_
      unfold isFloat at h
      rw [List.dropWhile_cons_of_neg hx, List.takeWhile_cons_of_neg hx] at h
      split at h
      · next heq =>
        cases heq
        rfl
      · simp [isDigits] at h

theorem readsOperand_integer {word : String} (h : isInteger word.toList = true) :
    ReadsOperand width (.text word) := by
  intro s rest _ hfollows hjoins _
  have hfloat : Fails (.rule .float) s (word.toList ++ rest) := by
    refine .of_scans scans_float rfl rfl ?_
    exact takeFloat?_of_isInteger h hfollows.stops fun hdigits => (hjoins word rfl).1 hdigits
  have hread := @reads_integer s rest word h hfollows.stops
  obtain ⟨x, tail, hword, hx⟩ := head_of_isInteger h
  obtain ⟨hmod, hname, hangle, hbracket, hparen⟩ := isDigit_eq (.inl hx)
  rw [Element.operandText_text]
  rw [hword, List.cons_append] at hfloat hread ⊢
  exact ⟨.integer, rest, rfl, .inl rfl, reads_operand_of_word hmod hname hangle hbracket hparen
    (.altSecond hfloat (.altFirst hread))⟩

theorem reads_operand_float {word : String}
    (h : takeFloat? (word.toList ++ rest) = some word.toList) :
    Reads (.rule .operand) s (word.toList ++ rest) s rest [.single .float (.text word)] := by
  have hread : Reads (.rule .float) s (word.toList ++ rest) s rest [.single .float (.text word)] :=
    reads_text scans_float rfl rfl rfl h
  obtain ⟨x, tail, hword, hx⟩ := head_of_isFloat (takeFloat?_eq_some h)
  obtain ⟨hmod, hname, hangle, hbracket, hparen⟩ := isDigit_eq hx
  rw [hword, List.cons_append] at hread ⊢
  exact reads_operand_of_word hmod hname hangle hbracket hparen (.altFirst hread)

theorem readsOperand_float {word : String} (h : isFloat word.toList = true) :
    ReadsOperand width (.text word) := by
  intro s rest _ hfollows _ _
  exact ⟨.float, rest, rfl, .inl rfl, reads_operand_float (takeFloat?_append h hfollows.stops)⟩

theorem readsOperand_string {word : String} (h : isString word.toList = true) :
    ReadsOperand width (.text word) := by
  intro s rest _ _ _ _
  have hread := @reads_string s rest word h
  rw [Element.operandText_text]
  unfold isString at h
  split at h
  · next tail hword =>
    rw [hword, List.cons_append] at hread ⊢
    refine ⟨.string, rest, rfl, .inl rfl, reads_operand_of_word rfl rfl (by decide) (by decide) (by decide)
      (.altSecond ?_ (.altSecond ?_ (.altFirst hread)))⟩
    · exact fails_of_head rfl rfl
    · exact fails_of_head rfl rfl
  · cases h

theorem readsOperand_text {word : String} (h : isOperandText word = true) :
    ReadsOperand width (.text word) := by
  simp only [isOperandText, Bool.or_eq_true] at h
  rcases h with ((h | h) | h) | h
  · exact readsOperand_name h
  · exact readsOperand_integer h
  · exact readsOperand_float h
  · exact readsOperand_string h

/-! ## Operands are no keywords -/

theorem isAlpha_eq {x : Char} (h : x.isAlpha = true) : isNameStart x = true := by
  rw [isNameStart, h, Bool.true_or]

/-- No operand starts with a keyword. -/
theorem fails_operand_of_keyword (h : ¬ Unkeyed text) : Fails (.rule .operand) s text := by
  have hkeyword : isKeyword (text.takeWhile isNameChar) = true := by simpa [Unkeyed] using h
  have hnone : takeName? text = none := by simp [takeName?, isName, hkeyword]
  have hmember : takeMember? text = none := by rw [takeMember?, hnone, Option.bind_none]
  have hname : Fails (.rule .name) s text := .of_scans scans_name rfl rfl hnone
  have hident : Fails (.rule .ident) s text := .of_scans scans_ident rfl rfl hnone
  have hmember' : Fails (.rule .member) s text := .of_scans scans_member rfl rfl hmember
  obtain ⟨x, tail, rfl, hx⟩ : ∃ x tail, text = x :: tail ∧ x.isAlpha = true := by
    by_contra hcontra
    refine h (unkeyed_of_stops fun x hx => ?_)
    cases text with
    | nil => cases hx
    | cons y tail =>
      cases hx
      rw [Bool.eq_false_iff]
      exact fun hx => hcontra ⟨x, tail, rfl, hx⟩
  obtain ⟨hmod, hdigit, hdot, hquote, hparen, hbracket, hangle⟩ := isNameStart_eq (isAlpha_eq hx)
  have hpost : Fails (.rule .postMod) s (x :: tail) :=
    .rule rfl (.seqFirst (.alt hmember' hident))
  have hprimary : Fails (.rule .primary) s (x :: tail) := by
    refine .rule rfl (.alt (.rule rfl (.seqFirst hname)) (.alt ?_ (.alt ?_ (.alt ?_ (.alt ?_
      (.alt ?_ (.alt ?_ (.alt ?_ hident))))))))
    · exact fails_of_head rfl (by simpa [starts] using hangle)
    · exact fails_of_head rfl (by simpa [starts] using hangle)
    · exact fails_of_head rfl (by simpa [starts] using hbracket)
    · exact .seqFirst (.push (.word (by simp [List.isPrefixOf, Ne.symm hparen])))
    · exact fails_of_head rfl (by simp [starts, hdigit, hdot])
    · exact fails_of_head rfl (by simp [starts, hdigit])
    · exact fails_of_head rfl (by simp [starts, hquote])
  refine .rule rfl (.alt (fails_of_head rfl hmod) (.alt ?_ (.alt hpost hprimary)))
  exact fails_of_head rfl (by simpa [starts] using hparen)

theorem unkeyed_of_reads {items : List Item} (h : Reads (.rule .operand) s text s rest items) :
    Unkeyed text := by
  by_contra hkeyword
  obtain ⟨_, _, hread, -⟩ := h 0
  cases hread.unique (fails_operand_of_keyword hkeyword 0)

theorem RunsTo.unkeyed {o : Operation} (h : RunsTo s text rest o) : Unkeyed text := by
  cases h with
  | leaf _ _ hread => exact unkeyed_of_reads hread
  | binary _ _ _ hread => exact unkeyed_of_reads hread

/-! ## Operations in parentheses -/

/-- The gap after a closing bracket belongs to what it closes. -/
theorem reads_closing {word : String} {top : List Char} (hgap : GapTo rest text') :
    Reads (cat [.word word, drop]) (top :: s) (word.toList ++ rest) s text' [] :=
  .seq (.word word) hgap (.drop top)

theorem readsOperand_group {o : Operation} (hbinary : o.isBinary = true)
    (hshaped : o.wellShaped = true) (h : ReadsOperation width o) :
    ReadsOperand width (.node (.value o)) := by
  intro s rest _ hfollows _ _
  obtain ⟨stop, hgap, -⟩ := hfollows.gap
  have hruns := h (['('] :: s) (')' :: rest) (nested_cons (by decide)) (.close rfl) nofun
    (fun _ _ => stalls_close rfl) fun _ _ => pends_of_ends rfl (by decide)
  have hvalue := hruns.reads isOperation_value (solid_cons rfl) (fails_round_of_ends rfl (by decide))
  have hcast : Fails (.rule .cast) s ('(' :: (o.text width ++ ')' :: rest)) :=
    .rule rfl (.next (.word "(") hruns.solid (.seqFirst (fails_type hruns.unkeyed)))
  have hgroup : Reads (cat [push (word "("), .rule .value, word ")", drop]) s
      ('(' :: (o.text width ++ ')' :: rest)) s stop [.single .value (.node (.value o))] :=
    .next (.push ['(']) hruns.solid (.next hvalue (solid_cons rfl) (reads_closing hgap))
  rw [Element.operandText_value hshaped, hbinary, if_pos rfl, List.cons_append, List.append_assoc,
    List.singleton_append]
  refine ⟨.value, stop, rfl, .inr hgap, .silent rfl rfl (.altSecond (fails_of_head rfl rfl)
    (.altSecond hcast (.altSecond (fails_of_head rfl rfl) ?_)))⟩
  exact .silent rfl rfl (.altSecond (fails_of_head rfl rfl) (.altSecond (fails_of_head rfl rfl)
    (.altSecond (fails_of_head rfl rfl) (.altSecond (fails_of_head rfl rfl) (.altFirst hgroup)))))

/-! ## Calls and lists -/

theorem readsOperand_call {name : String} (hname : isName name.toList = true)
    {arguments : List Operation} (hshaped : ∀ o ∈ arguments, o.wellShaped = true)
    (hread : ∀ o ∈ arguments, ReadsOperation width o) (hseparable : separable arguments = true) :
    ReadsOperand width (.node (.call (some name) (arguments.map fun o => .node (.value o)))) := by
  intro s rest _ hfollows _ _
  obtain ⟨stop, hgap, -⟩ := hfollows.gap
  let inner := commaText (arguments.map (Operation.text width)) ++ ')' :: rest
  have hinner : Solid inner := solid_commaText hread (solid_cons rfl)
  have hstops : Stops isNameChar ('(' :: inner) := stops_cons.2 rfl
  have hlist := @reads_commaSeparated (['('] :: s) rest width arguments .value .value
    isOperation_value (nested_cons (by decide)) (by simp) ')' rfl hread hseparable
  have harguments : Reads (.rule .arguments) (['('] :: s) inner (['('] :: s) (')' :: rest)
      [.group .arguments (arguments.map fun o => .node (.value o))] := by
    have hgroup := @Reads.group (['('] :: s) (['('] :: s) inner (')' :: rest) .arguments
      (arguments.map fun o => (.value, .node (.value o))) rfl rfl
    rw [List.map_map, List.map_map] at hgroup
    exact hgroup hlist
  have hcall : Reads (.rule .call) s (name.toList ++ '(' :: inner) s stop _ :=
    .node rfl (build_call name _) rfl rfl
      (.next (reads_name hname hstops) (solid_cons rfl) (.next (.push ['(']) hinner
        (.next harguments (solid_cons rfl) (reads_closing hgap))))
  have hpost : Fails (.rule .postMod) s (name.toList ++ '(' :: inner) :=
    fails_postMod hname hstops (solid_cons rfl).gapTo rfl nofun
  rw [Element.operandText_call name hshaped, List.append_assoc, List.cons_append, List.append_assoc]
  obtain ⟨x, tail, hword, hx⟩ := head_of_isName hname
  obtain ⟨hmod, -, -, -, hparen, -⟩ := isNameStart_eq hx
  rw [hword, List.cons_append] at hcall hpost ⊢
  exact ⟨.call, stop, rfl, .inr hgap,
    reads_operand_of_primary hmod hparen hpost (.silent rfl rfl (.altFirst hcall))⟩

theorem readsOperand_list {values : List Operation} (hshaped : ∀ o ∈ values, o.wellShaped = true)
    (hread : ∀ o ∈ values, ReadsOperation width o) (hseparable : separable values = true) :
    ReadsOperand width (.node (.list (values.map fun o => .node (.value o)))) := by
  intro s rest _ hfollows _ _
  obtain ⟨stop, hgap, -⟩ := hfollows.gap
  have hlist := @reads_commaSeparated (['['] :: s) rest width values .value .value
    isOperation_value (nested_cons (by decide)) (by simp) ']' rfl hread hseparable
  have hinner : Reads (cat [commaSeparated (.rule .value), word "]", drop]) (['['] :: s) _ s stop _ :=
    .next hlist (solid_cons rfl) (reads_closing hgap)
  rw [List.append_nil] at hinner
  have hbuild := build_list (values.map fun o => .node (.value o))
  rw [List.map_map] at hbuild
  have hread : Reads (.rule .list) s
      ('[' :: (commaText (values.map (Operation.text width)) ++ ']' :: rest)) s stop _ :=
    .node rfl hbuild rfl rfl
      (.next (.push ['[']) (solid_commaText hread (solid_cons rfl)) hinner)
  rw [Element.operandText_list hshaped, List.cons_append, List.append_assoc, List.singleton_append]
  refine ⟨.list, stop, rfl, .inr hgap,
    reads_operand_of_primary rfl (by decide) (fails_of_head rfl rfl) ?_⟩
  exact .silent rfl rfl (.altSecond (fails_of_head rfl rfl) (.altSecond (fails_of_head rfl rfl)
    (.altSecond (fails_of_head rfl rfl) (.altFirst hread))))

/-! ## Casts and modifiers -/

theorem ReadsOperand.head {element : Element} (h : ReadsOperand width element) :
    ∃ x tail, element.operandText width = x :: tail ∧ startsOperand x = true := by
  obtain ⟨r, stop, -, -, hread⟩ := h [] [] nofun (.ends .done) (joins_of_stops (.nil _))
    fun _ _ => pends_nil
  rw [List.append_nil] at hread
  exact hread.starts rfl

theorem ReadsOperand.solid {element : Element} (h : ReadsOperand width element) :
    Solid (element.operandText width ++ rest) := by
  obtain ⟨x, tail, htext, hx⟩ := h.head
  rw [htext]
  exact solid_of_startsOperand hx

theorem readsOperand_cast {type : Primitive} (htype : type.isVoid = false) {value : Element}
    (hshaped : value.isWellShapedOperand = true) (h : ReadsOperand width value) :
    ReadsOperand width (.node (.cast (some type) (some value))) := by
  intro s rest hs hfollows hjoins htries
  obtain ⟨r, stop, hr, hstop, hread⟩ := h s rest hs hfollows hjoins htries
  have hsolid : Solid (type.text ++ ')' :: (value.operandText width ++ rest)) := by
    cases type <;> first | (cases htype; done) | exact solid_cons rfl
  have hcast : Reads (.rule .cast) s
      ('(' :: (type.text ++ ')' :: (value.operandText width ++ rest))) s stop _ :=
    .node rfl (build_cast type hr value) rfl rfl
      (.next (.word "(") hsolid (.next (reads_type htype (stops_cons.2 rfl)) (solid_cons rfl)
        (.next (.word ")") h.solid hread)))
  rw [Element.operandText_cast htype hshaped, List.cons_append, List.append_assoc, List.cons_append]
  exact ⟨.cast, stop, rfl, hstop,
    .silent rfl rfl (.altSecond (fails_of_head rfl rfl) (.altFirst hcast))⟩

/-- One of the words is at the head of the text. -/
theorem reads_words {words : List String} {word : String} (hword : word ∈ words)
    (h : word.toList.isPrefixOf text = true) :
    ∃ rest, Reads (.words words) s text s rest [] := by
  induction words with
  | nil => cases hword
  | cons first words ih =>
    by_cases hfirst : first.toList.isPrefixOf text = true
    · obtain ⟨rest, rfl⟩ := List.isPrefixOf_iff_prefix.1 hfirst
      refine ⟨rest, ?_⟩
      cases words with
      | nil => exact .word first
      | cons second words => exact .altFirst (.word first)
    · have hmem : word ∈ words := by
        rcases List.mem_cons.1 hword with rfl | hmem
        · exact absurd h hfirst
        · exact hmem
      obtain ⟨rest, hread⟩ := ih hmem
      refine ⟨rest, ?_⟩
      cases words with
      | nil => cases hmem
      | cons second words =>
        exact .altSecond (.word (Bool.eq_false_iff.2 hfirst)) hread

/-- A modifier in front of an operand. -/
theorem reads_preMod {symbol : String} (hsymbol : symbol ∈ prefixOperators)
    (hfind : (operators.find? fun word => word.toList.isPrefixOf (symbol.toList ++ text)) =
      some symbol) (hgap : GapTo text text') {r : Rule} (hr : r.isOperand = true)
    {element : Element} (h : Reads (.rule .operand) s text' s rest [.single r element]) :
    Reads (.rule .operand) s (symbol.toList ++ text) s rest
      [.single .preMod (.node (.preMod (some symbol) (some element)))] := by
  have hwords : ∀ symbol ∈ prefixOperators, ∃ word ∈ ["++", "--", "!", "~", "-"],
      word.toList.isPrefixOf symbol.toList = true := by decide
  obtain ⟨word, hword, hhead⟩ := hwords symbol hsymbol
  have hhead' : word.toList.isPrefixOf (symbol.toList ++ text) = true := by
    rw [List.isPrefixOf_iff_prefix] at hhead ⊢
    exact hhead.trans (List.prefix_append _ _)
  obtain ⟨rest', hahead⟩ := @reads_words s (symbol.toList ++ text) _ _ hword hhead'
  have hsolid : Solid (symbol.toList ++ text) := by
    have hheads : ∀ symbol ∈ prefixOperators, symbol.toList.head?.any (!startsGap ·) = true := by
      decide
    have hx := hheads symbol hsymbol
    cases hs : symbol.toList with
    | nil =>
      rw [hs] at hx
      cases hx
    | cons x tail =>
      rw [hs] at hx
      exact solid_cons (by simpa using hx)
  have hmod : Reads (.rule .preMod) s (symbol.toList ++ text) s rest _ :=
    .node rfl (build_preMod symbol hr element) rfl rfl
      (.next hahead.ahead hsolid (.seq (reads_operator hfind) hgap h))
  exact .silent rfl rfl (.altFirst hmod)

/-- The operator of a modifier is found if the text after it does not go on with it. -/
theorem find_prefixOperator {symbol : String} (hsymbol : symbol ∈ prefixOperators)
    (h : NoneOf ["=", "+", "-"] text) :
    (operators.find? fun word => word.toList.isPrefixOf (symbol.toList ++ text)) =
      some symbol := by
  have hequals : ['='].isPrefixOf text = false := h.isPrefixOf "=" (by simp)
  have hminus : ['-'].isPrefixOf text = false := h.isPrefixOf "-" (by simp)
  simp only [prefixOperators, List.mem_cons, List.not_mem_nil, or_false] at hsymbol
  rcases hsymbol with rfl | rfl | rfl | rfl | rfl | rfl | rfl <;>
    simp [operators, hequals, hminus]

/-- The first character is that of none of the words. -/
theorem noneOf_cons {words : List String} {x : Char} {tail : List Char}
    (h : (words.all fun word => word.toList.head?.any (· != x)) = true) :
    NoneOf words (x :: tail) := by
  rw [NoneOf, List.all_eq_true]
  intro word hword
  have hx := List.all_eq_true.1 h word hword
  cases hw : word.toList with
  | nil =>
    rw [hw] at hx
    cases hx
  | cons y word =>
    rw [hw] at hx
    have : y ≠ x := by simpa using hx
    simp [List.isPrefixOf, this]

theorem readsOperand_preMod {symbol : String} (hsymbol : symbol ∈ prefixOperators)
    {value : Element} (hshaped : value.isWellShapedOperand = true) (h : ReadsOperand width value) :
    ReadsOperand width (.node (.preMod (some symbol) (some value))) := by
  intro s rest hs hfollows hjoins htries
  obtain ⟨r, stop, hr, hstop, hread⟩ := h s rest hs hfollows hjoins htries
  obtain ⟨x, tail, htext, hx⟩ := h.head
  have hsolid := @ReadsOperand.solid rest width value h
  rw [Element.operandText_preMod symbol hshaped, List.append_assoc, List.append_assoc]
  refine ⟨.preMod, stop, rfl, hstop, ?_⟩
  rw [htext] at hread hsolid ⊢
  by_cases hmod : x ∈ ['-', '+', '!', '~']
  · have hgap : modifierGap (x :: tail) = [' '] := by simp only [modifierGap, hmod, if_true]
    rw [hgap]
    exact reads_preMod hsymbol (find_prefixOperator hsymbol (noneOf_cons rfl)) hsolid.blank hr
      hread
  · have hgap : modifierGap (x :: tail) = [] := by simp only [modifierGap, hmod, if_false]
    have hnone : NoneOf ["=", "+", "-"] (x :: tail ++ rest) := by
      have hequals : x ≠ '=' := by
        rintro rfl
        cases hx
      refine noneOf_cons ?_
      simp only [List.mem_cons, not_or] at hmod
      simp [Ne.symm hequals, Ne.symm hmod.1, Ne.symm hmod.2.1]
    rw [hgap]
    exact reads_preMod hsymbol (find_prefixOperator hsymbol hnone) hsolid.gapTo hr hread

theorem head_of_isMember {word : List Char} (h : isMember word = true) :
    ∃ x tail, word = x :: tail ∧ isNameStart x = true := by
  unfold isMember at h
  split at h
  · rw [Bool.and_eq_true] at h
    obtain ⟨x, tail, hword, hx⟩ := head_of_isName h.1
    cases word with
    | nil => cases hword
    | cons y word =>
      rw [List.takeWhile_cons] at hword
      split at hword
      · cases hword
        exact ⟨x, word, rfl, hx⟩
      · cases hword
  · cases h

theorem readsOperand_postMod {symbol name : String} (hsymbol : symbol ∈ postfixOperators)
    (hname : (isName name.toList || isMember name.toList) = true) :
    ReadsOperand width (.node (.postMod (some symbol) (some (.text name)))) := by
  intro s rest _ _ _ _
  have hfacts : Stops isNameChar (symbol.toList ++ rest) ∧ Stops (· == '.') (symbol.toList ++ rest) ∧
      Solid (symbol.toList ++ rest) ∧ symbol.toList.isPrefixOf (symbol.toList ++ rest) = true ∧
      (operators.find? fun word => word.toList.isPrefixOf (symbol.toList ++ rest)) =
        some symbol := by
    simp only [postfixOperators, List.mem_cons, List.not_mem_nil, or_false] at hsymbol
    rcases hsymbol with rfl | rfl <;>
      exact ⟨stops_cons.2 rfl, stops_cons.2 rfl, solid_cons rfl, rfl, rfl⟩
  obtain ⟨hstops, hdot, hsolid, hhead, hfind⟩ := hfacts
  obtain ⟨rest', hahead⟩ := @reads_words s (symbol.toList ++ rest) _ _ hsymbol hhead
  obtain ⟨r, hr, htarget⟩ : ∃ r, (r = .member ∨ r = .ident) ∧
      Reads (oneOf [.rule .member, .rule .ident]) s (name.toList ++ (symbol.toList ++ rest)) s
        (symbol.toList ++ rest) [.single r (.text name)] := by
    by_cases hmember : isMember name.toList = true
    · exact ⟨.member, .inl rfl, .altFirst (reads_member hmember hstops)⟩
    · rw [Bool.or_eq_true, or_iff_left hmember] at hname
      refine ⟨.ident, .inr rfl, .altSecond (.of_scans scans_member rfl rfl ?_)
        (reads_ident hname hstops)⟩
      rw [takeMember?, takeName?_append hname hstops, Option.bind_some, List.drop_left]
      split
      · next heq =>
        rw [heq] at hdot
        cases stops_cons.1 hdot
      · rfl
  have hmod : Reads (.rule .postMod) s (name.toList ++ (symbol.toList ++ rest)) s rest _ :=
    .node rfl (build_postMod symbol hr (.text name)) rfl rfl
      (.next htarget hsolid (.next hahead.ahead hsolid (reads_operator hfind)))
  obtain ⟨x, tail, hword, hx⟩ : ∃ x tail, name.toList = x :: tail ∧ isNameStart x = true := by
    rw [Bool.or_eq_true] at hname
    rcases hname with hname | hname
    · exact head_of_isName hname
    · exact head_of_isMember hname
  obtain ⟨hmodifier, -, -, -, hparen, -⟩ := isNameStart_eq hx
  rw [Element.operandText_postMod, List.append_assoc]
  rw [hword, List.cons_append] at hmod ⊢
  refine ⟨.postMod, rest, rfl, .inl rfl, .silent rfl rfl (.altSecond ?_ (.altSecond ?_
    (.altFirst hmod)))⟩
  · exact fails_of_head rfl hmodifier
  · exact fails_of_head rfl (by simpa [starts] using hparen)

/-! ## Literals -/

/-- The tries that are going on where the closing angle comes after the components. -/
def triesAtEnd : List Operation → List Nat
  | [] => []
  | [last] => last.strays ++ last.tries
  | o :: o' :: os => triesAfter (os.length + 1) o.strays ++ triesAtEnd (o' :: os)

/-- Tries that come to the closing angle go on after the literal, and all others come to nothing
before. -/
theorem separated_of_closable {os : List Operation} (h : closable os = true)
    (hpends : ∀ count ∈ triesAtEnd os, Pends count rest) : Separated ('>' :: rest) os := by
  have hmem {count passed : Nat} {tries : List Nat} (hcount : count ∈ tries) (hle : passed ≤ count) :
      count - passed ∈ triesAfter passed tries :=
    List.mem_map.2 ⟨count, List.mem_filter.2 ⟨hcount, decide_eq_true hle⟩, rfl⟩
  induction os with
  | nil => exact .nil
  | cons o os ih =>
    simp only [closable, Bool.and_eq_true, List.all_eq_true, bne_iff_ne] at h
    cases os with
    | nil =>
      rw [triesAtEnd, List.forall_mem_append] at hpends
      refine .cons (fun count hcount => ⟨(h.1 count hcount).2, nofun, fun _ => ?_⟩)
        (fun _ count hcount => (hpends.2 count hcount).angle) .nil
      exact (hpends.1 count hcount).stalls
    | cons o' os =>
      rw [triesAtEnd, List.forall_mem_append] at hpends
      refine .cons (fun count hcount => ⟨(h.1 count hcount).2, ?_, fun hle => ?_⟩) nofun
        (ih h.2 hpends.2)
      · exact fun heq => absurd heq (h.1 count hcount).1
      · exact (hpends.1 _ (hmem hcount hle)).stalls

section

variable {o : Operation} {os : List Operation} (hfollows : Follows rest)
  (hfits : ∀ last ∈ (o :: os).getLast?, last.fitsLast = true)
  (hread : ∀ o' ∈ o :: os, ReadsOperation width o') (h : Separated ('>' :: rest) (o :: os))

include hfollows hfits hread h

/-- The components of a literal after the first one, with its closing angle. -/
theorem reads_components {count : Nat} (hlength : (o :: os).length = count + 1) :
    Reads (finishPattern count) ([','] :: s) (elementsText width (o :: os) ('>' :: rest)) s rest
      ((o :: os).map fun o => .single .value (.node (.value o))) := by
  induction count generalizing o os with
  | zero =>
    obtain rfl : os = [] := List.eq_nil_of_length_eq_zero (Nat.succ.inj hlength)
    have hruns := @Separated.runsTo (['>'] :: s) rest o width [] '>' rfl h hread
      (nested_cons (by decide)) fun _ => hfits o rfl
    have hvalue := hruns.reads isOperation_value (solid_cons rfl) (fails_round_of_angle hfollows)
    exact .next (.drop [',']) (solid_cons rfl) (.seq (.word ",") hruns.solid.blank
      (.next (.pushLit ['>']) hruns.solid (.next hvalue (solid_cons rfl)
        (.next (.drop ['>']) (solid_cons rfl) (.word ">")))))
  | succ count ih =>
    cases os with
    | nil => cases hlength
    | cons o' os =>
      have hvalue := @Separated.reads ([','] :: s) rest o width (o' :: os) '>' rfl h hread _ _
        isOperation_value (nested_cons (by decide)) (by simp) nofun
      cases h with
      | cons _ _ h =>
        have hrest := @ih o' os hfits (fun o'' ho => hread o'' (List.mem_cons_of_mem _ ho)) h
          (Nat.succ.inj hlength)
        exact .seq (.word ",") (isOperation_value.solid hvalue).blank
          (hvalue.next (solid_cons rfl) hrest)

end

/-- A literal with its components. -/
theorem reads_literal {o o' : Operation} {os : List Operation} (hfollows : Follows rest)
    (hfits : ∀ last ∈ (o' :: os).getLast?, last.fitsLast = true)
    (hread : ∀ o'' ∈ o :: o' :: os, ReadsOperation width o'')
    (h : Separated ('>' :: rest) (o :: o' :: os)) :
    Reads (cat [word "<", pushLit [','], .rule .value, finishPattern os.length]) s
      ('<' :: (commaText ((o :: o' :: os).map (Operation.text width)) ++ '>' :: rest)) s rest
      ((o :: o' :: os).map fun o => .single .value (.node (.value o))) := by
  have hvalue := @Separated.reads ([','] :: s) rest o width (o' :: os) '>' rfl h hread _ _
    isOperation_value (nested_cons (by decide)) (by simp) nofun
  have hsolid := isOperation_value.solid hvalue
  rw [commaText_append]
  cases h with
  | cons _ _ h =>
    have hrest := @reads_components s rest width o' os hfollows hfits
      (fun o'' ho => hread o'' (List.mem_cons_of_mem _ ho)) h os.length rfl
    exact .next (.word "<") hsolid (.next (.pushLit [',']) hsolid
      (hvalue.next (solid_cons rfl) hrest))

section

variable {x y z last : Operation}

theorem readsOperand_quaternion (hx : x.wellShaped = true) (hy : y.wellShaped = true)
    (hz : z.wellShaped = true) (hlast : last.wellShaped = true)
    (hread : ∀ o ∈ [x, y, z, last], ReadsOperation width o)
    (hclosable : closable [x, y, z, last] = true) (hfits : last.fitsLast = true) :
    ReadsOperand width (.node (.quaternion (.node (.value x)) (.node (.value y)) (.node (.value z))
      (.node (.value last)))) := by
  intro s rest _ hfollows _ htries
  have hsep : Separated ('>' :: rest) [x, y, z, last] := separated_of_closable hclosable htries
  have hquaternion : Reads (.rule .quaternion) s _ s rest _ :=
    .node rfl (build_quaternion _ _ _ _) rfl rfl
      (@reads_literal s rest width x y [z, last] hfollows (by simpa using hfits) hread hsep)
  rw [Element.operandText_quaternion hx hy hz hlast, List.cons_append, List.append_assoc,
    List.singleton_append]
  exact ⟨.quaternion, rest, rfl, .inl rfl, reads_operand_of_primary rfl (by decide)
    (fails_of_head rfl rfl) (.silent rfl rfl (.altSecond (fails_of_head rfl rfl)
      (.altFirst hquaternion)))⟩

/-- A vector literal is not read as a rotation literal, as what follows it does not complete one. -/
theorem fails_quaternion (hread : ∀ o ∈ [x, y, z], ReadsOperation width o)
    (h : Separated ('>' :: rest) [x, y, z]) (hpends : Pends 0 rest) :
    Fails (.rule .quaternion) s
      ('<' :: (commaText ([x, y, z].map (Operation.text width)) ++ '>' :: rest)) := by
  have hruns := @Separated.runsTo ([','] :: s) rest x width [y, z] '>' rfl h hread
    (nested_cons (by decide)) nofun
  rw [commaText_append]
  cases h with
  | cons _ _ h =>
    have hpasses : Passes ('>' :: rest) [y, z] 2 := ⟨rfl, nofun, fun _ => hpends.stalls⟩
    have hstalls := @stalls_elementsText rest width 2 [y, z] '>' rfl h
      (fun o ho => hread o (List.mem_cons_of_mem _ ho)) hpasses
    exact .rule rfl (.next (.word "<") hruns.solid (.next (.pushLit [',']) hruns.solid
      (hruns.fails (hstalls s))))

theorem readsOperand_vector (hx : x.wellShaped = true) (hy : y.wellShaped = true)
    (hz : z.wellShaped = true) (hread : ∀ o ∈ [x, y, z], ReadsOperation width o)
    (hclosable : closable [x, y, z] = true) (hfits : z.fitsLast = true) :
    ReadsOperand width
      (.node (.vector (.node (.value x)) (.node (.value y)) (.node (.value z)))) := by
  intro s rest _ hfollows _ htries
  obtain ⟨hpends, htries⟩ : Pends 0 rest ∧ ∀ count ∈ triesAtEnd [x, y, z], Pends count rest :=
    List.forall_mem_cons.1 htries
  have hsep : Separated ('>' :: rest) [x, y, z] := separated_of_closable hclosable htries
  have hfail := @fails_quaternion s rest width x y z hread hsep hpends
  have hvector : Reads (.rule .vector) s _ s rest _ :=
    .node rfl (build_vector _ _ _) rfl rfl
      (@reads_literal s rest width x y [z] hfollows (by simpa using hfits) hread hsep)
  rw [Element.operandText_vector hx hy hz, List.cons_append, List.append_assoc,
    List.singleton_append]
  exact ⟨.vector, rest, rfl, .inl rfl, reads_operand_of_primary rfl (by decide)
    (fails_of_head rfl rfl) (.silent rfl rfl (.altSecond (fails_of_head rfl rfl)
      (.altSecond hfail (.altFirst hvector))))⟩

end

end Lsl.Rule
