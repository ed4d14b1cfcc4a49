import Lsl.Proofs.Convert.Build
import Lsl.Proofs.Grammar.Reading
import Lsl.Proofs.Roundtrip.Expression
/-!
# Reading words and operators

Names, numbers, strings, types and operators are read back whole, given what is written after them.
-/

namespace Lsl.Rule

open Peg Pattern Lexeme

variable {s : List (List Char)} {text rest : List Char}

/-! ## Words -/

section

variable {word : String}

/-- A word of an atomic rule is read back as its text. -/
theorem reads_text {r : Rule} {take? : List Char → Option (List Char)}
    (hscans : Scans grammar (.rule r) take?) (hr : r.kind? = none) (hs : r.isSilent = false)
    (ha : r.isAtomic = true) (htake : take? (word.toList ++ rest) = some word.toList) :
    Reads (.rule r) s (word.toList ++ rest) s rest [.single r (.text word)] := by
  have h := Reads.leaf (s := s) hscans hr hs ha htake
  rwa [String.ofList_toList] at h

theorem reads_name (h : isName word.toList = true) (hrest : Stops isNameChar rest) :
    Reads (.rule .name) s (word.toList ++ rest) s rest [.single .name (.text word)] :=
  reads_text scans_name rfl rfl rfl (takeName?_append h hrest)

theorem reads_ident (h : isName word.toList = true) (hrest : Stops isNameChar rest) :
    Reads (.rule .ident) s (word.toList ++ rest) s rest [.single .ident (.text word)] :=
  reads_text scans_ident rfl rfl rfl (takeName?_append h hrest)

theorem reads_member (h : isMember word.toList = true) (hrest : Stops isNameChar rest) :
    Reads (.rule .member) s (word.toList ++ rest) s rest [.single .member (.text word)] :=
  reads_text scans_member rfl rfl rfl (takeMember?_append h hrest)

theorem reads_integer (h : isInteger word.toList = true) (hrest : Stops isNameChar rest) :
    Reads (.rule .integer) s (word.toList ++ rest) s rest [.single .integer (.text word)] :=
  reads_text scans_integer rfl rfl rfl (takeInteger?_append h hrest)

theorem reads_string (h : isString word.toList = true) :
    Reads (.rule .string) s (word.toList ++ rest) s rest [.single .string (.text word)] :=
  reads_text scans_string rfl rfl rfl (takeString?_append h rest)

theorem reads_operator
    (h : (operators.find? fun symbol => symbol.toList.isPrefixOf (word.toList ++ rest)) =
      some word) :
    Reads (.rule .operator) s (word.toList ++ rest) s rest [.single .operator (.text word)] :=
  reads_text scans_operator rfl rfl rfl (by rw [h]; rfl)

end

/-! ## Keywords and types -/

/-- The word at the head of the text is no keyword. -/
def Unkeyed (text : List Char) : Prop :=
  isKeyword (text.takeWhile isNameChar) = false

theorem unkeyed_append {name : List Char} (h : isName name = true)
    (hrest : Stops isNameChar rest) : Unkeyed (name ++ rest) := by
  rw [isName, Bool.and_eq_true] at h
  rw [Unkeyed, takeWhile_append (all_of_isWord h.1) hrest]
  simpa using h.2

theorem unkeyed_of_stops (h : Stops Char.isAlpha text) : Unkeyed text := by
  have hkeywords : ∀ word ∈ keywords.map String.toList, word.head?.any Char.isAlpha = true := by
    decide
  rw [Unkeyed, Bool.eq_false_iff]
  intro hkeyword
  have halpha := hkeywords _ (List.contains_iff_mem.1 hkeyword)
  cases text with
  | nil => cases halpha
  | cons c rest =>
    rw [List.takeWhile_cons] at halpha
    split at halpha
    · rw [List.head?_cons, Option.any_some, stops_cons.1 h] at halpha
      cases halpha
    · cases halpha

theorem fails_keyword (h : Unkeyed text) : Fails (.rule .keyword) s text := by
  refine .of_scans scans_keyword rfl rfl ?_
  dsimp only
  rw [h]
  rfl

theorem fails_keyed {word : String} (h : Unkeyed text) : Fails (keyed word) s text :=
  .seqFirst (.ahead (fails_keyword h))

/-- The text does not start with the keyword. -/
theorem fails_keyed_of_solid {word : String} (h : word.toList.isPrefixOf text = false)
    (hsolid : Solid text) : Fails (keyed word) s text := by
  intro k
  obtain ⟨result, hresult⟩ := exists_derives false .keyword ⟨k, text, s⟩
  cases result with
  | none => exact .seqFirst (.aheadFail hresult)
  | some result =>
    obtain ⟨k', gs, hgap⟩ := hsolid.gapTo k s
    exact .seqSecond (.ahead hresult) hgap (Fails.word h k')

theorem keyword_chars {word : List Char} (h : isKeyword word = true) :
    word.all isNameChar = true ∧ word.head?.any (!startsGap ·) = true := by
  have hwords : ∀ word ∈ keywords.map String.toList,
      word.all isNameChar = true ∧ word.head?.any (!startsGap ·) = true := by decide
  exact hwords _ (List.contains_iff_mem.1 h)

theorem reads_keyword {word : String} (h : isKeyword word.toList = true)
    (hrest : Stops isNameChar rest) :
    Reads (.rule .keyword) s (word.toList ++ rest) s rest [.single .keyword (.text word)] := by
  refine reads_text scans_keyword rfl rfl rfl ?_
  dsimp only
  rw [takeWhile_append (keyword_chars h).1 hrest, h]
  rfl

theorem solid_keyword {word : String} (h : isKeyword word.toList = true) :
    Solid (word.toList ++ rest) := by
  have hhead := (keyword_chars h).2
  cases hword : word.toList with
  | nil =>
    rw [hword] at hhead
    cases hhead
  | cons c word =>
    rw [hword] at hhead
    exact solid_cons (by simpa using hhead)

theorem reads_keyed {word : String} (h : isKeyword word.toList = true)
    (hrest : Stops isNameChar rest) : Reads (keyed word) s (word.toList ++ rest) s rest [] :=
  (reads_keyword h hrest).ahead.next (solid_keyword h) (.word word)

theorem fails_type (h : Unkeyed text) : Fails (.rule .type) s text := by
  have hkeywords : ∀ word ∈ typeNames.map String.toList, isKeyword word = true := by decide
  refine .rule rfl (.of_scans scans_typeName rfl rfl ?_)
  dsimp only
  split
  · next hmem =>
    have := hkeywords _ (List.contains_iff_mem.1 hmem)
    rw [Unkeyed, this] at h
    cases h
  · rfl

theorem fails_type_of_keyword {word : String} (h : typeNames.contains word = false)
    (hword : word.toList.all isNameChar = true) (hrest : Stops isNameChar rest) :
    Fails (.rule .type) s (word.toList ++ rest) := by
  refine .rule rfl (.of_scans scans_typeName rfl rfl ?_)
  dsimp only
  rw [takeWhile_append hword hrest, if_neg]
  rw [List.contains_iff_mem, List.mem_map]
  rintro ⟨other, hother, heq⟩
  rw [String.toList_inj.1 heq, ← List.contains_iff_mem, h] at hother
  cases hother

theorem reads_type {primitive : Primitive} (h : primitive.isVoid = false)
    (hrest : Stops isNameChar rest) :
    Reads (.rule .type) s (primitive.text ++ rest) s rest [.single .type (.ofType primitive)] := by
  have hmem : (typeNames.map String.toList).contains primitive.text = true ∧
      primitive.text.all isNameChar = true := by
    cases primitive <;> first | (cases h; done) | decide
  have hname : Reads (.rule .typeName) s (primitive.text ++ rest) s rest
      [.single .typeName (.text primitive.name)] := by
    refine reads_text scans_typeName rfl rfl rfl ?_
    dsimp only
    rw [← Primitive.text, takeWhile_append hmem.2 hrest, hmem.1]
    rfl
  exact .node rfl (build_type (Primitive.parse_name primitive)) rfl rfl hname

/-! ## What follows an operand -/

/-- The characters that end an expression. -/
def endsExpression (x : Char) : Bool :=
  x == ';' || x == ')' || x == ']' || x == ',' || x == '>'

/-- The end of an expression: the end of the text, or a character that ends an expression. -/
inductive Ends : List Char → Prop
  | done : Ends []
  | close {x : Char} {rest : List Char} : endsExpression x = true → Ends (x :: rest)

/-- What is written after an operand: the end of the expression, or an operator. -/
inductive Follows : List Char → Prop
  | ends {rest : List Char} : Ends rest → Follows rest
  | operator {symbol : String} (rest : List Char) : (Level.of? symbol).isSome = true →
      Follows (symbolText symbol ++ rest)

/-- The binary operators, from the loosest to the tightest. -/
def binaryOperators : List String :=
  Level.all.flatMap Level.operators

theorem mem_binaryOperators {symbol : String} (h : (Level.of? symbol).isSome = true) :
    symbol ∈ binaryOperators := by
  obtain ⟨level, hlevel⟩ := Option.isSome_iff_exists.1 h
  have hmem : symbol ∈ level.operators := by simpa using List.find?_some hlevel
  exact List.mem_flatMap.2 ⟨level, level.mem_all, hmem⟩

/-- An operator as it is written: with a blank after it, unless it is the member operator. -/
def Spaced (symbol : String) (rest : List Char) : Prop :=
  symbol = "." ∨ ∃ tail, rest = ' ' :: tail

/-- None of the words is at the head of the text. -/
def NoneOf (words : List String) (text : List Char) : Prop :=
  (words.all fun word => !word.toList.isPrefixOf text) = true

theorem NoneOf.isPrefixOf {words : List String} (h : NoneOf words text) (word : String)
    (hword : word ∈ words) : word.toList.isPrefixOf text = false := by
  simpa using List.all_eq_true.1 h word hword

theorem fails_words {words : List String} (h : NoneOf words text) :
    Fails (.words words) s text := by
  induction words with
  | nil => exact .notAhead (.lit [])
  | cons word words ih =>
    rw [NoneOf, List.all_cons, Bool.and_eq_true] at h
    have hword : Fails (.word word) s text := .word (by simpa using h.1)
    cases words with
    | nil => exact hword
    | cons word' words => exact hword.alt (ih h.2)

/-- What an operator is told apart by where it is written. -/
structure Distinct (symbol : String) (text : List Char) : Prop where
  solid : Solid text
  find : (operators.find? fun word => word.toList.isPrefixOf text) = some symbol
  name : Stops isNameChar text
  other : NoneOf ["(", "[", ",", "++", "--", "~"] text
  bang : symbol = "!=" ∨ NoneOf ["!"] text
  angle : symbol = ">=" ∨ isClosingOperator symbol = true ∨ NoneOf [">"] text

theorem Distinct.noneOf {symbol : String} (h : Distinct symbol text) :
    NoneOf ["(", "++", "--"] text := by
  have hwords : ∀ word ∈ ["(", "++", "--"], word ∈ ["(", "[", ",", "++", "--", "~"] := by decide
  rw [NoneOf, List.all_eq_true]
  intro word hword
  rw [Bool.not_eq_true']
  exact h.other.isPrefixOf word (hwords word hword)

theorem distinct_of_level {symbol : String} (h : (Level.of? symbol).isSome = true)
    (hrest : Spaced symbol rest) : Distinct symbol (symbol.toList ++ rest) := by
  have hmem := mem_binaryOperators h
  by_cases hdot : symbol = "."
  · subst hdot
    exact ⟨solid_cons rfl, rfl, stops_cons.2 rfl, rfl, .inr rfl, .inr (.inr rfl)⟩
  · obtain ⟨tail, rfl⟩ := hrest.resolve_left hdot
    simp only [binaryOperators, Level.all, Level.operators, List.flatMap_cons, List.flatMap_nil,
      List.cons_append, List.nil_append, List.mem_cons, List.not_mem_nil, or_false, hdot] at hmem
    rcases hmem with rfl | rfl | rfl | rfl | rfl | rfl | rfl | rfl | rfl | rfl | rfl | rfl | rfl |
      rfl | rfl | rfl | rfl | rfl | rfl | rfl | rfl | rfl | rfl | rfl
    all_goals
      refine ⟨⟨stops_cons.2 rfl, rfl⟩, rfl, stops_cons.2 rfl, rfl, ?_, ?_⟩
      · first | exact .inl rfl | exact .inr rfl
      · first | exact .inl rfl | exact .inr (.inl rfl) | exact .inr (.inr rfl)

/-! ## Operators -/

/-- The stack inside expressions: its top marks a bracket or a literal. -/
def Nested (s : List (List Char)) : Prop :=
  ∀ top, s.head? = some top → top ∈ [['('], ['['], [','], ['>']]

/-- The lookahead for a closing angle fails at an operator that does not close a literal. -/
theorem fails_closingAngle {symbol : String} (hs : Nested s)
    (hfits : s.head? = some ['>'] → isClosingOperator symbol = false)
    (hd : Distinct symbol (symbol.toList ++ rest)) :
    Fails (.rule .closingAngle) s (symbol.toList ++ rest) := by
  refine .rule rfl ?_
  by_cases htop : s.head? = some ['>']
  · rcases hd.angle with rfl | hclosing | hangle
    · obtain ⟨below, rfl⟩ := List.head?_eq_some_iff.1 htop
      have hequals : Fails (.notAhead (word "=")) (['>'] :: below) ('=' :: rest) :=
        .notAhead (.word "=")
      exact .next (.peek ['>']) (solid_cons rfl) hequals
    · cases (hfits htop).symm.trans hclosing
    · refine .seqFirst (.peek fun top h => ?_)
      cases htop.symm.trans h
      exact hangle.isPrefixOf ">" (by simp)
  · refine .seqFirst (.peek fun top h => ?_)
    have hmem := hs top h
    simp only [List.mem_cons, List.not_mem_nil, or_false] at hmem
    rcases hmem with rfl | rfl | rfl | rfl
    · exact hd.other.isPrefixOf "(" (by simp)
    · exact hd.other.isPrefixOf "[" (by simp)
    · exact hd.other.isPrefixOf "," (by simp)
    · exact absurd h htop

/-- The lookahead for operators that are only modifiers fails at a binary operator. -/
theorem fails_unary {symbol : String} (hd : Distinct symbol (symbol.toList ++ rest)) :
    Fails (oneOf [word "++", word "--", word "~", cat [word "!", notAhead (word "=")]]) s
      (symbol.toList ++ rest) := by
  have hbang : Fails (cat [word "!", notAhead (word "=")]) s (symbol.toList ++ rest) := by
    rcases hd.bang with rfl | hbang
    · have hequals : Fails (.notAhead (word "=")) s ('=' :: rest) := .notAhead (.word "=")
      exact .next (.word "!") (solid_cons rfl) hequals
    · exact .seqFirst (.word (hbang.isPrefixOf "!" (by simp)))
  have hword {word : String} (h : word ∈ ["(", "[", ",", "++", "--", "~"]) :
      Fails (.word word) s (symbol.toList ++ rest) := .word (hd.other.isPrefixOf word h)
  exact (hword (by simp)).alt ((hword (by simp)).alt ((hword (by simp)).alt hbang))

theorem reads_binaryOperator {symbol : String} (hs : Nested s)
    (h : (Level.of? symbol).isSome = true) (hrest : Spaced symbol rest)
    (hfits : s.head? = some ['>'] → isClosingOperator symbol = false) :
    Reads (.rule .binaryOperator) s (symbol.toList ++ rest) s rest
      [.single .operator (.text symbol)] := by
  have hd := distinct_of_level h hrest
  have hclosing : Reads (.notAhead (.rule .closingAngle)) s _ s _ [] :=
    .notAhead (fails_closingAngle hs hfits hd)
  have hunary : Reads (.notAhead _) s _ s _ [] := .notAhead (fails_unary hd)
  exact .silent rfl rfl (hclosing.next hd.solid (hunary.next hd.solid (reads_operator hd.find)))

/-! ## Where no operator follows -/

/-- A round of an operation: an operator and an operand. -/
def roundPattern : Pattern Rule :=
  cat [.rule .binaryOperator, .rule .operand]

theorem fails_operator (h : NoneOf operators text) : Fails (.rule .operator) s text := by
  refine .of_scans scans_operator rfl rfl ?_
  have hnone : (operators.find? fun word => word.toList.isPrefixOf text) = none := by
    rw [List.find?_eq_none]
    intro word hword
    rw [h.isPrefixOf word hword]
    exact Bool.false_ne_true
  rw [hnone]
  rfl

/-- No operator starts here. -/
theorem fails_binaryOperator (h : NoneOf operators text) (hsolid : Solid text) :
    Fails (.rule .binaryOperator) s text := by
  have hunary : Fails (oneOf [word "++", word "--", word "~", cat [word "!", notAhead (word "=")]])
      s text := by
    have hword {word : String} (hmem : word ∈ operators) : Fails (.word word) s text :=
      .word (h.isPrefixOf word hmem)
    exact (hword (by decide)).alt ((hword (by decide)).alt ((hword (by decide)).alt
      (.seqFirst (hword (by decide)))))
  have hread : Reads (.notAhead _) s text s text [] := .notAhead hunary
  exact .rule rfl (.afterNotAhead hsolid (.next hread hsolid (fails_operator h)))

theorem fails_round_of_noneOf (h : NoneOf operators text) (hsolid : Solid text) :
    Fails roundPattern s text :=
  .seqFirst (fails_binaryOperator h hsolid)

/-- The characters that end an expression, apart from the closing angle. -/
theorem fails_round_of_ends {x : Char} (h : endsExpression x = true) (hx : x ≠ '>') :
    Fails roundPattern s (x :: rest) := by
  simp only [endsExpression, Bool.or_eq_true, beq_iff_eq] at h
  rcases h with (((rfl | rfl) | rfl) | rfl) | rfl
  · exact fails_round_of_noneOf rfl (solid_cons rfl)
  · exact fails_round_of_noneOf rfl (solid_cons rfl)
  · exact fails_round_of_noneOf rfl (solid_cons rfl)
  · exact fails_round_of_noneOf rfl (solid_cons rfl)
  · exact absurd rfl hx

theorem Ends.solid (h : Ends rest) : Solid rest := by
  cases h with
  | done => exact solid_nil
  | close hx =>
    refine solid_cons ?_
    simp only [endsExpression, Bool.or_eq_true, beq_iff_eq] at hx
    rcases hx with (((rfl | rfl) | rfl) | rfl) | rfl <;> rfl

/-- The operator after an operand, or the end of the expression, comes after the gap. -/
theorem Follows.gap (h : Follows text) :
    ∃ rest, GapTo text rest ∧ Solid rest ∧ NoneOf ["(", "++", "--"] rest := by
  cases h with
  | ends hends =>
    refine ⟨text, hends.solid.gapTo, hends.solid, ?_⟩
    cases hends with
    | done => rfl
    | close hx =>
      simp only [endsExpression, Bool.or_eq_true, beq_iff_eq] at hx
      rcases hx with (((rfl | rfl) | rfl) | rfl) | rfl <;> rfl
  | @operator symbol rest hlevel =>
    unfold symbolText
    split
    · exact ⟨'.' :: rest, (solid_cons rfl).gapTo, solid_cons rfl, rfl⟩
    · have hd := distinct_of_level hlevel (.inr ⟨rest, rfl⟩)
      rw [List.cons_append, List.append_assoc]
      exact ⟨_, hd.solid.blank, hd.solid, hd.noneOf⟩

theorem Follows.stops (h : Follows text) : Stops isNameChar text := by
  cases h with
  | ends hends =>
    cases hends with
    | done => exact .nil _
    | close hx =>
      refine stops_cons.2 ?_
      simp only [endsExpression, Bool.or_eq_true, beq_iff_eq] at hx
      rcases hx with (((rfl | rfl) | rfl) | rfl) | rfl <;> rfl
  | @operator symbol rest hlevel =>
    unfold symbolText
    split
    · exact stops_cons.2 rfl
    · exact stops_cons.2 rfl

/-- A closing angle without an equals sign after it ends the last component of a literal. -/
theorem fails_round_of_closing {below : List (List Char)} (hgap : GapTo text rest)
    (hrest : "=".toList.isPrefixOf rest = false) :
    Fails roundPattern (['>'] :: below) ('>' :: text) := by
  have hequals : Reads (.notAhead (word "=")) (['>'] :: below) rest _ _ _ :=
    .notAhead (.word hrest)
  have hangle : Reads (.rule .closingAngle) (['>'] :: below) ('>' :: text) _ _ _ :=
    .silent rfl rfl (.seq (.peek ['>']) hgap hequals)
  exact .seqFirst (.rule rfl (.seqFirst (.notAhead hangle)))

/-- In the last component of a literal a closing angle is followed by no operand: not even an
equals sign after it makes it an operator. -/
theorem fails_round_of_angle {below : List (List Char)} (h : Follows text) :
    Fails roundPattern (['>'] :: below) ('>' :: text) := by
  cases h with
  | ends hends =>
    refine fails_round_of_closing hends.solid.gapTo ?_
    cases hends with
    | done => rfl
    | close hx =>
      simp only [endsExpression, Bool.or_eq_true, beq_iff_eq] at hx
      rcases hx with (((rfl | rfl) | rfl) | rfl) | rfl <;> rfl
  | @operator symbol rest hlevel =>
    unfold symbolText
    split
    · exact fails_round_of_closing (solid_cons rfl).gapTo rfl
    · have hd := distinct_of_level hlevel (.inr ⟨rest, rfl⟩)
      rw [List.cons_append, List.append_assoc]
      by_cases hequals : "=".toList.isPrefixOf (symbol.toList ++ ' ' :: rest) = true
      · obtain ⟨tail, htail⟩ := List.isPrefixOf_iff_prefix.1 hequals
        have hlook : Fails (.rule .closingAngle) (['>'] :: below)
            ('>' :: ' ' :: (symbol.toList ++ ' ' :: rest)) := by
          refine .rule rfl (.seqSecond (.peek ['>']) hd.solid.blank ?_)
          rw [← htail]
          exact .notAhead (.word "=")
        have hangle : Distinct ">" (">".toList ++ ' ' :: (symbol.toList ++ ' ' :: rest)) :=
          distinct_of_level rfl (.inr ⟨_, rfl⟩)
        have hoperator : Reads (.rule .binaryOperator) (['>'] :: below) _ _ _ _ :=
          .silent rfl rfl ((Reads.notAhead hlook).next hangle.solid
            ((Reads.notAhead (fails_unary hangle)).next hangle.solid (reads_operator hangle.find)))
        refine .seqSecond hoperator hd.solid.blank (.of_starts rfl ?_)
        rw [← htail]
        exact stops_cons.2 rfl
      · exact fails_round_of_closing hd.solid.blank (Bool.eq_false_iff.2 hequals)

end Lsl.Rule
