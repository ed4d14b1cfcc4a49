import Lsl.Proofs.Grammar.Comment
import Lsl.Proofs.Grammar.Confined
import Mathlib.Data.List.Find
/-!
# The code of a text

A text scanned once from its start, with what is outside its strings and comments kept.  Where the scan
ends outside of both, every gap and every word that starts in the text ends in it, whatever comes
after it.
-/

namespace Lsl.Rule

open Peg Pattern Lexeme

/-- What a scan is inside of. -/
inductive Mode where
  | code
  | string
  | line
  | block
  deriving DecidableEq, Repr

/-- The characters outside strings and comments, if the text ends outside of them. A quote opens a
string, in which a backslash protects the character after it; two slashes open a comment up to the end
of the line, and a slash and a star one up to the next star and slash. -/
def codeOf? : Mode → List Char → Option (List Char)
  | .code, '"' :: rest => codeOf? .string rest
  | .code, '/' :: '/' :: rest => codeOf? .line rest
  | .code, '/' :: '*' :: rest => codeOf? .block rest
  | .code, c :: rest => (codeOf? .code rest).map (c :: ·)
  | .code, [] => some []
  | .string, '\\' :: _ :: rest => codeOf? .string rest
  | .string, '"' :: rest => codeOf? .code rest
  | .string, _ :: rest => codeOf? .string rest
  | .line, '\n' :: rest => codeOf? .code rest
  | .line, _ :: rest => codeOf? .line rest
  | .block, '*' :: '/' :: rest => codeOf? .code rest
  | .block, _ :: rest => codeOf? .block rest
  | _, [] => none

/-- Braces, parentheses and square brackets. -/
def isBracket (c : Char) : Bool :=
  c == '\x7b' || c == '\x7d' || c == '(' || c == ')' || c == '[' || c == ']'

/-- The characters that are part of no word and no operator. -/
def isDelimiter (c : Char) : Bool :=
  isBlank c || isBracket c || c == ';' || c == ','

/-- The characters that neither delimit words nor open strings or comments. -/
def isInert (c : Char) : Bool :=
  !isDelimiter c && c != '"' && c != '/'

/-- A delimiter comes first. -/
def Delimited (tail : List Char) : Prop :=
  Stops (fun c => !isDelimiter c) tail

/-- The second code is the first without some of its head, in which there are no brackets. -/
def Sheds (code code' : List Char) : Prop :=
  ∃ shed, code = shed ++ code' ∧ shed.all (fun c => !isBracket c) = true

theorem Sheds.refl (code : List Char) : Sheds code code :=
  ⟨[], rfl, rfl⟩

theorem Sheds.trans {code code' code'' : List Char} (h : Sheds code code')
    (h' : Sheds code' code'') : Sheds code code'' := by
  obtain ⟨shed, rfl, hshed⟩ := h
  obtain ⟨shed', rfl, hshed'⟩ := h'
  refine ⟨shed ++ shed', by rw [List.append_assoc], ?_⟩
  rw [List.all_append, hshed, hshed']
  rfl

theorem Delimited.stops {accepts : Char → Bool} {tail : List Char} (h : Delimited tail)
    (haccepts : ∀ c, isDelimiter c = true → accepts c = false) : Stops accepts tail := by
  refine h.mono fun c hc => ?_
  cases hd : isDelimiter c with
  | false => rfl
  | true =>
    rw [haccepts c hd] at hc
    cases hc

/-! ## What opens in the text is closed in it -/

section

variable {head tail code : List Char}

theorem codeOf?_cons {c : Char} (hquote : c ≠ '"') (hslash : c ≠ '/') (rest : List Char) :
    codeOf? .code (c :: rest) = (codeOf? .code rest).map (c :: ·) := by
  rw [codeOf?]
  · exact hquote
  · exact fun _ h _ => hslash h
  · exact fun _ h _ => hslash h

theorem codeOf?_append {chars : List Char}
    (h : chars.all (fun c => c != '"' && c != '/') = true) (rest : List Char) :
    codeOf? .code (chars ++ rest) = (codeOf? .code rest).map (chars ++ ·) := by
  induction chars with
  | nil => simp
  | cons c chars ih =>
    simp only [List.all_cons, Bool.and_eq_true, bne_iff_ne] at h
    rw [List.cons_append, codeOf?_cons h.1.1 h.1.2, ih (by simpa using h.2), Option.map_map]
    rfl

theorem codeOf?_slash {rest : List Char} (hline : rest.head? ≠ some '/')
    (hblock : rest.head? ≠ some '*') :
    codeOf? .code ('/' :: rest) = (codeOf? .code rest).map ('/' :: ·) := by
  rw [codeOf?]
  · nofun
  · rintro tail - rfl
    exact hline rfl
  · rintro tail - rfl
    exact hblock rfl

/-- A string that is closed in the text is taken from it, whatever comes after. -/
theorem string_of_codeOf? (h : codeOf? .string head = some code) :
    ∃ taken left, head = taken ++ left ∧ codeOf? .code left = some code ∧
      ∀ tail, takeStringTail? (head ++ tail) = some taken := by
  fun_induction takeStringTail? head with
  | case1 c rest ih =>
    rw [codeOf?] at h
    obtain ⟨taken, left, rfl, hleft, htake⟩ := ih h
    refine ⟨'\\' :: c :: taken, left, rfl, hleft, fun tail => ?_⟩
    rw [List.cons_append, List.cons_append, takeStringTail?, htake]
    rfl
  | case2 c rest hescape hquote =>
    obtain rfl : c = '"' := by simpa using hquote
    rw [codeOf?] at h
    exact ⟨['"'], rest, rfl, h, fun tail => by simp [takeStringTail?]⟩
  | case3 c rest hescape hquote ih =>
    have hquote : c ≠ '"' := by simpa using hquote
    rw [codeOf?] at h
    · obtain ⟨taken, left, rfl, hleft, htake⟩ := ih h
      have hbackslash : c ≠ '\\' := by
        rintro rfl
        cases hrest : taken ++ left with
        | nil =>
          rw [hrest] at h
          cases h
        | cons d rest => exact hescape d rest rfl hrest
      refine ⟨c :: taken, left, rfl, hleft, fun tail => ?_⟩
      rw [List.cons_append, takeStringTail?, htake, if_neg (by simpa using hquote)]
      · rfl
      · exact fun _ _ h => absurd h hbackslash
    · exact hescape
    · exact hquote
  | case4 => cases h

/-- A block comment that is closed in the text is taken from it, whatever comes after. -/
theorem block_of_codeOf? (h : codeOf? .block head = some code) :
    ∃ taken left, head = taken ++ left ∧ codeOf? .code left = some code ∧
      ∀ tail, takeBlockTail? (head ++ tail) = some taken := by
  fun_induction takeBlockTail? head with
  | case1 rest =>
    rw [codeOf?] at h
    exact ⟨['*', '/'], rest, rfl, h, fun tail => by simp [takeBlockTail?]⟩
  | case2 c rest hclose ih =>
    rw [codeOf?] at h
    · obtain ⟨taken, left, rfl, hleft, htake⟩ := ih h
      refine ⟨c :: taken, left, rfl, hleft, fun tail => ?_⟩
      rw [List.cons_append, takeBlockTail?, htake]
      · rfl
      · intro rest hstar hslash
        subst hstar
        cases hrest : taken ++ left with
        | nil =>
          rw [hrest] at h
          cases h
        | cons d rest' =>
          rw [hrest] at hslash
          cases hslash
          exact hclose rest' rfl hrest
    · exact hclose
  | case3 => cases h

/-- A comment up to the end of its line ends in the text. -/
theorem line_of_codeOf? (h : codeOf? .line head = some code) :
    ∃ taken left, head = taken ++ '\n' :: left ∧ codeOf? .code left = some code ∧
      taken.all (· != '\n') = true := by
  induction head with
  | nil => cases h
  | cons c rest ih =>
    by_cases hc : c = '\n'
    · subst hc
      rw [codeOf?] at h
      exact ⟨[], rest, rfl, h, rfl⟩
    · rw [codeOf?] at h
      · obtain ⟨taken, left, rfl, hleft, hall⟩ := ih h
        refine ⟨c :: taken, left, rfl, hleft, ?_⟩
        rw [List.all_cons, hall, Bool.and_true, bne_iff_ne]
        exact hc
      · exact hc

/-! ## Gaps -/

theorem takeComment?_eq_none {text : List Char} (h : opensComment text = false) :
    takeComment? text = none := by
  fun_cases takeComment? text with
  | case1 rest => cases h
  | case2 rest => cases h
  | case3 => rfl

/-- Nothing is skipped where neither a blank nor a comment comes first. -/
theorem takePiece?_of_solid {text : List Char} (h : Solid text) : takePiece? text = none := by
  rw [takePiece?_of_stops h.1, takeComment?_eq_none h.2]

theorem opensComment_append (hopens : opensComment head = false) (hne : head ≠ [])
    (htail : Delimited tail) : opensComment (head ++ tail) = false := by
  match head with
  | [c] =>
    cases tail with
    | nil => exact hopens
    | cons d tail =>
      by_cases hc : c = '/'
      · subst hc
        have hd : isDelimiter d = true := by simpa using stops_cons.1 htail
        have hne : (d == '/' || d == '*') = false := by
          rw [← Bool.not_eq_true, Bool.or_eq_true, beq_iff_eq, beq_iff_eq]
          rintro (rfl | rfl) <;> cases hd
        exact hne
      · rw [List.cons_append, List.nil_append]
        unfold opensComment
        split
        · next heq =>
          cases heq
          exact absurd rfl hc
        · rfl
  | c :: d :: rest =>
    unfold opensComment at hopens ⊢
    split at hopens
    · next heq =>
      cases heq
      exact hopens
    · next hne' =>
      split
      · next heq =>
        cases heq
        exact absurd rfl (hne' d rest)
      · rfl

theorem not_isBracket_of_isBlank {c : Char} (h : isBlank c = true) : isBracket c = false := by
  simp only [isBlank, Bool.or_eq_true, beq_iff_eq] at h
  rcases h with ((rfl | rfl) | rfl) | rfl <;> rfl

/-- A gap that starts in the text ends in it, unless nothing but the gap is left of the text. -/
theorem gap_of_codeOf? (h : codeOf? .code head = some code) :
    ∃ left code', codeOf? .code left = some code' ∧ Sheds code code' ∧ ∀ tail, Delimited tail →
      afterGap (head ++ tail) = afterGap (left ++ tail) ∧
        (left = [] ∨ takePiece? (left ++ tail) = none) := by
  induction hn : head.length using Nat.strongRecOn generalizing head code with
  | ind n ih =>
    by_cases hnil : head = []
    · subst hnil
      exact ⟨[], code, h, .refl code, fun tail _ => ⟨rfl, .inl rfl⟩⟩
    obtain ⟨c, rest, rfl⟩ := List.exists_cons_of_ne_nil hnil
    subst hn
    by_cases hblank : isBlank c = true
    · have hquote : c ≠ '"' := by rintro rfl; cases hblank
      have hslash : c ≠ '/' := by rintro rfl; cases hblank
      rw [codeOf?_cons hquote hslash] at h
      obtain ⟨code₁, hrest, rfl⟩ := Option.map_eq_some_iff.1 h
      obtain ⟨left, code', hleft, hsheds, hgap⟩ := ih _ (by simp) hrest rfl
      refine ⟨left, code', hleft, .trans ⟨[c], rfl, ?_⟩ hsheds, fun tail htail => ?_⟩
      · simp [not_isBracket_of_isBlank hblank]
      · rw [List.cons_append, afterGap_blank hblank]
        exact hgap tail htail
    cases hopens : opensComment (c :: rest) with
    | false =>
      refine ⟨c :: rest, code, h, .refl code, fun tail htail => ⟨rfl, .inr ?_⟩⟩
      refine takePiece?_of_solid ⟨?_, opensComment_append hopens hnil htail⟩
      exact stops_cons.2 (by simpa using hblank)
    | true =>
      unfold opensComment at hopens
      split at hopens
      · next d rest heq =>
        cases heq
        rw [Bool.or_eq_true, beq_iff_eq, beq_iff_eq] at hopens
        rcases hopens with rfl | rfl
        · -- A comment up to the end of its line, and the line feed after it.
          rw [codeOf?] at h
          obtain ⟨taken, left₁, rfl, hleft₁, hall⟩ := line_of_codeOf? h
          obtain ⟨left, code', hleft, hsheds, hgap⟩ := ih _ (by simp; omega) hleft₁ rfl
          refine ⟨left, code', hleft, hsheds, fun tail htail => ?_⟩
          simp only [List.cons_append, List.append_assoc]
          rw [afterGap_line hall (stops_cons.2 rfl), afterGap_blank rfl]
          exact hgap tail htail
        · rw [codeOf?] at h
          obtain ⟨taken, left₁, rfl, hleft₁, htake⟩ := block_of_codeOf? h
          obtain ⟨left, code', hleft, hsheds, hgap⟩ := ih _ (by simp; omega) hleft₁ rfl
          refine ⟨left, code', hleft, hsheds, fun tail htail => ?_⟩
          have htake' := htake tail
          rw [List.append_assoc] at htake'
          simp only [List.cons_append, List.append_assoc]
          rw [afterGap_block htake']
          exact hgap tail htail
      · cases hopens

/-! ## Words -/

/-- The rules that are made of inert characters. -/
def isInertWord : Rule → Bool
  | .keyword | .typeName | .name | .ident | .member | .float | .integer | .identChar
  | .exponent => true
  | _ => false

theorem inert_cases {c : Char} (h : isInert c = false) :
    c = ' ' ∨ c = '\t' ∨ c = '\r' ∨ c = '\n' ∨ c = '\x7b' ∨ c = '\x7d' ∨ c = '(' ∨ c = ')' ∨
      c = '[' ∨ c = ']' ∨ c = ';' ∨ c = ',' ∨ c = '"' ∨ c = '/' := by
  simp only [isInert, isDelimiter, isBracket, isBlank, Bool.and_eq_false_iff, Bool.not_eq_false',
    Bool.or_eq_true, beq_iff_eq, bne_eq_false_iff_eq] at h
  tauto

theorem confines_inert : Confines isInert isInertWord where
  pattern {r} hr := by cases r <;> first | (cases hr; done) | decide
  contains {cls x} hcls hx := by
    rw [← Bool.not_eq_false]
    intro hinert
    rcases inert_cases hinert with rfl | rfl | rfl | rfl | rfl | rfl | rfl | rfl | rfl | rfl |
      rfl | rfl | rfl | rfl <;>
      cases cls <;> first | exact absurd rfl hcls | cases hx
  toLower x := by
    cases hx : isInert x with
    | false =>
      rcases inert_cases hx with rfl | rfl | rfl | rfl | rfl | rfl | rfl | rfl | rfl | rfl | rfl | rfl |
        rfl | rfl <;> rfl
    | true =>
      rw [← Bool.not_eq_false]
      intro hlower
      rcases inert_cases hlower with h | h | h | h | h | h | h | h | h | h | h | h | h | h <;>
        (rw [toLower_eq_iff_eq rfl] at h; subst h; cases hx)

theorem all_of_inert {chars : List Char} (h : chars.all isInert = true) :
    chars.all (fun c => c != '"' && c != '/') = true ∧
      chars.all (fun c => !isBracket c) = true := by
  have hne {c d : Char} (hc : c ∈ chars) (hd : isInert d = false) : c ≠ d := by
    rintro rfl
    rw [List.all_eq_true.1 h c hc] at hd
    cases hd
  simp only [List.all_eq_true, Bool.and_eq_true, bne_iff_ne, isBracket, Bool.not_eq_true',
    Bool.or_eq_false_iff, beq_eq_false_iff_ne]
  exact ⟨fun c hc => ⟨hne hc rfl, hne hc rfl⟩, fun c hc => ⟨⟨⟨⟨⟨hne hc rfl, hne hc rfl⟩, hne hc rfl⟩,
    hne hc rfl⟩, hne hc rfl⟩, hne hc rfl⟩⟩

/-- Inert characters at the head of a text are part of its code. -/
theorem inert_of_codeOf? {chars : List Char} (hchars : chars.all isInert = true)
    (h : codeOf? .code (chars ++ head) = some code) :
    ∃ code', codeOf? .code head = some code' ∧ Sheds code code' := by
  rw [codeOf?_append (all_of_inert hchars).1] at h
  obtain ⟨code', hcode', rfl⟩ := Option.map_eq_some_iff.1 h
  exact ⟨code', hcode', chars, rfl, (all_of_inert hchars).2⟩

/-- A slash after a gap does not open a comment. -/
theorem slash_of_codeOf? (h : codeOf? .code ('/' :: head) = some code)
    (hstill : takePiece? ('/' :: head ++ tail) = none) :
    ∃ code', codeOf? .code head = some code' ∧ Sheds code code' := by
  rw [List.cons_append, takePiece?_of_stops (stops_cons.2 rfl)] at hstill
  have hline : head.head? ≠ some '/' := by
    intro hhead
    obtain ⟨rest, rfl⟩ := List.head?_eq_some_iff.1 hhead
    cases hstill
  have hblock : head.head? ≠ some '*' := by
    intro hhead
    obtain ⟨rest, rfl⟩ := List.head?_eq_some_iff.1 hhead
    rw [codeOf?] at h
    obtain ⟨_, _, rfl, -, htake⟩ := block_of_codeOf? h
    rw [List.cons_append, takeComment?, htake] at hstill
    cases hstill
  rw [codeOf?_slash hline hblock] at h
  obtain ⟨code', hcode', rfl⟩ := Option.map_eq_some_iff.1 h
  exact ⟨code', hcode', ['/'], rfl, rfl⟩

/-- A literal without quotes and slashes is found in the text, or nowhere, if what comes after the text
does not go on with it. -/
theorem lit_of_codeOf? {chars tail' : List Char}
    (hchars : chars.all (fun c => c != '"' && c != '/') = true)
    (h : codeOf? .code head = some code)
    (htail : chars.isPrefixOf (head ++ tail) = chars.isPrefixOf head)
    (htail' : chars.isPrefixOf (head ++ tail') = chars.isPrefixOf head) :
    (∃ left code', head = chars ++ left ∧ code = chars ++ code' ∧ codeOf? .code left = some code') ∨
      (chars.isPrefixOf (head ++ tail) = false ∧ chars.isPrefixOf (head ++ tail') = false) := by
  rw [htail, htail']
  cases hpre : chars.isPrefixOf head with
  | false => exact .inr ⟨rfl, rfl⟩
  | true =>
    obtain ⟨left, rfl⟩ := List.isPrefixOf_iff_prefix.1 hpre
    rw [codeOf?_append hchars] at h
    obtain ⟨code', hcode', rfl⟩ := Option.map_eq_some_iff.1 h
    exact .inl ⟨left, code', rfl, rfl, hcode'⟩

theorem find_operator (htail : Delimited tail) :
    (operators.find? fun word => word.toList.isPrefixOf (head ++ tail)) =
      operators.find? fun word => word.toList.isPrefixOf head := by
  have hall : ∀ word ∈ operators, word.toList.all (fun c => !isDelimiter c) = true := by decide
  refine List.find?_congr fun word hword => ?_
  exact isPrefixOf_append_of_stops (hall word hword) htail

theorem operator_cases {symbol : String} (h : symbol ∈ operators) :
    symbol.toList.all isInert = true ∨ symbol = "/=" ∨ symbol = "/" := by
  have hall : ∀ symbol ∈ operators,
      symbol.toList.all isInert = true ∨ symbol = "/=" ∨ symbol = "/" := by decide
  exact hall symbol h

theorem operator_of_codeOf? {symbol : String} (hsymbol : symbol ∈ operators)
    (h : codeOf? .code (symbol.toList ++ head) = some code)
    (hstill : takePiece? (symbol.toList ++ head ++ tail) = none) :
    ∃ code', codeOf? .code head = some code' ∧ Sheds code code' := by
  rcases operator_cases hsymbol with hinert | rfl | rfl
  · exact inert_of_codeOf? hinert h
  · obtain ⟨code₁, hcode₁, hsheds₁⟩ := slash_of_codeOf? h hstill
    obtain ⟨code', hcode', hsheds⟩ := @inert_of_codeOf? head code₁ ['='] rfl hcode₁
    exact ⟨code', hcode', hsheds₁.trans hsheds⟩
  · exact slash_of_codeOf? h hstill

theorem takeString?_of_codeOf? (h : codeOf? .code head = some code) (htail : Delimited tail)
    {tail' : List Char} (htail' : Delimited tail') :
    takeString? (head ++ tail') = takeString? (head ++ tail) ∧
      ∀ taken, takeString? (head ++ tail) = some taken → ∃ left code', head = taken ++ left ∧
        codeOf? .code left = some code' ∧ Sheds code code' := by
  have hnone {text : List Char} (h : text.head? ≠ some '"') : takeString? text = none := by
    unfold takeString?
    split
    · exact absurd rfl h
    · rfl
  match head with
  | [] =>
    have hquote {tail : List Char} (htail : Delimited tail) : ([] ++ tail).head? ≠ some '"' := by
      intro hhead
      cases htail '"' hhead
    rw [hnone (hquote htail), hnone (hquote htail')]
    exact ⟨rfl, nofun⟩
  | c :: head =>
    by_cases hc : c = '"'
    · subst hc
      rw [codeOf?] at h
      obtain ⟨taken, left, rfl, hleft, htake⟩ := string_of_codeOf? h
      simp only [List.cons_append, takeString?, htake]
      refine ⟨trivial, ?_⟩
      rintro _ ⟨⟩
      exact ⟨left, code, rfl, hleft, .refl code⟩
    · have hhead (tail : List Char) : (c :: head ++ tail).head? ≠ some '"' := by
        simpa using hc
      rw [hnone (hhead tail), hnone (hhead tail')]
      exact ⟨rfl, nofun⟩

/-- What a rule without parts takes after a gap ends in the text. -/
theorem word_of_codeOf? {r : Rule} (hatomic : r.isAtomic = true) (hsilent : r.isSilent = false)
    {take? : List Char → Option (List Char)} (hscans : Scans grammar (.rule r) take?)
    (h : codeOf? .code head = some code) (hstill : takePiece? (head ++ tail) = none)
    (htail : Delimited tail) {tail' : List Char} (htail' : Delimited tail') :
    take? (head ++ tail') = take? (head ++ tail) ∧
      ∀ taken, take? (head ++ tail) = some taken → ∃ left code', head = taken ++ left ∧
        codeOf? .code left = some code' ∧ Sheds code code' := by
  have inert (hr : isInertWord r = true) : take? (head ++ tail') = take? (head ++ tail) ∧
      ∀ taken, take? (head ++ tail) = some taken → ∃ left code', head = taken ++ left ∧
        codeOf? .code left = some code' ∧ Sheds code code' := by
    have hstops {tail : List Char} (htail : Delimited tail) : Stops isInert tail :=
      htail.stops fun c hc => by simp [isInert, hc]
    obtain ⟨hsame, htaken⟩ := @take_of_confined _ _ head tail confines_inert r hr take? hscans
      (hstops htail) tail' (hstops htail')
    refine ⟨hsame, fun taken htake => ?_⟩
    obtain ⟨hall, left, rfl⟩ := htaken taken htake
    obtain ⟨code', hcode', hsheds⟩ := inert_of_codeOf? hall h
    exact ⟨left, code', rfl, hcode', hsheds⟩
  cases r
  case operator =>
    rw [hscans.unique scans_operator, hscans.unique scans_operator, find_operator htail,
      find_operator htail']
    refine ⟨rfl, fun taken htake => ?_⟩
    obtain ⟨symbol, hfind, rfl⟩ := Option.map_eq_some_iff.1 htake
    have hpre := List.find?_some hfind
    obtain ⟨left, rfl⟩ := List.isPrefixOf_iff_prefix.1 hpre
    obtain ⟨code', hcode', hsheds⟩ :=
      operator_of_codeOf? (List.mem_of_find?_eq_some hfind) h hstill
    exact ⟨left, code', rfl, hcode', hsheds⟩
  case string =>
    rw [hscans.unique scans_string, hscans.unique scans_string]
    exact takeString?_of_codeOf? h htail htail'
  case keyword | typeName | name | ident | member | float | integer => exact inert rfl
  all_goals first | (cases hatomic; done) | cases hsilent

end

end Lsl.Rule
