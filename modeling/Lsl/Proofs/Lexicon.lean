import Lsl.Proofs.Arguments
import Lsl.Proofs.Grammar.Language
/-!
# The languages of the lexical rules

The texts that names, numbers and strings are: a lexical rule takes all of a text exactly when the
text belongs to its language.  At the head of a longer text a name goes as far as its characters do,
and it is refused if that makes it a keyword.
-/

namespace Lsl.Lexicon

open Peg Lexeme

/-! ## Longest texts and whole texts -/

/-- The run is the longest text of the language at the head of the text. -/
structure IsLongest (L : Language Char) (text run : List Char) : Prop where
  head : run <+: text
  mem : run ∈ L
  longest : ∀ other ∈ L, other <+: text → other.length ≤ run.length

theorem IsLongest.unique {L : Language Char} {text run run' : List Char}
    (h : IsLongest L text run) (h' : IsLongest L text run') : run = run' := by
  have hle : run.length ≤ run'.length := h'.longest run h.mem h.head
  have hge : run'.length ≤ run.length := h.longest run' h'.mem h'.head
  exact (List.prefix_of_prefix_length_le h.head h'.head hle).eq_of_length (Nat.le_antisymm hle hge)

/-- The texts that a rule takes all of. -/
def language (r : Rule) : Language Char :=
  {text | ∃ tree, ReadsAll r (String.ofList text) tree}

/-! ## Rules that are functions of the text -/

section

variable {r : Rule} {take? : List Char → Option (List Char)} {text taken : List Char}

theorem parseRule_of_take (hscans : Scans grammar (.rule r) take?) (hs : r.isSilent = false)
    (ha : r.isAtomic = true) (htake : take? text = some taken) :
    parseRule r (String.ofList text) = .ok [⟨r, String.ofList taken, []⟩] := by
  obtain ⟨rest, rfl⟩ := hscans.taken htake
  rw [parseRule, String.toList_ofList, parse_of_derives (Rule.derives_leaf hscans hs ha htake 0)]
  rfl

theorem parseRule_of_take_none (hscans : Scans grammar (.rule r) take?) (hs : r.isSilent = false)
    (ha : r.isAtomic = true) (htake : take? text = none) :
    ∃ e, parseRule r (String.ofList text) = .error e := by
  have hfails : Rule.Fails (.rule r) [] text := .of_scans hscans hs ha htake
  rw [parseRule, String.toList_ofList]
  rcases parse_cases r text with ⟨c, ts, hd, -⟩ | ⟨attempts, -, herror⟩
  · cases (hfails 0).unique hd
  · rw [herror]
    exact ⟨_, rfl⟩

/-- A rule has the language of a test if what it takes passes the test and what passes the test is
taken whole. -/
theorem language_eq {L : Language Char} {passes : List Char → Bool}
    (hscans : Scans grammar (.rule r) take?) (hs : r.isSilent = false) (ha : r.isAtomic = true)
    (hmem : ∀ {text}, text ∈ L ↔ passes text = true)
    (htaken : ∀ {text taken}, take? text = some taken → passes taken = true)
    (hwhole : ∀ {text}, passes text = true → take? (text ++ []) = some text) : language r = L := by
  ext text
  rw [hmem]
  constructor
  · rintro ⟨tree, hparse, htext⟩
    cases htake : take? text with
    | none =>
      obtain ⟨e, herror⟩ := parseRule_of_take_none hscans hs ha htake
      cases hparse.symm.trans herror
    | some taken =>
      cases hparse.symm.trans (parseRule_of_take hscans hs ha htake)
      obtain rfl : taken = text := String.ofList_injective htext
      exact htaken htake
  · intro h
    have htake := hwhole h
    rw [List.append_nil] at htake
    exact ⟨_, parseRule_of_take hscans hs ha htake, rfl⟩

end

/-! ## Names -/

theorem isLongest_takeWhile (text : List Char) :
    IsLongest nameChars text (text.takeWhile isNameChar) := by
  refine ⟨List.takeWhile_prefix _, mem_nameChars_iff.2 List.all_takeWhile, ?_⟩
  rintro other hother ⟨rest, rfl⟩
  have hall : ∀ c ∈ other, isNameChar c = true := List.all_eq_true.1 (mem_nameChars_iff.1 hother)
  rw [List.takeWhile_append_of_pos hall, List.length_append]
  omega

/-- At the head of a text that starts like a name is a keyword, or the name is all of the run. -/
theorem takeName?_eq {c : Char} (hc : [c] ∈ letter) (rest : List Char) :
    takeName? (c :: rest) =
      if isKeyword ((c :: rest).takeWhile isNameChar) then none
      else some ((c :: rest).takeWhile isNameChar) := by
  rw [letter_eq, cons_mem_single] at hc
  simp only [takeName?, isName, isWord_takeWhile, hc.1]
  cases isKeyword ((c :: rest).takeWhile isNameChar) <;> rfl

section

variable {r : Rule} (hscans : Scans grammar (.rule r) takeName?) (hs : r.isSilent = false)
  (ha : r.isAtomic = true)

include hscans hs ha

theorem language_name : language r = word - keywords := by
  apply language_eq hscans hs ha mem_name_iff takeName?_eq_some
  intro text h
  exact takeName?_append h (.nil _)

theorem parseRule_name {c : Char} (hc : [c] ∈ letter) (rest : List Char) :
    ∃ run, IsLongest nameChars (c :: rest) run ∧
      (run ∈ keywords → ∃ e, parseRule r (String.ofList (c :: rest)) = .error e) ∧
      (run ∉ keywords →
        parseRule r (String.ofList (c :: rest)) = .ok [⟨r, String.ofList run, []⟩]) := by
  refine ⟨_, isLongest_takeWhile _, fun hkeyword => ?_, fun hkeyword => ?_⟩
  · apply parseRule_of_take_none hscans hs ha
    rw [takeName?_eq hc, if_pos (mem_keywords_iff.1 hkeyword)]
  · apply parseRule_of_take hscans hs ha
    rw [takeName?_eq hc, if_neg (mt mem_keywords_iff.2 hkeyword)]

end

/-! ## Numbers and strings -/

theorem language_integer : language .integer = integer := by
  apply language_eq Rule.scans_integer rfl rfl mem_integer_iff takeInteger?_eq_some
  intro text h
  exact takeInteger?_append h (.nil _)

theorem language_float : language .float = float := by
  apply language_eq Rule.scans_float rfl rfl mem_float_iff takeFloat?_eq_some
  intro text h
  exact takeFloat?_append h (.nil _)

theorem language_string : language .string = string := by
  apply language_eq Rule.scans_string rfl rfl mem_string_iff takeString?_eq_some
  intro text h
  exact takeString?_append h []

/-- The lexical rules take whole exactly the texts of their languages.  At the head of a text a name is
all of the run of name characters there, and there is none if that is a keyword. -/
theorem lexical_languages :
    (∀ r ∈ [Rule.name, Rule.ident], language r = word - keywords ∧
      ∀ c rest, [c] ∈ letter → ∃ run, IsLongest nameChars (c :: rest) run ∧
        (run ∈ keywords → ∃ e, parseRule r (String.ofList (c :: rest)) = .error e) ∧
        (run ∉ keywords →
          parseRule r (String.ofList (c :: rest)) = .ok [⟨r, String.ofList run, []⟩])) ∧
    language .integer = integer ∧ language .float = float ∧ language .string = string := by
  refine ⟨fun r hr => ?_, language_integer, language_float, language_string⟩
  obtain ⟨hscans, hs, ha⟩ : Scans grammar (.rule r) takeName? ∧ r.isSilent = false ∧
      r.isAtomic = true := by
    simp only [List.mem_cons, List.not_mem_nil, or_false] at hr
    rcases hr with rfl | rfl
    · exact ⟨Rule.scans_name, rfl, rfl⟩
    · exact ⟨Rule.scans_ident, rfl, rfl⟩
  exact ⟨language_name hscans hs ha, fun c rest hc => parseRule_name hscans hs ha hc rest⟩

/-- A name that a keyword starts, the keyword itself, a mark of hexadecimal digits without one, a
number that ends in its exponent, and a string whose closing quote is protected. -/
theorem lexical_languages_sample :
    ['d'] ∈ letter ∧
    ("done".toList ∉ keywords ∧ parseRule .ident "done = 1" = .ok [⟨.ident, "done", []⟩]) ∧
    ("do".toList ∈ keywords ∧ ∃ e, parseRule .name "do;" = .error e) ∧
    "0x".toList ∉ language .integer ∧ "1.e-5".toList ∈ language .float ∧
    "\"\\\"".toList ∉ language .string := by
  obtain ⟨hnames, hinteger, hfloat, hstring⟩ := lexical_languages
  have hletter : ['d'] ∈ letter := letter_eq ▸ cons_mem_single.2 ⟨rfl, rfl⟩
  have hname : "done".toList ∉ keywords := mt mem_keywords_iff.1 (by decide)
  have hkeyword : "do".toList ∈ keywords := mem_keywords_iff.2 (by decide)
  obtain ⟨run, hrun, -, hread⟩ := (hnames .ident (by simp)).2 'd' "one = 1".toList hletter
  obtain rfl : run = "done".toList := hrun.unique (isLongest_takeWhile "done = 1".toList)
  obtain ⟨run, hrun, hrefuse, -⟩ := (hnames .name (by simp)).2 'd' "o;".toList hletter
  obtain rfl : run = "do".toList := hrun.unique (isLongest_takeWhile "do;".toList)
  refine ⟨hletter, ⟨hname, hread hname⟩, ⟨hkeyword, hrefuse hkeyword⟩, ?_, ?_, ?_⟩
  · rw [hinteger, mem_integer_iff]
    decide
  · rw [hfloat, mem_float_iff]
    decide
  · rw [hstring, mem_string_iff]
    decide

end Lsl.Lexicon
