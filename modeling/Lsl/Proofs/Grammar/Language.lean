import Lsl.Proofs.Grammar.Lexeme
import Mathlib.Computability.Language
/-!
# Words as languages

The texts that the lexical rules stand for once more, put together from classes of characters by
union, concatenation and repetition.  They are the texts that the tests on lists of characters let
through.
-/

namespace Lsl.Lexicon

open Lexeme
open scoped Computability

/-! ## Classes of characters -/

/-- The texts of one character that is accepted. -/
def single (accepts : Char → Bool) : Language Char :=
  {text | ∃ c, text = [c] ∧ accepts c = true}

/-- The characters from the first to the last. -/
def range (first last : Char) : Language Char :=
  single fun c => decide (first ≤ c) && decide (c ≤ last)

/-- The characters that a text is made of. -/
def oneOf (chars : String) : Language Char :=
  single chars.toList.contains

/-- Any character outside of a text. -/
def noneOf (chars : String) : Language Char :=
  single fun c => !chars.toList.contains c

def letter : Language Char :=
  range 'A' 'Z' + range 'a' 'z' + oneOf "_"

def digit : Language Char :=
  range '0' '9'

def hexDigit : Language Char :=
  digit + range 'A' 'F' + range 'a' 'f'

/-! ## The languages -/

/-- One text of the language or more, one after the other. -/
def many (L : Language Char) : Language Char :=
  L * L∗

/-- A text of the language, or nothing. -/
def perhaps (L : Language Char) : Language Char :=
  1 + L

/-- Characters that go on a name. -/
def nameChars : Language Char :=
  (letter + digit)∗

def word : Language Char :=
  letter * nameChars

def keywords : Language Char :=
  {text | String.ofList text ∈ Rule.keywords}

def integer : Language Char :=
  oneOf "0" * oneOf "xX" * many hexDigit + many digit

def exponent : Language Char :=
  oneOf "eE" * perhaps (oneOf "+-") * many digit

def float : Language Char :=
  many digit * oneOf "." * digit∗ * perhaps exponent +
    oneOf "." * many digit * perhaps exponent +
    many digit * exponent

/-- A backslash with any character after it, or one character that is neither backslash nor quote. -/
def stringItem : Language Char :=
  oneOf "\\" * noneOf "" + noneOf "\\\""

def string : Language Char :=
  oneOf "\"" * stringItem∗ * oneOf "\""

/-! ## Texts of single characters -/

section

variable {accepts accepts' : Char → Bool} {L M : Language Char} {c : Char} {text rest : List Char}

theorem nil_notMem_single : [] ∉ single accepts := by
  rintro ⟨c, h, -⟩
  cases h

theorem cons_mem_single : c :: rest ∈ single accepts ↔ accepts c = true ∧ rest = [] := by
  constructor
  · rintro ⟨d, h, hd⟩
    cases h
    exact ⟨hd, rfl⟩
  · rintro ⟨hc, rfl⟩
    exact ⟨c, rfl, hc⟩

theorem single_add : single accepts + single accepts' = single fun c => accepts c || accepts' c := by
  ext text
  rw [Language.mem_add]
  cases text with
  | nil => simp only [nil_notMem_single, or_self]
  | cons c rest => simp only [cons_mem_single, Bool.or_eq_true, ← or_and_right]

theorem nil_notMem_single_mul : [] ∉ single accepts * L := by
  rintro ⟨first, hfirst, second, -, h⟩
  cases (List.append_eq_nil_iff.1 h).1
  exact nil_notMem_single hfirst

/-- A text starts with a character of the class, and the rest belongs to the other language. -/
theorem cons_mem_single_mul : c :: rest ∈ single accepts * L ↔ accepts c = true ∧ rest ∈ L := by
  rw [Language.mem_mul]
  constructor
  · rintro ⟨_, ⟨d, rfl, hd⟩, second, hsecond, h⟩
    cases h
    exact ⟨hd, hsecond⟩
  · rintro ⟨hc, hrest⟩
    exact ⟨[c], ⟨c, rfl, hc⟩, rest, hrest, rfl⟩

/-- The test of such texts looks at the first character and hands on the rest. -/
theorem mem_single_mul_iff {passes : List Char → Bool} (hnil : passes [] = false)
    (hcons : ∀ c rest, passes (c :: rest) = true ↔ accepts c = true ∧ rest ∈ L) :
    text ∈ single accepts * L ↔ passes text = true := by
  cases text with
  | nil => exact iff_of_false nil_notMem_single_mul (Bool.eq_false_iff.1 hnil)
  | cons c rest => rw [cons_mem_single_mul, hcons]

theorem mem_perhaps_mul : text ∈ perhaps L * M ↔ text ∈ M ∨ text ∈ L * M := by
  rw [perhaps, add_mul, one_mul, Language.mem_add]

theorem mem_kstar_single : text ∈ (single accepts)∗ ↔ text.all accepts = true := by
  induction text with
  | nil => exact iff_of_true (Language.nil_mem_kstar _) rfl
  | cons c rest ih =>
    rw [← Language.one_add_self_mul_kstar_eq_kstar, Language.mem_add, cons_mem_single_mul, ih,
      List.all_cons, Bool.and_eq_true]
    exact or_iff_right (List.cons_ne_nil c rest)

theorem mem_many_single :
    text ∈ many (single accepts) ↔ text.isEmpty = false ∧ text.all accepts = true := by
  cases text with
  | nil => exact iff_of_false nil_notMem_single_mul (by simp)
  | cons c rest =>
    rw [many, cons_mem_single_mul, mem_kstar_single, List.all_cons, Bool.and_eq_true]
    exact (and_iff_right rfl).symm

end

/-! ## The classes as tests -/

theorem digit_eq : digit = single Char.isDigit :=
  rfl

theorem letter_eq : letter = single isNameStart := by
  rw [letter, range, range, oneOf, single_add, single_add]
  congr 1
  funext c
  rw [Bool.eq_iff_iff]
  simp only [isNameStart, Bool.or_eq_true, isAlpha_iff, isUpper_iff, isLower_iff]
  simp [Char.le_def]

theorem nameChar_eq : letter + digit = single isNameChar := by
  rw [letter_eq, digit_eq, single_add]
  congr 1
  funext c
  simp only [isNameStart, isNameChar, Char.isAlphanum, Bool.or_right_comm]

theorem hexDigit_eq : hexDigit = single Peg.CharClass.hexDigit.contains := by
  rw [hexDigit, digit_eq, range, range, single_add, single_add]
  congr 1
  funext c
  exact Bool.or_right_comm ..

/-! ## Names and integers -/

theorem mem_nameChars_iff {text : List Char} : text ∈ nameChars ↔ text.all isNameChar = true := by
  rw [nameChars, nameChar_eq, mem_kstar_single]

theorem mem_word_iff {text : List Char} : text ∈ word ↔ isWord text = true := by
  rw [word, letter_eq]
  apply mem_single_mul_iff rfl
  intro c rest
  rw [mem_nameChars_iff, isWord, Bool.and_eq_true]

theorem mem_keywords_iff {text : List Char} : text ∈ keywords ↔ isKeyword text = true := by
  rw [isKeyword, List.contains_iff_mem, List.mem_map]
  constructor
  · intro h
    exact ⟨_, h, String.toList_ofList⟩
  · rintro ⟨keyword, h, rfl⟩
    change String.ofList keyword.toList ∈ Rule.keywords
    rwa [String.ofList_toList]

theorem mem_name_iff {text : List Char} : text ∈ word - keywords ↔ isName text = true := by
  rw [Language.mem_sub, mem_word_iff, mem_keywords_iff, isName, Bool.and_eq_true,
    Bool.not_eq_true', Bool.not_eq_true]

theorem mem_digits_iff {text : List Char} : text ∈ many digit ↔ isDigits text = true := by
  rw [digit_eq, mem_many_single, isDigits, Bool.and_eq_true, Bool.not_eq_true']

theorem mem_hexadecimal_iff {text : List Char} :
    text ∈ oneOf "0" * (oneOf "xX" * many hexDigit) ↔ isHexadecimal text = true := by
  rw [oneOf, oneOf, hexDigit_eq]
  apply mem_single_mul_iff rfl
  intro c rest
  cases rest with
  | nil => exact iff_of_false (by simp [isHexadecimal]) fun h => nil_notMem_single_mul h.2
  | cons x rest =>
    rw [cons_mem_single_mul, mem_many_single]
    by_cases hc : c = '0'
    · simp [isHexadecimal, hc, and_assoc]
    · simp [isHexadecimal, hc]

theorem mem_integer_iff {text : List Char} : text ∈ integer ↔ isInteger text = true := by
  rw [integer, mul_assoc, Language.mem_add, mem_hexadecimal_iff, mem_digits_iff, isInteger,
    Bool.or_eq_true]

/-! ## Floats -/

/-- Digits may have a sign in front. -/
theorem mem_perhaps_sign_iff {text : List Char} :
    text ∈ perhaps (oneOf "+-") * many digit ↔
      isDigits (text.drop (takeSign text).length) = true := by
  rw [mem_perhaps_mul, mem_digits_iff]
  cases text with
  | nil => exact iff_of_false (by simp [isDigits, oneOf, nil_notMem_single_mul]) (by simp [isDigits])
  | cons c rest =>
    rw [oneOf, cons_mem_single_mul, mem_digits_iff]
    by_cases hplus : c = '+'
    · simp [hplus, takeSign, isDigits]
    · by_cases hminus : c = '-'
      · simp [hminus, takeSign, isDigits]
      · simp [hplus, hminus, takeSign]

theorem mem_exponent_iff {text : List Char} : text ∈ exponent ↔ isExponent text = true := by
  rw [exponent, mul_assoc, oneOf]
  apply mem_single_mul_iff rfl
  intro e rest
  rw [mem_perhaps_sign_iff, isExponent, Bool.and_eq_true]
  simp

theorem mem_perhaps_exponent_iff {text : List Char} :
    text ∈ perhaps exponent ↔ text = [] ∨ isExponent text = true := by
  rw [perhaps, Language.mem_add, Language.mem_one, mem_exponent_iff]

theorem mem_run_iff {text : List Char} : text ∈ digit∗ ↔ text.all Char.isDigit = true := by
  rw [digit_eq, mem_kstar_single]

/-- A dot with a text on either side of it, and an exponent that may be missing. -/
theorem mem_dotted_iff {L M : Language Char} {text : List Char} :
    text ∈ L * (oneOf "." * (M * perhaps exponent)) ↔
      ∃ whole ∈ L, ∃ fraction ∈ M, ∃ last, (last = [] ∨ isExponent last = true) ∧
        whole ++ '.' :: (fraction ++ last) = text := by
  constructor
  · intro h
    obtain ⟨whole, hwhole, _, hmore, rfl⟩ := Language.mem_mul.1 h
    obtain ⟨_, ⟨c, rfl, hc⟩, _, hrest, rfl⟩ := Language.mem_mul.1 hmore
    obtain ⟨fraction, hfraction, last, hlast, rfl⟩ := Language.mem_mul.1 hrest
    obtain rfl : c = '.' := by simpa using hc
    exact ⟨whole, hwhole, fraction, hfraction, last, mem_perhaps_exponent_iff.1 hlast, rfl⟩
  · rintro ⟨whole, hwhole, fraction, hfraction, last, hlast, rfl⟩
    have hrest := Language.append_mem_mul hfraction (mem_perhaps_exponent_iff.2 hlast)
    exact Language.append_mem_mul hwhole (cons_mem_single_mul.2 ⟨rfl, hrest⟩)

theorem float_eq :
    float = many digit * (oneOf "." * (digit∗ * perhaps exponent)) +
      1 * (oneOf "." * (many digit * perhaps exponent)) + many digit * exponent := by
  simp only [float, mul_assoc, one_mul]

theorem isFloat_of_mem {text : List Char} (h : text ∈ float) : isFloat text = true := by
  rw [float_eq, Language.mem_add, Language.mem_add, mem_dotted_iff, mem_dotted_iff,
    Language.mem_mul] at h
  rcases h with (h | h) | h
  · obtain ⟨whole, hwhole, fraction, hfraction, last, hlast, rfl⟩ := h
    rw [digit_eq, mem_many_single] at hwhole
    apply isFloat_of_dot hwhole.2 (mem_run_iff.1 hfraction) _ hlast
    rw [hwhole.1, Bool.false_and]
  · obtain ⟨_, rfl, fraction, hfraction, last, hlast, rfl⟩ := h
    rw [digit_eq, mem_many_single] at hfraction
    exact isFloat_of_dot rfl hfraction.2 hfraction.1 hlast
  · obtain ⟨whole, hwhole, last, hlast, rfl⟩ := h
    exact isFloat_of_exponent (mem_digits_iff.1 hwhole) (mem_exponent_iff.1 hlast)

theorem mem_of_isFloat {text : List Char} (h : isFloat text = true) : text ∈ float := by
  rw [float_eq, Language.mem_add, Language.mem_add, mem_dotted_iff, mem_dotted_iff,
    Language.mem_mul]
  unfold isFloat at h
  split at h
  · next rest hdot =>
    simp only [Bool.and_eq_true, Bool.or_eq_true, List.isEmpty_iff] at h
    have hfraction : rest.takeWhile Char.isDigit ∈ digit∗ := mem_run_iff.2 List.all_takeWhile
    have hsplit : text.takeWhile Char.isDigit ++
        '.' :: (rest.takeWhile Char.isDigit ++ rest.dropWhile Char.isDigit) = text := by
      rw [List.takeWhile_append_dropWhile, ← hdot, List.takeWhile_append_dropWhile]
    by_cases hwhole : isDigits (text.takeWhile Char.isDigit) = true
    · exact .inl (.inl ⟨_, mem_digits_iff.2 hwhole, _, hfraction, _, h.2, hsplit⟩)
    · have hempty : text.takeWhile Char.isDigit = [] := by
        simpa [isDigits, List.all_takeWhile] using hwhole
      rw [hempty] at hsplit
      have hdigits := mem_digits_iff.2 (h.1.resolve_left hwhole)
      exact .inl (.inr ⟨[], rfl, _, hdigits, _, h.2, hsplit⟩)
  · rw [Bool.and_eq_true] at h
    exact .inr ⟨_, mem_digits_iff.2 h.1, _, mem_exponent_iff.2 h.2,
      List.takeWhile_append_dropWhile⟩

theorem mem_float_iff {text : List Char} : text ∈ float ↔ isFloat text = true :=
  ⟨isFloat_of_mem, mem_of_isFloat⟩

/-! ## Strings -/

/-- The rest of a string after its opening quote. -/
def stringTail : Language Char :=
  stringItem∗ * oneOf "\""

theorem stringTail_eq :
    stringTail = oneOf "\\" * (noneOf "" * stringTail) + noneOf "\\\"" * stringTail + oneOf "\"" := by
  have hnil : [] ∉ stringItem := by
    rw [stringItem, Language.mem_add]
    exact not_or.2 ⟨nil_notMem_single_mul, nil_notMem_single⟩
  have h : stringTail = stringItem * stringTail + oneOf "\"" :=
    (Language.self_eq_mul_add_iff hnil).2 rfl
  rwa [stringItem, add_mul, mul_assoc] at h

/-- A string goes on with a protected character or a plain one, or it ends. -/
theorem cons_mem_stringTail {c : Char} {rest : List Char} :
    c :: rest ∈ stringTail ↔
      (c = '\\' ∧ rest ∈ noneOf "" * stringTail) ∨ ((c ≠ '\\' ∧ c ≠ '"') ∧ rest ∈ stringTail) ∨
        (c = '"' ∧ rest = []) := by
  rw [stringTail_eq, Language.mem_add, Language.mem_add, ← stringTail_eq, oneOf, oneOf, noneOf,
    noneOf, cons_mem_single_mul, cons_mem_single_mul, cons_mem_single]
  simp [or_assoc]

theorem nil_notMem_stringTail : [] ∉ stringTail := by
  rintro ⟨body, -, quote, hquote, h⟩
  cases (List.append_eq_nil_iff.1 h).2
  exact nil_notMem_single hquote

theorem mem_stringTail_iff {text : List Char} : text ∈ stringTail ↔ isStringTail text = true := by
  fun_induction isStringTail text with
  | case1 c rest ih =>
    rw [cons_mem_stringTail, noneOf, cons_mem_single_mul, ih]
    simp
  | case2 c rest hne hc =>
    obtain rfl : c = '"' := beq_iff_eq.1 hc
    rw [cons_mem_stringTail]
    simp
  | case3 c rest hne hc ih =>
    have hquote : c ≠ '"' := fun h => hc (beq_iff_eq.2 h)
    rw [cons_mem_stringTail, ih]
    by_cases hback : c = '\\'
    · -- The last character is a backslash with nothing left to protect.
      cases rest with
      | nil => simp [hback, noneOf, nil_notMem_single_mul]
      | cons d rest => exact (hne d rest hback rfl).elim
    · simp [hback, hquote]
  | case4 => exact iff_of_false nil_notMem_stringTail Bool.false_ne_true

theorem mem_string_iff {text : List Char} : text ∈ string ↔ isString text = true := by
  rw [string, mul_assoc, ← stringTail, oneOf]
  apply mem_single_mul_iff rfl
  intro c rest
  rw [mem_stringTail_iff]
  by_cases hc : c = '"'
  · simp [isString, hc]
  · simp [isString, hc]

end Lsl.Lexicon
