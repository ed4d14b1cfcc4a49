import Lsl.Proofs.Grammar.Lexeme
import Lsl.Proofs.Grammar.Termination
import Lsl.Proofs.Peg.First
/-!
# First characters of the rules

The characters that the rules of the grammar of scripts can start with, as far as alternatives are
told apart by them.
-/

namespace Lsl.Rule

open Peg Lexeme Pattern

/-- The characters of a prefix modifier. -/
def startsModifier (x : Char) : Bool :=
  x == '+' || x == '-' || x == '!' || x == '~'

/-- The characters that an operand without prefix modifier or cast starts with. -/
def startsPrimary (x : Char) : Bool :=
  isNameStart x || x.isDigit || x == '.' || x == '"' || x == '(' || x == '[' || x == '<'

def startsOperand (x : Char) : Bool :=
  startsModifier x || startsPrimary x

/-- The characters of blanks and of the start of a comment. -/
def startsGap (x : Char) : Bool :=
  x == ' ' || x == '\t' || x == '\r' || x == '\n' || x == '/'

/-- The characters that a rule can start with; all characters for the rules that are not told apart
by them. -/
def starts : Rule → Char → Bool
  | .whitespace, x | .comment, x => startsGap x
  | .identChar, x => isNameChar x
  | .keyword, x | .type, x | .typeName, x | .param, x | .variable, x | .ifElse, x | .whileLoop, x
  | .doLoop, x | .forLoop, x | .jump, x | .ret, x | .stateChange, x | .state, x => x.isAlpha
  | .name, x | .ident, x | .member, x | .call, x | .postMod, x => isNameStart x
  | .function, x => isNameStart x || startsGap x
  | .label, x => x == '@'
  | .preMod, x => startsModifier x
  | .cast, x => x == '('
  | .quaternion, x | .vector, x => x == '<'
  | .list, x => x == '['
  | .float, x => x.isDigit || x == '.'
  | .integer, x => x.isDigit
  | .string, x => x == '"'
  | .primary, x => startsPrimary x
  | .operand, x | .expression, x | .value, x | .condition, x => startsOperand x
  | .simpleStatement, x => startsOperand x || x == '@' || x == ';'
  | .statement, x | .body, x | .elseBranch, x => startsOperand x || x == '@' || x == ';' || x == '\x7b'
  | _, _ => true

def firstTable : FirstTable Rule where
  consumes r := !r.matchesNothing
  starts := starts
  gap := startsGap

private theorem isAlpha_of_first_words (texts : List String) {atomic : Bool} {x : Char}
    (htexts : texts.all (fun text => text.toList.head?.all Char.isAlpha) = true)
    (h : firstTable.first x atomic (words texts) = true) : x.isAlpha = true := by
  rw [FirstTable.first_words, List.any_eq_true] at h
  obtain ⟨text, hmem, hx⟩ := h
  have hhead := List.all_eq_true.1 htexts text hmem
  rw [beq_iff_eq.1 hx] at hhead
  exact hhead

theorem firstTable_fits : firstTable.Fits grammar where
  consuming r := by cases r <;> decide
  starts atomic r x := by
    cases r
    case keyword =>
      intro h
      simp only [grammar, isAtomic, pattern, cat, FirstTable.first, Bool.and_eq_true, Bool.or_true,
        Bool.not_true, Bool.false_and, Bool.or_false, Bool.and_false] at h
      exact isAlpha_of_first_words keywords (by decide) h.2
    case typeName =>
      intro h
      simp only [grammar, isAtomic, pattern, cat, FirstTable.first, Bool.and_eq_true, Bool.or_true,
        Bool.not_true, Bool.false_and, Bool.or_false, Bool.and_false] at h
      exact isAlpha_of_first_words typeNames (by decide) h.2
    case integer =>
      simp [grammar, isAtomic, pattern, cat, oneOf, plus, FirstTable.first, FirstTable.allows,
        Pattern.consumes, firstTable, starts, CharClass.contains]
      rintro (h | h)
      · rw [(toLower_eq_iff_eq rfl).1 h.symm]
        rfl
      · exact h
    all_goals
      simp [grammar, isAtomic, pattern, cat, oneOf, word, words, opt, plus, keyed, namePattern,
        nameStart, operationPattern, commaSeparated, FirstTable.first, FirstTable.allows,
        Pattern.consumes, firstTable, starts, matchesNothing, startsGap, startsModifier,
        startsPrimary, startsOperand, CharClass.contains, isNameStart, isNameChar]
    all_goals grind
  gap x := by
    simp [grammar, gap, cat, FirstTable.first, FirstTable.allows, firstTable, starts,
      Pattern.consumes, matchesNothing]

/-- A rule fails where none of its first characters comes next. -/
theorem fails_of_starts {r : Rule} (hr : r.matchesNothing = false) {atomic : Bool} {c : Cursor}
    (hc : ∀ x, c.rest.head? = some x → r.starts x = false) :
    Derives grammar atomic (.rule r) c none :=
  firstTable_fits.fails (by simp [firstTable, hr]) (exists_derives atomic r c) hc

theorem starts_of_derives {r : Rule} (hr : r.matchesNothing = false) {atomic : Bool}
    {c c' : Cursor} {ts : List (ParseTree Rule)}
    (h : Derives grammar atomic (.rule r) c (some (c', ts))) :
    ∃ x rest, c.rest = x :: rest ∧ r.starts x = true :=
  firstTable_fits.starts_of_derives (by simp [firstTable, hr]) h

end Lsl.Rule
