/-!
# Patterns

Parsing expressions over the rules of a grammar, as data.  A grammar gives each rule its pattern and
says how the rule shows in the tree; its gap is the text that may stand between the parts of a
sequence and between the rounds of a repetition.
-/

namespace Lsl.Peg

/-- The classes of characters that patterns test for. -/
inductive CharClass where
  | any
  | alpha
  | alphanumeric
  | digit
  | hexDigit
  deriving DecidableEq, Repr

/-- Whether a character belongs to a class. All classes but `any` hold ASCII characters only. -/
def CharClass.contains : CharClass → Char → Bool
  | any, _ => true
  | alpha, c => c.isAlpha
  | alphanumeric, c => c.isAlphanum
  | digit, c => c.isDigit
  | hexDigit, c => c.isDigit || ('a' ≤ c && c ≤ 'f') || ('A' ≤ c && c ≤ 'F')

/-- Parsing expressions that refer to the rules `ρ`. -/
inductive Pattern (ρ : Type) where
  /-- Exactly these characters. -/
  | lit (chars : List Char)
  /-- These characters, in either case of ASCII letters. -/
  | caseless (chars : List Char)
  | one (cls : CharClass)
  | startOfInput
  | endOfInput
  | rule (rule : ρ)
  /-- The first pattern, a gap, the second. -/
  | seq (first second : Pattern ρ)
  /-- The second pattern is tried only where the first fails. -/
  | alt (first second : Pattern ρ)
  /-- The pattern as often as possible, with gaps between. -/
  | star (pattern : Pattern ρ)
  /-- The later rounds of a repetition: a gap and the pattern, as often as possible. -/
  | more (pattern : Pattern ρ)
  /-- Matches nothing, where the pattern matches. -/
  | ahead (pattern : Pattern ρ)
  /-- Matches nothing, where the pattern fails. -/
  | notAhead (pattern : Pattern ρ)
  /-- Puts the text that the pattern matches on the stack. -/
  | push (pattern : Pattern ρ)
  /-- Puts these characters on the stack. -/
  | pushLit (chars : List Char)
  /-- Takes the top entry off the stack. -/
  | drop
  /-- The text of the top entry of the stack. -/
  | peek

namespace Pattern

variable {ρ : Type}

/-- Exactly this text. -/
def word (text : String) : Pattern ρ :=
  lit text.toList

/-- The patterns one after the other. -/
def cat : List (Pattern ρ) → Pattern ρ
  | [] => lit []
  | [p] => p
  | p :: ps => seq p (cat ps)

/-- The first of the patterns that matches. -/
def oneOf : List (Pattern ρ) → Pattern ρ
  | [] => notAhead (lit [])
  | [p] => p
  | p :: ps => alt p (oneOf ps)

/-- The pattern, or nothing. -/
def opt (p : Pattern ρ) : Pattern ρ :=
  alt p (lit [])

/-- The pattern once or more. The gap after the first round is kept even if no other round follows.
-/
def plus (p : Pattern ρ) : Pattern ρ :=
  seq p (star p)

/-- One of these texts. -/
def words (texts : List String) : Pattern ρ :=
  oneOf (texts.map word)

/-- The pattern, repeated with commas between, or nothing. -/
def commaSeparated (p : Pattern ρ) : Pattern ρ :=
  opt (seq p (star (seq (word ",") p)))

end Pattern

/-- A grammar over the rules `ρ`. -/
structure Grammar (ρ : Type) where
  /-- The pattern of a rule. -/
  pattern : ρ → Pattern ρ
  /-- Silent rules leave no node of their own in the tree, only those of the rules inside. -/
  isSilent : ρ → Bool
  /-- Inside an atomic rule nothing is skipped, and no rule leaves a node. -/
  isAtomic : ρ → Bool
  /-- What is skipped between the parts of a pattern outside atomic rules. -/
  gap : Pattern ρ

end Lsl.Peg
