import Lsl.Convert
import Lsl.Grammar.Patterns
import Lsl.Syntax.Render
/-!
# Reading programs

From source text to the raw tree of a script and on to the script, with the parse error of a text
that the grammar does not accept.
-/

namespace Lsl

open Peg

instance : Vocabulary Rule where
  symbol := Rule.symbol

/-- The registry of the grammar's rules. The end of input is not one of them. -/
def Rule.registry : Registry Rule :=
  Registry.build Rule.defined

/-- A list of names in words: `A`, `A or B`, `A, B, or C`. -/
def enumerate : List String → String
  | [] => ""
  | [a] => a
  | [a, b] => a ++ " or " ++ b
  | names => String.intercalate ", " names.dropLast ++ ", or " ++ names.getLastD ""

/-- The names of rules in the order of the grammar, each once. -/
def Rule.enumerate (rules : List Rule) : String :=
  Lsl.enumerate ((Rule.all.filter rules.contains).map Rule.symbol)

namespace SourceText

/-- The line of a position, counted from 1. -/
def line (before : List Char) : Nat :=
  before.count '\n' + 1

/-- The characters of a position's line that stand before it. -/
def lineStart (before : List Char) : List Char :=
  (before.reverse.takeWhile (· ≠ '\n')).reverse

/-- The characters from a position to the end of its line, with the line feed. -/
def lineEnd (after : List Char) : List Char :=
  after.takeWhile (· ≠ '\n') ++ (after.dropWhile (· ≠ '\n')).take 1

/-- The line of a position as it is shown. Line end characters are left out, unless the position is
at one: then they are shown by marks. -/
def excerpt (before after : List Char) : String :=
  let line := lineStart before ++ lineEnd after
  String.ofList <|
    if after.head? = some '\r' ∨ after.head? = some '\n' then
      line.map fun c => if c = '\r' then '␍' else if c = '\n' then '␊' else c
    else line.filter fun c => c ≠ '\r' ∧ c ≠ '\n'

end SourceText

/-- The parse error that recorded attempts amount to. -/
def parseError (text : List Char) (attempts : Attempts Rule) : Error :=
  let before := text.take attempts.position
  let after := text.drop attempts.position
  let message :=
    match attempts.unexpected, attempts.expected with
    | [], [] => "unknown parsing error"
    | [], expected => "expected " ++ Rule.enumerate expected
    | unexpected, [] => "unexpected " ++ Rule.enumerate unexpected
    | unexpected, expected =>
      "unexpected " ++ Rule.enumerate unexpected ++ "; expected " ++ Rule.enumerate expected
  .parse (SourceText.line before) ((SourceText.lineStart before).length + 1)
    (SourceText.excerpt before after) message

/-- Matches a rule at the start of a text. The result is one tree for a rule that shows in the raw
tree, and any number for a silent one. -/
def parseRule (rule : Rule) (source : String) : Except Error (List (ParseTree Rule)) :=
  (grammar.parse rule source.toList).mapError (parseError source.toList)

/-- Leaves out the nodes for the end of input. -/
def dropEndOfInput : List (ParseTree Rule) → List (ParseTree Rule) :=
  ParseTree.prune (· = .endOfInput)

/-- The raw tree of a program. -/
def parseTree (source : String) : Except Error (ParseTree Rule) := do
  match dropEndOfInput (← parseRule .script source) with
  | tree :: _ => return tree
  | [] => throw (.notAScript "nothing")

/-- The script that a program stands for. -/
def parseScript (source : String) : Except Error Script := do
  match ← convertNode Rule.registry (← parseTree source) with
  | .script script => return script
  | other => throw (.notAScript other.kind.name)

end Lsl
