import Lsl.Grammar.Patterns
import Lsl.Proofs.Peg.Calls
/-!
# Matching the grammar of scripts comes to an end

No rule of the grammar comes back to itself before a character is consumed: the ranks below fall on
every way down.  Hence the bound on the recursion that `Grammar.parse` computes is never too small.
-/

namespace Lsl.Rule

open Peg

/-- The rules that match some text or none. The other rules match at least one character. -/
def matchesNothing : Rule → Bool
  | .endOfInput | .script | .globals | .states | .events | .params | .precommands | .loopcommands
  | .arguments | .closingAngle => true
  | _ => false

/-- How deep the recursion can go below a rule before a character is consumed. -/
def rank : Rule → Nat
  | .endOfInput | .whitespace | .comment | .identChar | .float | .integer | .string => 5
  | .keyword | .typeName => 20
  | .type | .name | .ident | .member => 25
  | .operator | .closingAngle | .function | .param | .variable | .ifElse | .whileLoop | .doLoop
  | .forLoop | .jump | .label | .ret | .stateChange | .postMod | .cast | .call | .quaternion
  | .vector | .list | .exponent | .state => 30
  | .binaryOperator | .preMod | .globals | .states | .events | .params => 35
  | .primary | .script => 40
  | .operand => 45
  | .expression | .value | .condition => 50
  | .precommands | .loopcommands | .arguments => 55
  | .simpleStatement => 65
  | .body => 70
  | .statement | .elseBranch => 75

/-- The table that shows that matching ends. -/
def ranking : Ranking Rule where
  consumes r := !r.matchesNothing
  rank := rank
  gap := 10

theorem ranking_fits : ranking.Fits grammar 1024 where
  consuming r := by cases r <;> decide
  height_le atomic r := by cases atomic <;> cases r <;> decide
  bounds atomic r := by cases atomic <;> cases r <;> decide
  height_gap := by decide
  bounds_gap := by decide

/-- A rule matches or fails at every cursor. -/
theorem exists_derives (atomic : Bool) (r : Rule) (c : Cursor) :
    ∃ res, Derives grammar atomic (.rule r) c res :=
  Grammar.exists_derives ranking_fits atomic rfl c

/-- The bound on the depth that goes with the characters that remain is enough for every rule. -/
theorem outcome_ne_stuck (r : Rule) (atomic : Bool) {c : Cursor} {bound : Nat}
    (hbound : Grammar.depthBound c.rest.length ≤ bound) :
    grammar.outcome bound atomic (.rule r) c ≠ .stuck := by
  refine Grammar.outcome_ne_stuck ranking_fits rfl ?_
  have hrank : r.rank ≤ 75 := by cases r <;> decide
  have hheight : ranking.height atomic (.rule r) = r.rank + 1 := rfl
  rw [Grammar.depthBound] at hbound
  omega

theorem outcome_depthBound_ne_stuck (r : Rule) (text : List Char) :
    grammar.outcome (Grammar.depthBound text.length) false (.rule r) (.ofText text) ≠ .stuck :=
  outcome_ne_stuck r false (Nat.le_refl _)

end Lsl.Rule
