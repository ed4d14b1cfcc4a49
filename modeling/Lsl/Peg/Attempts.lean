/-!
# Attempts

A record of the rules that were tried in vain at the furthest position reached, from which the
message of a parse error is made.  Matching never depends on it, and giving up an alternative never
takes anything out of it.
-/

namespace Lsl.Peg

/-- Whether matching is going on inside a lookahead, and of which sort. -/
inductive Lookahead where
  | none
  | positive
  | negative
  deriving DecidableEq, Repr

namespace Lookahead

/-- The sort inside a lookahead that wants its pattern to match. -/
def ahead : Lookahead → Lookahead
  | negative => negative
  | _ => positive

/-- The sort inside a lookahead that wants its pattern to fail. -/
def notAhead : Lookahead → Lookahead
  | negative => positive
  | _ => negative

end Lookahead

/-- The rules that failed, or that matched where they must not, at the furthest position so far. -/
structure Attempts (ρ : Type) where
  position : Nat
  expected : List ρ
  unexpected : List ρ

/-- The state of the record when a rule is entered. -/
structure Attempts.Mark where
  position : Nat
  expected : Nat
  unexpected : Nat

namespace Attempts

variable {ρ : Type}

/-- The record before anything was tried. -/
def initial : Attempts ρ :=
  ⟨0, [], []⟩

/-- The number of rules recorded for a position. -/
def countAt (attempts : Attempts ρ) (position : Nat) : Nat :=
  if attempts.position = position then attempts.expected.length + attempts.unexpected.length else 0

/-- Marks the record as a rule is entered at a position. -/
def mark (attempts : Attempts ρ) (position : Nat) : Mark :=
  if attempts.position = position then
    ⟨position, attempts.expected.length, attempts.unexpected.length⟩
  else ⟨position, 0, 0⟩

/-- Takes out what was recorded for the position of the mark since then. -/
def revert (attempts : Attempts ρ) (mark : Mark) : Attempts ρ :=
  if attempts.position = mark.position then
    { attempts with
      expected := attempts.expected.take mark.expected
      unexpected := attempts.unexpected.take mark.unexpected }
  else if attempts.position < mark.position then ⟨mark.position, [], []⟩
  else attempts

/-- Adds a rule to the record of a position. -/
def add (attempts : Attempts ρ) (position : Nat) (look : Lookahead) (rule : ρ) : Attempts ρ :=
  if attempts.position = position then
    match look with
    | .negative => { attempts with unexpected := attempts.unexpected ++ [rule] }
    | _ => { attempts with expected := attempts.expected ++ [rule] }
  else attempts

/-- Records a rule entered at the mark. It stands for all the rules tried inside it at the same
position, unless there was exactly one of them, which then says more than the rule itself. -/
def note (attempts : Attempts ρ) (mark : Mark) (look : Lookahead) (rule : ρ) : Attempts ρ :=
  if attempts.countAt mark.position = mark.expected + mark.unexpected + 1 then attempts
  else (attempts.revert mark).add mark.position look rule

end Attempts

end Lsl.Peg
