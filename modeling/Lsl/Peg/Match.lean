import Lsl.Peg.Attempts
import Lsl.Peg.Pattern
import Lsl.Peg.ParseTree
/-!
# Matching

Runs a grammar on a text.  Choice is ordered, repetition is greedy, and a failure leaves cursor and
stack as they were, since both are values.  `Grammar.run` is given a bound on the depth of its
recursion, and `Grammar.parse` computes one from the length of the text.
-/

namespace Lsl.Peg

/-- A position in the text, what remains from there on, and the stack of texts, top first. -/
structure Cursor where
  position : Nat
  rest : List Char
  stack : List (List Char)
  deriving DecidableEq, Repr

namespace Cursor

/-- The cursor at the start of a text. -/
def ofText (text : List Char) : Cursor :=
  ⟨0, text, []⟩

/-- The cursor `count` characters further on. -/
def advance (cursor : Cursor) (count : Nat) : Cursor :=
  ⟨cursor.position + count, cursor.rest.drop count, cursor.stack⟩

/-- Steps over exactly these characters. -/
def accept? (cursor : Cursor) (chars : List Char) : Option Cursor :=
  if chars.isPrefixOf cursor.rest then some (cursor.advance chars.length) else none

/-- Steps over these characters in either case of ASCII letters. -/
def acceptCaseless? (cursor : Cursor) (chars : List Char) : Option Cursor :=
  if (cursor.rest.take chars.length).map Char.toLower = chars.map Char.toLower then
    some (cursor.advance chars.length)
  else none

/-- Steps over one character of a class. -/
def acceptOne? (cursor : Cursor) (cls : CharClass) : Option Cursor :=
  match cursor.rest with
  | c :: _ => if cls.contains c then some (cursor.advance 1) else none
  | [] => none

/-- The text between this cursor and a later one. -/
def textTo (cursor later : Cursor) : List Char :=
  cursor.rest.take (later.position - cursor.position)

/-- Steps over the text of the top entry of the stack. -/
def acceptTop? (cursor : Cursor) : Option Cursor :=
  match cursor.stack with
  | top :: _ => cursor.accept? top
  | [] => none

/-- Takes the top entry off the stack. -/
def pop? (cursor : Cursor) : Option Cursor :=
  match cursor.stack with
  | _ :: below => some { cursor with stack := below }
  | [] => none

/-- Puts an entry on the stack. -/
def pushed (cursor : Cursor) (entry : List Char) : Cursor :=
  { cursor with stack := entry :: cursor.stack }

end Cursor

/-- What matching a pattern comes to. `stuck` means that the bound on the recursion was too small.
-/
inductive Outcome (ρ : Type) where
  | ok (cursor : Cursor) (trees : List (ParseTree ρ))
  | fail
  | stuck

/-- The surroundings of a match: whether it is inside an atomic rule, and inside which lookahead. -/
structure Context where
  atomic : Bool
  look : Lookahead

/-- An outcome with the attempts recorded up to it. -/
abbrev Run (ρ : Type) : Type :=
  Outcome ρ × Attempts ρ

namespace Run

variable {ρ : Type}

/-- The outcome of a step that matches without yielding nodes, or fails. -/
def ofStep (attempts : Attempts ρ) : Option Cursor → Run ρ
  | some cursor => (.ok cursor [], attempts)
  | none => (.fail, attempts)

/-- Goes on from a match; a failure stays one. -/
def andThen (run : Run ρ) (next : Cursor → List (ParseTree ρ) → Attempts ρ → Run ρ) : Run ρ :=
  match run with
  | (.ok cursor trees, attempts) => next cursor trees attempts
  | (.fail, attempts) => (.fail, attempts)
  | (.stuck, attempts) => (.stuck, attempts)

/-- Goes on from a failure; a match stays one. -/
def orElse (run : Run ρ) (next : Attempts ρ → Run ρ) : Run ρ :=
  match run with
  | (.ok cursor trees, attempts) => (.ok cursor trees, attempts)
  | (.fail, attempts) => next attempts
  | (.stuck, attempts) => (.stuck, attempts)

/-- A failure becomes a match of nothing at `start`, and a match becomes a failure. -/
def invert (run : Run ρ) (start : Cursor) : Run ρ :=
  match run with
  | (.ok _ _, attempts) => (.fail, attempts)
  | (.fail, attempts) => (.ok start [], attempts)
  | (.stuck, attempts) => (.stuck, attempts)

/-- A match that yields the given nodes before its own. -/
def prepend (trees : List (ParseTree ρ)) (run : Run ρ) : Run ρ :=
  run.andThen fun cursor more attempts => (.ok cursor (trees ++ more), attempts)

end Run

namespace Grammar

variable {ρ : Type}

/-- Closes the match of a rule that shows in the tree: its node takes the place of those inside it,
and the record of attempts learns of a failure, or of a match where one is not wanted. -/
def closeRule (ctx : Context) (rule : ρ) (start : Cursor) (mark : Attempts.Mark) : Run ρ → Run ρ
  | (.ok cursor trees, attempts) =>
    if ctx.atomic then (.ok cursor [], attempts)
    else
      (.ok cursor [⟨rule, String.ofList (start.textTo cursor), trees⟩],
        if ctx.look = .negative then attempts.note mark ctx.look rule else attempts)
  | (.fail, attempts) =>
    (.fail,
      if ctx.atomic || ctx.look = .negative then attempts else attempts.note mark ctx.look rule)
  | (.stuck, attempts) => (.stuck, attempts)

/-- Matches a pattern at a cursor, with a bound on the depth of the recursion. -/
def run (g : Grammar ρ) : Nat → Context → Pattern ρ → Cursor → Attempts ρ → Run ρ
  | 0, _, _, _, attempts => (.stuck, attempts)
  | bound + 1, ctx, pattern, start, attempts =>
    let skip (cursor : Cursor) (attempts : Attempts ρ) : Run ρ :=
      if ctx.atomic then (.ok cursor [], attempts)
      else g.run bound { ctx with atomic := true } g.gap cursor attempts
    match pattern with
    | .lit chars => .ofStep attempts (start.accept? chars)
    | .caseless chars => .ofStep attempts (start.acceptCaseless? chars)
    | .one cls => .ofStep attempts (start.acceptOne? cls)
    | .startOfInput => .ofStep attempts (if start.position = 0 then some start else none)
    | .endOfInput => .ofStep attempts (if start.rest.isEmpty then some start else none)
    | .rule r =>
      let inner := { ctx with atomic := ctx.atomic || g.isAtomic r }
      let run := g.run bound inner (g.pattern r) start attempts
      if g.isSilent r then run else closeRule ctx r start (attempts.mark start.position) run
    | .seq first second =>
      (g.run bound ctx first start attempts).andThen fun cursor trees attempts =>
        (skip cursor attempts).andThen fun cursor _ attempts =>
          (g.run bound ctx second cursor attempts).prepend trees
    | .alt first second =>
      (g.run bound ctx first start attempts).orElse fun attempts =>
        g.run bound ctx second start attempts
    | .star p =>
      ((g.run bound ctx p start attempts).andThen fun cursor trees attempts =>
        (g.run bound ctx (.more p) cursor attempts).prepend trees).orElse fun attempts =>
          (.ok start [], attempts)
    | .more p =>
      (((skip start attempts).andThen fun cursor _ attempts =>
        g.run bound ctx p cursor attempts).andThen fun cursor trees attempts =>
          (g.run bound ctx (.more p) cursor attempts).prepend trees).orElse fun attempts =>
            (.ok start [], attempts)
    | .ahead p =>
      (g.run bound { ctx with look := ctx.look.ahead } p start attempts).andThen
        fun _ _ attempts => (.ok start [], attempts)
    | .notAhead p =>
      (g.run bound { ctx with look := ctx.look.notAhead } p start attempts).invert start
    | .push p =>
      (g.run bound ctx p start attempts).andThen fun cursor trees attempts =>
        (.ok (cursor.pushed (start.textTo cursor)) trees, attempts)
    | .pushLit chars => (.ok (start.pushed chars) [], attempts)
    | .drop => .ofStep attempts start.pop?
    | .peek => .ofStep attempts start.acceptTop?

/-- A bound on the depth of the recursion that suffices for a text of this length, provided that the
grammar comes to consume a character within 1024 steps down. -/
def depthBound (length : Nat) : Nat :=
  1024 * (length + 1)

/-- Matches a rule at the start of a text: the nodes it yields, or the attempts of a failure. -/
def parse (g : Grammar ρ) (rule : ρ) (text : List Char) :
    Except (Attempts ρ) (List (ParseTree ρ)) :=
  match g.run (depthBound text.length) ⟨false, .none⟩ (.rule rule) (.ofText text) .initial with
  | (.ok _ trees, _) => .ok trees
  | (_, attempts) => .error attempts

end Grammar

end Lsl.Peg
