import Lsl.Yaml.Glyph
/-!
# Block scalars

A block scalar is the lines below its header that are indented deep enough.  The header says whether
lines are folded, what becomes of the line ends behind the last line, and how deep the lines are
indented, unless the first of them is to show it.  Texts are collected last character first.
-/

namespace Lsl.Yaml

/-- What becomes of the line ends behind the last line. -/
inductive Chomping where
  | strip
  /-- The first one is kept. -/
  | clip
  | keep
  deriving DecidableEq, Repr

/-- The sign of a chomping, and what follows it. -/
def takeChomping : List Glyph → Option Chomping × List Glyph
  | ⟨'+', _⟩ :: rest => (some .keep, rest)
  | ⟨'-', _⟩ :: rest => (some .strip, rest)
  | rest => (none, rest)

/-- The number of columns by which lines are indented, and what follows it; it is not zero. -/
def takeIncrement? : List Glyph → Option (Option Nat × List Glyph)
  | [] => some (none, [])
  | g :: rest =>
    if g.char == '0' then none
    else if g.char.isDigit then some (some (g.char.toNat - '0'.toNat), rest)
    else some (none, g :: rest)

/-- Reads what a header says after its first mark, in either order, and skips the rest of its line.
-/
def readHeader? (gs : List Glyph) : Option (Chomping × Option Nat × List Glyph) := do
  let (before?, gs) := takeChomping gs
  let (increment?, gs) ← takeIncrement? gs
  let (after?, gs) := if before?.isNone then takeChomping gs else (none, gs)
  return ((before? <|> after?).getD .clip, increment?, ← skipLineEnd? gs)

/-- The deepest column that blanks reach in front of the first line and in the empty lines above it;
a tab there makes the scalar unreadable. -/
def deepestIndent? (deepest : Nat) : List Glyph → Option Nat
  | [] => some deepest
  | g :: rest =>
    if g.char == ' ' then deepestIndent? deepest rest
    else if g.char == '\t' then none
    else if isBreak g.char then deepestIndent? (max deepest g.place.column) rest
    else some (max deepest g.place.column)

/-- How the lines of a block scalar are read. -/
structure BlockLayout where
  folded : Bool
  chomping : Chomping
  /-- The column at which lines start. -/
  column : Nat

namespace BlockLayout

/-- The line ends between two lines, the first one and the further ones. They are folded unless one
of the lines starts with a blank. -/
def join (layout : BlockLayout) (first? : Option Char) (further : List Char) (indented : Bool) :
    List Char :=
  if layout.folded && first? == some '\n' && !indented then
    if further.isEmpty then [' '] else further
  else further ++ first?.toList

/-- The text with what is kept of the line ends behind its last line. -/
def finish (layout : BlockLayout) (text : List Char) (first? : Option Char) (further : List Char) :
    String :=
  String.ofList <| List.reverse <|
    match layout.chomping with
    | .strip => text
    | .clip => first?.toList ++ text
    | .keep => further ++ first?.toList ++ text

mutual

/-- Reads on in a line, which may start with a blank. -/
def readLine (layout : BlockLayout) (text : List Char) (indented : Bool) :
    List Glyph → Option (String × List Glyph)
  | [] => some (layout.finish text none [], [])
  | g :: rest =>
    if isBreak g.char then layout.readBreaks text indented (some g.char) [] rest
    else layout.readLine (g.char :: text) indented rest

/-- Reads on between two lines, of which the first may start with a blank. -/
def readBreaks (layout : BlockLayout) (text : List Char) (indented : Bool) (first? : Option Char)
    (further : List Char) : List Glyph → Option (String × List Glyph)
  | [] => some (layout.finish text first? further, [])
  | g :: rest =>
    if isBreak g.char then layout.readBreaks text indented first? (g.char :: further) rest
    else if g.place.column < layout.column && g.char == ' ' then
      layout.readBreaks text indented first? further rest
    else if g.place.column < layout.column && g.char == '\t' then none
    else if g.place.column == layout.column then
      let blank := isBlank g.char
      let between := layout.join first? further (indented || blank)
      layout.readLine (g.char :: (between ++ text)) blank rest
    else some (layout.finish text first? further, g :: rest)

end

end BlockLayout

/-- Reads a block scalar after its first mark, inside a collection whose parts start at the least
column: its text, and what follows it. -/
def readBlock? (folded : Bool) (leastColumn : Nat) (gs : List Glyph) :
    Option (String × List Glyph) := do
  let (chomping, increment?, gs) ← readHeader? gs
  let column ← match increment? with
    | some increment => some (leastColumn - 1 + increment)
    | none => (deepestIndent? 0 gs).map fun deepest => max deepest (max leastColumn 1)
  BlockLayout.readBreaks ⟨folded, chomping, column⟩ [] false none [] gs

end Lsl.Yaml
