import Lsl.Yaml.Glyph
/-!
# Gaps between words

A scalar that goes over several lines is folded: a single line end between two words stands for a
blank, of several line ends the first one is left out, and blanks around line ends are dropped.
Texts are collected last character first.
-/

namespace Lsl.Yaml

/-- What stands between two words of a scalar. -/
inductive Gap where
  /-- Blanks on one line, last first. -/
  | blanks (chars : List Char)
  /-- Line ends: the first one, unless it is escaped, and the further ones, last first. -/
  | breaks (first? : Option Char) (further : List Char)
  deriving DecidableEq, Repr

namespace Gap

/-- No gap. -/
def empty : Gap :=
  .blanks []

def isEmpty : Gap → Bool
  | .blanks chars => chars.isEmpty
  | .breaks _ _ => false

def spansLines : Gap → Bool
  | .blanks _ => false
  | .breaks _ _ => true

/-- The gap with another blank, which at the start of a line counts for nothing. -/
def addBlank (c : Char) : Gap → Gap
  | .blanks chars => .blanks (c :: chars)
  | gap => gap

/-- The gap with another line end, which makes blanks in front of it count for nothing. -/
def addBreak (c : Char) : Gap → Gap
  | .blanks _ => .breaks (some c) []
  | .breaks first? further => .breaks first? (c :: further)

/-- The text that a gap stands for, last character first. A line end that separates lines or
paragraphs is kept. -/
def folded : Gap → List Char
  | .blanks chars => chars
  | .breaks (some '\n') [] => [' ']
  | .breaks (some '\n') further => further
  | .breaks first? further => further ++ first?.toList

end Gap

end Lsl.Yaml
