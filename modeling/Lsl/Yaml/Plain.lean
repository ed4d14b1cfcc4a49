import Lsl.Yaml.Gap
/-!
# Plain scalars

A scalar without quotes goes on over lines that are indented deeper than the collection it stands
in, up to a comment, a colon that ends a word, or, between brackets, any mark of a collection.
-/

namespace Lsl.Yaml

/-- Where a plain scalar stands. -/
structure PlainContext where
  /-- Whether it stands between brackets. -/
  inFlow : Bool
  /-- The least column of a further line. -/
  leastColumn : Nat

namespace PlainContext

/-- Whether a character may start a plain scalar that does not start with a dash, a question mark or
a colon. -/
def startsFreely (c : Char) : Bool :=
  !isBlank c && !isBreak c && !"-?:,[]\x7b\x7d#&*!|>\x27\x22%@\x60".toList.contains c

/-- Whether a plain scalar starts here. A dash, and outside of brackets a question mark or a colon,
may start one if no blank follows. -/
def starts (context : PlainContext) : List Glyph → Bool
  | [] => false
  | g :: rest =>
    startsFreely g.char || (g.char == '-' && !endsWord rest) ||
      (!context.inFlow && (g.char == '?' || g.char == ':') && !endsWord rest)

/-- Whether a scalar ends in front of a word, which a gap separates from it. -/
def endsBeforeWord (context : PlainContext) : List Glyph → Bool
  | [] => true
  | g :: rest =>
    (!context.inFlow && g.place.column < context.leastColumn) || startsMark (g :: rest) ||
      g.char == '#'

/-- Whether a scalar ends in front of a character, with or without a gap. -/
def endsBefore (context : PlainContext) : List Glyph → Bool
  | [] => true
  | g :: rest =>
    (g.char == ':' && endsWord rest) || (context.inFlow && ",[]\x7b\x7d".toList.contains g.char)

/-- Whether a colon stands in front of a mark of a collection, where nothing can be made of it. -/
def misplacedColon (context : PlainContext) : List Glyph → Bool
  | [] => false
  | g :: rest => context.inFlow && g.char == ':' && startsWith ",?[]\x7b\x7d" rest

/-- Reads a plain scalar: its text, whether line ends follow it, and what comes after these. -/
def read (context : PlainContext) (text : List Char) (gap : Gap) :
    List Glyph → Option (String × Bool × List Glyph)
  | [] => some (String.ofList text.reverse, gap.spansLines, [])
  | g :: rest =>
    if isBreak g.char then context.read text (gap.addBreak g.char) rest
    else if isBlank g.char then
      if gap.spansLines && g.char == '\t' && g.place.column < context.leastColumn then none
      else context.read text (gap.addBlank g.char) rest
    else if !gap.isEmpty && context.endsBeforeWord (g :: rest) then
      some (String.ofList text.reverse, gap.spansLines, g :: rest)
    else if context.misplacedColon (g :: rest) then none
    else if context.endsBefore (g :: rest) then
      some (String.ofList text.reverse, gap.spansLines, g :: rest)
    else context.read (g.char :: (gap.folded ++ text)) .empty rest

end PlainContext

end Lsl.Yaml
