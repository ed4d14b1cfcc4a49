/-!
# Characters of a document and their places

A document is read as a list of characters that know where they stand.  Line ends are made alike
beforehand: a carriage return, a line feed, both in this order, and a next-line character all become
one line feed, while the separators of lines and of paragraphs stay what they are.
-/

namespace Lsl.Yaml

/-- Where a character stands. -/
structure Place where
  /-- The bytes in front of it. -/
  offset : Nat := 0
  line : Nat := 0
  column : Nat := 0
  deriving DecidableEq, Repr

/-- A character with its place. -/
structure Glyph where
  char : Char
  place : Place
  deriving DecidableEq, Repr

def isBlank (c : Char) : Bool :=
  c == ' ' || c == '\t'

/-- Whether a line ends at the character, once line ends are made alike. -/
def isBreak (c : Char) : Bool :=
  c == '\n' || c == '\u2028' || c == '\u2029'

/-- Characters of names. -/
def isWord (c : Char) : Bool :=
  c.isAlphanum || c == '_' || c == '-'

/-- Characters that a document may hold: no control characters but tabs and line ends. -/
def isPermitted (c : Char) : Bool :=
  let code := c.toNat
  c == '\t' || c == '\n' || c == '\r' || (0x20 ≤ code && code ≤ 0x7E) || code == 0x85 ||
    (0xA0 ≤ code && code ≤ 0xFFFD) || 0x10000 ≤ code

/-- Whether nothing, a blank or a line end comes next. -/
def endsWord : List Glyph → Bool
  | [] => true
  | g :: _ => isBlank g.char || isBreak g.char

/-- Whether one of the characters comes next. -/
def startsWith (chars : String) : List Glyph → Bool
  | [] => false
  | g :: _ => chars.toList.contains g.char

/-- What follows a mark of three equal characters at the start of a line. -/
def afterMark? (c : Char) : List Glyph → Option (List Glyph)
  | g₁ :: g₂ :: g₃ :: rest =>
    if g₁.place.column == 0 && g₁.char == c && g₂.char == c && g₃.char == c && endsWord rest then
      some rest
    else none
  | _ => none

/-- Whether a line starts with a mark between documents. -/
def startsMark (gs : List Glyph) : Bool :=
  (afterMark? '-' gs).isSome || (afterMark? '.' gs).isSome

/-- What follows a comment and the blanks in front of it on the same line. -/
def skipComment (gs : List Glyph) : List Glyph :=
  match gs.dropWhile (isBlank ·.char) with
  | ⟨'#', _⟩ :: rest => rest.dropWhile (!isBreak ·.char)
  | rest => rest

/-- What follows the end of a line on which nothing but a comment is left. -/
def skipLineEnd? (gs : List Glyph) : Option (List Glyph) :=
  match skipComment gs with
  | [] => some []
  | g :: rest => if isBreak g.char then some rest else none

namespace Place

/-- The place after a line end of some bytes. -/
def nextLine (place : Place) (bytes : Nat) : Place :=
  { offset := place.offset + bytes, line := place.line + 1 }

/-- The place after a character of a line. -/
def next (place : Place) (c : Char) : Place :=
  { place with offset := place.offset + c.utf8Size, column := place.column + 1 }

end Place

/-- The characters from a place on, behind those that were read, which stand last first. -/
def placed (read : List Glyph) (place : Place) : List Char → List Glyph
  | [] => read.reverse
  | '\r' :: '\n' :: rest => placed (⟨'\n', place⟩ :: read) (place.nextLine 2) rest
  | c :: rest =>
    if c == '\r' || c == '\n' || c == '\u0085' then
      placed (⟨'\n', place⟩ :: read) (place.nextLine c.utf8Size) rest
    else if isBreak c then placed (⟨c, place⟩ :: read) (place.nextLine c.utf8Size) rest
    else placed (⟨c, place⟩ :: read) (place.next c) rest

/-- The characters of a document, unless it holds one that is not permitted. A byte order mark in
front takes up a place and counts for nothing else. -/
def glyphs? (text : String) : Option (List Glyph) :=
  if text.toList.all isPermitted then
    match placed [] {} text.toList with
    | ⟨'\ufeff', _⟩ :: rest => some rest
    | gs => some gs
  else none

end Lsl.Yaml
