import Lsl.Yaml.Quoted
/-!
# Anchors, tags and directives

An anchor names a node, and a tag names its kind.  A tag is written in full between angle brackets,
or as a handle, which a directive makes stand for the start of a name, and the rest of the name.
-/

namespace Lsl.Yaml

/-- Reads the name of an anchor after its mark. -/
def readAnchor? (gs : List Glyph) : Option (String × List Glyph) :=
  let name := (gs.takeWhile (isWord ·.char)).map Glyph.char
  let rest := gs.dropWhile (isWord ·.char)
  if !name.isEmpty && (endsWord rest || startsWith "?:,]\x7d%@\x60" rest) then
    some (String.ofList name, rest)
  else none

/-- A tag as it is written. -/
structure TagName where
  /-- Empty if the tag is written in full. -/
  handle : String
  suffix : String
  deriving DecidableEq, Repr

/-- Characters of a name that stand for themselves. Some stand there only in a name between angle
brackets or in a directive. -/
def isNameChar (enclosed : Bool) (c : Char) : Bool :=
  isWord c || ";/?:@&=+$.!~*\x27()".toList.contains c || (enclosed && ",[]".toList.contains c)

/-- How many octets follow the first octet of a character. -/
def octetsAfter? (octet : Nat) : Option Nat :=
  if octet < 0x80 then some 0
  else if octet < 0xC0 then none
  else if octet < 0xE0 then some 1
  else if octet < 0xF0 then some 2
  else if octet < 0xF8 then some 3
  else none

/-- Reads a name, in which a percent sign and two digits stand for an octet. Octets of one character
come in a row, and `awaited` more of them are due. -/
def readOctets (enclosed : Bool) (name : List Char) (awaited : Nat) :
    List Glyph → Option (List Char × List Glyph)
  | ⟨'%', _⟩ :: high :: low :: rest => do
    let octet := 16 * (← digit? 16 high.char) + (← digit? 16 low.char)
    let awaited ← match awaited with
      | 0 => octetsAfter? octet
      | due + 1 => if 0x80 ≤ octet ∧ octet < 0xC0 then some due else none
    readOctets enclosed (Char.ofNat octet :: name) awaited rest
  | g :: rest =>
    if awaited ≠ 0 ∨ g.char = '%' then none
    else if isNameChar enclosed g.char then readOctets enclosed (g.char :: name) 0 rest
    else some (name.reverse, g :: rest)
  | [] => if awaited = 0 then some (name.reverse, []) else none

/-- The text of a name, which a zero octet ends. -/
def nameOfOctets (octets : List Char) : String :=
  String.ofList (octets.takeWhile (· ≠ '\u0000'))

/-- Reads a name that is not empty. -/
def readName? (enclosed : Bool) (gs : List Glyph) : Option (String × List Glyph) := do
  let (octets, rest) ← readOctets enclosed [] 0 gs
  if octets.isEmpty then none else some (nameOfOctets octets, rest)

/-- Reads a tag after its first mark. A mark alone is a tag of its own. -/
def readTagName? : List Glyph → Option (TagName × List Glyph)
  | ⟨'<', _⟩ :: rest => do
    match ← readName? true rest with
    | (name, ⟨'>', _⟩ :: rest) => some (⟨"", name⟩, rest)
    | _ => none
  | gs => do
    let word := (gs.takeWhile (isWord ·.char)).map Glyph.char
    match gs.dropWhile (isWord ·.char) with
    | ⟨'!', _⟩ :: rest =>
      let (suffix, rest) ← readName? false rest
      some (⟨"!" ++ String.ofList word ++ "!", suffix⟩, rest)
    | rest =>
      let (octets, rest) ← readOctets false word.reverse 0 rest
      let suffix := nameOfOctets octets
      some (if suffix.isEmpty then ⟨"", "!"⟩ else ⟨"!", suffix⟩, rest)

/-- Reads a tag after its first mark, and makes sure that it ends there. -/
def readTag? (inFlow : Bool) (gs : List Glyph) : Option (TagName × List Glyph) := do
  let (tag, rest) ← readTagName? gs
  if endsWord rest || (inFlow && startsWith "," rest) then some (tag, rest) else none

/-- An instruction in front of a document. -/
inductive Directive where
  /-- The version of the format. -/
  | version (major minor : Nat)
  /-- The start of names that a handle stands for. -/
  | handle (handle start : String)
  deriving DecidableEq, Repr

/-- Reads a number of at most nine digits. -/
def readNumber? (gs : List Glyph) : Option (Nat × List Glyph) :=
  let digits := gs.takeWhile (·.char.isDigit)
  if digits.isEmpty || 9 < digits.length then none
  else
    some (digits.foldl (fun n g => 10 * n + (g.char.toNat - '0'.toNat)) 0,
      gs.dropWhile (·.char.isDigit))

/-- Reads what a version directive says. -/
def readVersion? (gs : List Glyph) : Option (Directive × List Glyph) := do
  let (major, rest) ← readNumber? (gs.dropWhile (isBlank ·.char))
  match rest with
  | ⟨'.', _⟩ :: rest =>
    let (minor, rest) ← readNumber? rest
    some (.version major minor, rest)
  | _ => none

/-- Reads a handle: a mark alone, or a word between two marks. -/
def readHandle? : List Glyph → Option (String × List Glyph)
  | ⟨'!', _⟩ :: gs =>
    let word := (gs.takeWhile (isWord ·.char)).map Glyph.char
    match gs.dropWhile (isWord ·.char) with
    | ⟨'!', _⟩ :: rest => some ("!" ++ String.ofList word ++ "!", rest)
    | rest => if word.isEmpty then some ("!", rest) else none
  | _ => none

/-- Reads what a handle directive says. -/
def readHandleDirective? (gs : List Glyph) : Option (Directive × List Glyph) := do
  let (handle, rest) ← readHandle? (gs.dropWhile (isBlank ·.char))
  if startsWith " \t" rest then
    let (start, rest) ← readName? true (rest.dropWhile (isBlank ·.char))
    if endsWord rest then some (.handle handle start, rest) else none
  else none

/-- Reads a directive after its mark, up to the end of its line. -/
def readDirective? (gs : List Glyph) : Option (Directive × List Glyph) := do
  let name := String.ofList ((gs.takeWhile (isWord ·.char)).map Glyph.char)
  let rest := gs.dropWhile (isWord ·.char)
  let (directive, rest) ←
    if endsWord rest then
      match name with
      | "YAML" => readVersion? rest
      | "TAG" => readHandleDirective? rest
      | _ => none
    else none
  return (directive, ← skipLineEnd? rest)

end Lsl.Yaml
