import Lsl.Yaml.Block
import Lsl.Yaml.Plain
import Lsl.Yaml.Tag
/-!
# Tokens of a document

Block collections show by their indentation alone, so tokens that open and close them are put in
where lines start deeper or less deep.  What may turn out to be a key is remembered until a colon
follows it: then the tokens of a key, and of a mapping that starts with it, go in front of it.  Such
a key ends on its line, within 1024 bytes.
-/

namespace Lsl.Yaml

inductive Token where
  | directive (directive : Directive)
  | documentStart
  | documentEnd
  | blockSequenceStart
  | blockMappingStart
  | blockEnd
  | flowSequenceStart
  | flowSequenceEnd
  | flowMappingStart
  | flowMappingEnd
  | blockEntry
  | flowEntry
  | key
  | value
  | alias (name : String)
  | anchor (name : String)
  | tag (name : TagName)
  | scalar (plain : Bool) (text : String)
  deriving DecidableEq, Repr

/-- What may turn out to be a key. -/
structure PossibleKey where
  /-- How many tokens stand in front of it. -/
  index : Nat
  place : Place
  /-- Whether it has to be one, because it starts where the keys of the mapping do. -/
  required : Bool

/-- How far a text is divided into tokens. -/
structure Scan where
  rest : List Glyph
  tokens : Array Token := #[]
  /-- The columns of the open block collections, innermost first. -/
  columns : List Nat := []
  /-- What may turn out to be a key in the innermost brackets. -/
  key? : Option PossibleKey := none
  /-- The same for the brackets around these, and outside of all brackets. -/
  outerKeys : List (Option PossibleKey) := []
  /-- Whether a key may start here. -/
  keyAllowed : Bool := true

namespace Scan

/-- Whether the scan is between brackets. -/
def inFlow (scan : Scan) : Bool :=
  !scan.outerKeys.isEmpty

/-- The least column inside the innermost block collection. -/
def leastColumn (scan : Scan) : Nat :=
  match scan.columns with
  | [] => 0
  | column :: _ => column + 1

/-- Adds a token, and goes on with what follows it. -/
def push (scan : Scan) (token : Token) (rest : List Glyph) : Scan :=
  { scan with tokens := scan.tokens.push token, rest }

def allowKey (scan : Scan) (keyAllowed : Bool) : Scan :=
  { scan with keyAllowed }

/-- Skips blanks, line ends and comments, of which one may have begun. Outside of brackets a key may
start on a new line, and no tab stands where a key may start. -/
def skipSpace (inFlow inComment keyAllowed : Bool) : List Glyph → Bool × List Glyph
  | [] => (keyAllowed, [])
  | g :: rest =>
    if isBreak g.char then skipSpace inFlow false (keyAllowed || !inFlow) rest
    else if inComment || g.char == ' ' || (g.char == '\t' && (inFlow || !keyAllowed)) then
      skipSpace inFlow inComment keyAllowed rest
    else if g.char == '#' then skipSpace inFlow true keyAllowed rest
    else (keyAllowed, g :: rest)

/-- Gives up a possible key, unless it has to be one. -/
def abandon : Option PossibleKey → Option (Option PossibleKey)
  | some key => if key.required then none else some none
  | none => some none

/-- Gives up a possible key whose line, or whose limit, lies in front of a place. -/
def expire (place : Place) : Option PossibleKey → Option (Option PossibleKey)
  | some key =>
    if key.place.line < place.line || key.place.offset + 1024 < place.offset then abandon (some key)
    else some (some key)
  | none => some none

/-- Gives up the possible key of the innermost brackets. -/
def abandonKey (scan : Scan) : Option Scan := do
  return { scan with key? := ← abandon scan.key? }

/-- Remembers that a key may start at a place, if one is allowed there. -/
def noteKey (scan : Scan) (place : Place) : Option Scan :=
  if scan.keyAllowed then do
    let scan ← scan.abandonKey
    let required := !scan.inFlow && scan.columns.head? == some place.column
    return { scan with key? := some ⟨scan.tokens.size, place, required⟩ }
  else some scan

/-- Closes the block collections that start at a column or deeper. -/
def closeFrom (scan : Scan) (column : Nat) : Scan :=
  if scan.inFlow then scan
  else
    let closed := scan.columns.takeWhile (column ≤ ·)
    { scan with
      tokens := scan.tokens ++ (closed.map fun _ => Token.blockEnd).toArray
      columns := scan.columns.dropWhile (column ≤ ·) }

/-- Opens a block collection at a column, with its token at an index, unless one that starts there
is open. -/
def openAt (scan : Scan) (column index : Nat) (token : Token) : Scan :=
  if !scan.inFlow && scan.columns.head?.all (· < column) then
    { scan with
      tokens := scan.tokens.insertIdxIfInBounds index token
      columns := column :: scan.columns }
  else scan

/-- Reads a mark that stands between documents, or a directive, where everything is closed. -/
def takeBetween (scan : Scan) (token : Token) (rest : List Glyph) : Option Scan := do
  let scan ← (scan.closeFrom 0).abandonKey
  return (scan.allowKey false).push token rest

/-- Reads an opening bracket. -/
def takeOpening (scan : Scan) (place : Place) (token : Token) (rest : List Glyph) :
    Option Scan := do
  let scan ← scan.noteKey place
  let scan := { scan with key? := none, outerKeys := scan.key? :: scan.outerKeys }
  return (scan.allowKey true).push token rest

/-- Reads a closing bracket, which closes nothing if no bracket is open. -/
def takeClosing (scan : Scan) (token : Token) (rest : List Glyph) : Option Scan := do
  let scan ← scan.abandonKey
  let scan := match scan.outerKeys with
    | [] => scan
    | key? :: outerKeys => { scan with key?, outerKeys }
  return (scan.allowKey false).push token rest

/-- Reads a comma between brackets. -/
def takeFlowEntry (scan : Scan) (rest : List Glyph) : Option Scan := do
  let scan ← scan.abandonKey
  return (scan.allowKey true).push .flowEntry rest

/-- Opens a block collection for an entry that starts at a place, where one is allowed to. -/
def openEntry (scan : Scan) (place : Place) (token : Token) : Option Scan :=
  if scan.inFlow then some scan
  else if scan.keyAllowed then some (scan.openAt place.column scan.tokens.size token)
  else none

/-- Reads the dash of a list item. -/
def takeBlockEntry (scan : Scan) (place : Place) (rest : List Glyph) : Option Scan := do
  let scan ← (← scan.openEntry place .blockSequenceStart).abandonKey
  return (scan.allowKey true).push .blockEntry rest

/-- Reads the question mark of a key. -/
def takeKey (scan : Scan) (place : Place) (rest : List Glyph) : Option Scan := do
  let scan ← (← scan.openEntry place .blockMappingStart).abandonKey
  return (scan.allowKey !scan.inFlow).push .key rest

/-- Reads the colon of a value, which makes a key of what may be one. -/
def takeValue (scan : Scan) (place : Place) (rest : List Glyph) : Option Scan :=
  match scan.key? with
  | some key =>
    let scan := { scan with tokens := scan.tokens.insertIdxIfInBounds key.index .key, key? := none }
    let scan := scan.openAt key.place.column key.index .blockMappingStart
    some ((scan.allowKey false).push .value rest)
  | none => do
    let scan ← scan.openEntry place .blockMappingStart
    return (scan.allowKey !scan.inFlow).push .value rest

/-- Reads a token that a key may start with. -/
def takePart (scan : Scan) (place : Place) (part? : Option (Token × List Glyph)) :
    Option Scan := do
  let scan ← scan.noteKey place
  let (token, rest) ← part?
  return (scan.allowKey false).push token rest

/-- Reads a block scalar. -/
def takeBlock (scan : Scan) (folded : Bool) (rest : List Glyph) : Option Scan := do
  let scan ← scan.abandonKey
  let (text, rest) ← readBlock? folded scan.leastColumn rest
  return (scan.allowKey true).push (.scalar false text) rest

/-- Reads a plain scalar. A key may start after it if it ends with its line. -/
def takePlain (scan : Scan) (place : Place) (gs : List Glyph) : Option Scan := do
  let scan ← scan.noteKey place
  let (text, atLineEnd, rest) ←
    PlainContext.read ⟨scan.inFlow, scan.leastColumn⟩ [] .empty gs
  return (scan.allowKey atLineEnd).push (.scalar true text) rest

/-- Reads the token that starts with a character. -/
def takeToken (scan : Scan) (g : Glyph) (rest : List Glyph) : Option Scan :=
  let mark := scan.inFlow || endsWord rest
  match afterMark? '-' (g :: rest), afterMark? '.' (g :: rest) with
  | some after, _ => scan.takeBetween .documentStart after
  | none, some after => scan.takeBetween .documentEnd after
  | none, none =>
    match g.char with
    | '[' => scan.takeOpening g.place .flowSequenceStart rest
    | '\x7b' => scan.takeOpening g.place .flowMappingStart rest
    | ']' => scan.takeClosing .flowSequenceEnd rest
    | '\x7d' => scan.takeClosing .flowMappingEnd rest
    | ',' => scan.takeFlowEntry rest
    | '*' => scan.takePart g.place ((readAnchor? rest).map fun (name, rest) => (.alias name, rest))
    | '&' => scan.takePart g.place ((readAnchor? rest).map fun (name, rest) => (.anchor name, rest))
    | '!' =>
      scan.takePart g.place ((readTag? scan.inFlow rest).map fun (tag, rest) => (.tag tag, rest))
    | '\x27' =>
      scan.takePart g.place
        ((readSingleQuoted [] .empty rest).map fun (text, rest) => (.scalar false text, rest))
    | '\x22' =>
      scan.takePart g.place
        ((readDoubleQuoted [] .empty rest).map fun (text, rest) => (.scalar false text, rest))
    | c =>
      if c == '%' && g.place.column == 0 then do
        let (directive, rest) ← readDirective? rest
        scan.takeBetween (.directive directive) rest
      else if c == '-' && endsWord rest then scan.takeBlockEntry g.place rest
      else if c == '?' && mark then scan.takeKey g.place rest
      else if c == ':' && mark then scan.takeValue g.place rest
      else if c == '|' && !scan.inFlow then scan.takeBlock false rest
      else if c == '>' && !scan.inFlow then scan.takeBlock true rest
      else if PlainContext.starts ⟨scan.inFlow, scan.leastColumn⟩ (g :: rest) then
        scan.takePlain g.place (g :: rest)
      else none

/-- Closes everything at the end of the text. -/
def finish (scan : Scan) : Option (List Token) := do
  return (← (scan.closeFrom 0).abandonKey).tokens.toList

/-- Gives up the possible keys that lie in front of a place, and closes the block collections that
start deeper. -/
def settle (scan : Scan) (place : Place) : Option Scan := do
  let key? ← expire place scan.key?
  let outerKeys ← scan.outerKeys.mapM (expire place)
  return { scan with key?, outerKeys }.closeFrom (place.column + 1)

/-- The tokens of a text, of which at most `limit` are left to read. -/
def run : Nat → Scan → Option (List Token)
  | 0, _ => none
  | limit + 1, scan =>
    match skipSpace scan.inFlow false scan.keyAllowed scan.rest with
    | (_, []) => scan.finish
    | (keyAllowed, g :: rest) => do
      let scan ← (scan.allowKey keyAllowed).settle g.place
      run limit (← scan.takeToken g rest)

end Scan

/-- The tokens of a text. Each takes up a character at least, which bounds how many are read. -/
def tokens? (text : String) : Option (List Token) := do
  let gs ← glyphs? text
  Scan.run (gs.length + 1) { rest := gs }

end Lsl.Yaml
