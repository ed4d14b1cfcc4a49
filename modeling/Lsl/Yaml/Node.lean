import Lsl.Yaml.Token
/-!
# Nodes of a document

The tree that the tokens of a document spell.  A part that is left out, such as the value of a key
without one, is an empty plain scalar.
-/

namespace Lsl.Yaml

/-- A scalar as it is written. -/
structure Scalar where
  tag? : Option String := none
  plain : Bool := true
  text : String := ""
  deriving DecidableEq, Repr

/-- A part of a document, with the anchor that names it. -/
inductive Node where
  | alias (name : String)
  | scalar (anchor? : Option String) (scalar : Scalar)
  | sequence (anchor? tag? : Option String) (items : List Node)
  | mapping (anchor? tag? : Option String) (entries : List (Node × Node))

/-- A part that is left out. -/
def Node.empty : Node :=
  .scalar none {}

/-- What handles stand for. -/
abbrev Handles : Type :=
  List (String × String)

/-- What handles stand for if no directive says otherwise. -/
def Handles.standard : Handles :=
  [("!", "!"), ("!!", "tag:yaml.org,2002:")]

/-- The full name of a tag, if its handle is known. -/
def TagName.expand? (tag : TagName) (handles : Handles) : Option String :=
  if tag.handle.isEmpty then some tag.suffix
  else (handles.lookup tag.handle).map (· ++ tag.suffix)

/-- What stands in front of a node. -/
structure Properties where
  anchor? : Option String := none
  tag? : Option String := none

namespace Properties

def isEmpty (properties : Properties) : Bool :=
  properties.anchor?.isNone && properties.tag?.isNone

/-- Reads an anchor and a tag, in either order. -/
def read? (handles : Handles) : List Token → Option (Properties × List Token)
  | .anchor name :: .tag tag :: rest | .tag tag :: .anchor name :: rest => do
    return (⟨some name, ← tag.expand? handles⟩, rest)
  | .anchor name :: rest => some ({ anchor? := some name }, rest)
  | .tag tag :: rest => do return ({ tag? := ← tag.expand? handles }, rest)
  | rest => some ({}, rest)

/-- A scalar with these properties. The mark of a tag alone says nothing about it. -/
def scalar (properties : Properties) (plain : Bool) (text : String) : Node :=
  let tag? := properties.tag?.filter (· != "!")
  .scalar properties.anchor? { tag?, plain, text }

end Properties

/-- Where a node stands. -/
inductive Site where
  | block
  /-- A key or a value of a block mapping, where list items need not be indented. -/
  | entry
  | flow
  deriving DecidableEq, Repr

/-- Whether the next token is one of these. -/
def comesNext (tokens : List Token) : List Token → Bool
  | [] => false
  | token :: _ => tokens.contains token

mutual

/-- Reads a node, which has at least one token. -/
def readNode (handles : Handles) (site : Site) : Nat → List Token → Option (Node × List Token)
  | 0, _ => none
  | _ + 1, .alias name :: rest => some (.alias name, rest)
  | limit + 1, tokens => do
    let (properties, tokens) ← Properties.read? handles tokens
    let ⟨anchor?, tag?⟩ := properties
    match tokens with
    | .scalar plain text :: rest => some (properties.scalar plain text, rest)
    | .flowSequenceStart :: rest =>
      let (items, rest) ← readFlowItems handles true limit rest
      some (.sequence anchor? tag? items, rest)
    | .flowMappingStart :: rest =>
      let (entries, rest) ← readFlowEntries handles true limit rest
      some (.mapping anchor? tag? entries, rest)
    | tokens =>
      match tokens, site with
      | .blockEntry :: _, .entry =>
        let (items, rest) ← readLooseItems handles limit tokens
        some (.sequence anchor? tag? items, rest)
      | .blockSequenceStart :: rest, .block | .blockSequenceStart :: rest, .entry =>
        let (items, rest) ← readItems handles limit rest
        some (.sequence anchor? tag? items, rest)
      | .blockMappingStart :: rest, .block | .blockMappingStart :: rest, .entry =>
        let (entries, rest) ← readEntries handles limit rest
        some (.mapping anchor? tag? entries, rest)
      | tokens, _ =>
        if properties.isEmpty then none else some (.scalar anchor? { tag? }, tokens)

/-- Reads a node, or nothing in front of one of the tokens that may follow it. -/
def readPart (handles : Handles) (site : Site) (followers : List Token) :
    Nat → List Token → Option (Node × List Token)
  | 0, _ => none
  | limit + 1, tokens =>
    if comesNext followers tokens then some (.empty, tokens)
    else readNode handles site limit tokens

/-- Reads the items of a list up to its end. -/
def readItems (handles : Handles) : Nat → List Token → Option (List Node × List Token)
  | 0, _ => none
  | limit + 1, .blockEntry :: rest => do
    let (item, rest) ← readPart handles .block [.blockEntry, .blockEnd] limit rest
    let (items, rest) ← readItems handles limit rest
    return (item :: items, rest)
  | _ + 1, .blockEnd :: rest => some ([], rest)
  | _ + 1, _ => none

/-- Reads the items of a list that is not indented, and so ends with its last item. -/
def readLooseItems (handles : Handles) : Nat → List Token → Option (List Node × List Token)
  | 0, _ => none
  | limit + 1, .blockEntry :: rest => do
    let (item, rest) ← readPart handles .block [.blockEntry, .key, .value, .blockEnd] limit rest
    let (items, rest) ← readLooseItems handles limit rest
    return (item :: items, rest)
  | _ + 1, rest => some ([], rest)

/-- Reads the entries of a block mapping up to its end. -/
def readEntries (handles : Handles) : Nat → List Token → Option (List (Node × Node) × List Token)
  | 0, _ => none
  | limit + 1, .key :: rest => do
    let (key, rest) ← readPart handles .entry [.key, .value, .blockEnd] limit rest
    let (value, rest) ← readValue handles .entry [.key, .value, .blockEnd] limit rest
    let (entries, rest) ← readEntries handles limit rest
    return ((key, value) :: entries, rest)
  | _ + 1, .blockEnd :: rest => some ([], rest)
  | _ + 1, _ => none

/-- Reads a value after its mark, or nothing where there is no mark. -/
def readValue (handles : Handles) (site : Site) (followers : List Token) :
    Nat → List Token → Option (Node × List Token)
  | 0, _ => none
  | limit + 1, .value :: rest => readPart handles site followers limit rest
  | _ + 1, rest => some (.empty, rest)

/-- Reads the items of a list between brackets. An item may be a mapping of one entry. -/
def readFlowItems (handles : Handles) (first : Bool) :
    Nat → List Token → Option (List Node × List Token)
  | 0, _ => none
  | _ + 1, .flowSequenceEnd :: rest => some ([], rest)
  | limit + 1, tokens => do
    let tokens ← match first, tokens with
      | true, tokens | false, .flowEntry :: tokens => some tokens
      | _, _ => none
    match tokens with
    | .flowSequenceEnd :: rest => some ([], rest)
    | .key :: rest =>
      let (entry, rest) ← readFlowPair handles limit rest
      let (items, rest) ← readFlowItems handles false limit rest
      return (.mapping none none [entry] :: items, rest)
    | tokens =>
      let (item, rest) ← readNode handles .flow limit tokens
      let (items, rest) ← readFlowItems handles false limit rest
      return (item :: items, rest)

/-- Reads an entry that stands in a list, after the mark of its key. A key that is left out takes up
the token behind it. -/
def readFlowPair (handles : Handles) : Nat → List Token → Option ((Node × Node) × List Token)
  | 0, _ => none
  | limit + 1, tokens => do
    let (key, rest) ← match tokens with
      | .value :: rest | .flowEntry :: rest | .flowSequenceEnd :: rest => some (.empty, rest)
      | tokens => readNode handles .flow limit tokens
    let (value, rest) ← readValue handles .flow [.flowEntry, .flowSequenceEnd] limit rest
    return ((key, value), rest)

/-- Reads the entries of a mapping between brackets. A node alone is a key. -/
def readFlowEntries (handles : Handles) (first : Bool) :
    Nat → List Token → Option (List (Node × Node) × List Token)
  | 0, _ => none
  | _ + 1, .flowMappingEnd :: rest => some ([], rest)
  | limit + 1, tokens => do
    let tokens ← match first, tokens with
      | true, tokens | false, .flowEntry :: tokens => some tokens
      | _, _ => none
    match tokens with
    | .flowMappingEnd :: rest => some ([], rest)
    | .key :: rest =>
      let (key, rest) ←
        readPart handles .flow [.value, .flowEntry, .flowMappingEnd] limit rest
      let (value, rest) ← readValue handles .flow [.flowEntry, .flowMappingEnd] limit rest
      let (entries, rest) ← readFlowEntries handles false limit rest
      return ((key, value) :: entries, rest)
    | tokens =>
      let (key, rest) ← readNode handles .flow limit tokens
      let (entries, rest) ← readFlowEntries handles false limit rest
      return ((key, .empty) :: entries, rest)

end

/-- Reads the directives in front of a document. No handle is given twice, and the version, which is
given at most once, is one that is understood. -/
def readDirectives (versioned : Bool) (handles : Handles) :
    List Token → Option (Handles × List Token)
  | .directive (.version major minor) :: rest =>
    if !versioned && major == 1 && (minor == 1 || minor == 2) then
      readDirectives true handles rest
    else none
  | .directive (.handle handle start) :: rest =>
    if (handles.lookup handle).isNone then
      readDirectives versioned ((handle, start) :: handles) rest
    else none
  | rest => some (handles ++ Handles.standard, rest)

/-- Whether the content of a document is left out. -/
def lacksContent : List Token → Bool
  | [] | .directive _ :: _ | .documentStart :: _ | .documentEnd :: _ => true
  | _ => false

/-- Reads the first document: the marks in front of it and its content. -/
def readDocument? (tokens : List Token) : Option (Node × List Token) :=
  let limit := 3 * tokens.length + 3
  match tokens with
  | .directive _ :: _ | .documentStart :: _ => do
    match ← readDirectives false [] tokens with
    | (handles, .documentStart :: rest) =>
      if lacksContent rest then some (.empty, rest) else readNode handles .block limit rest
    | _ => none
  | tokens => readNode Handles.standard .block limit tokens

/-- The content of a text that holds one document, or none. -/
def document? (text : String) : Option (Option Node) := do
  match ← tokens? text with
  | [] => some none
  | tokens =>
    let (node, rest) ← readDocument? tokens
    if rest.all (· == .documentEnd) then some (some node) else none

end Lsl.Yaml
