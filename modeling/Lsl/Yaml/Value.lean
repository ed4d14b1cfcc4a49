import Lsl.Yaml.Node
import Lsl.Yaml.Number
/-!
# Values of a document

Plain scalars are typed by their form, all others are text, unless a tag of the standard says which
type to take.  Other tags are not understood.  An alias stands for the node that was last given its
anchor.  Collections are nested at most 128 deep, and aliases are followed at most a hundred times
as often as the document has parts, counted at both ends of a collection.
-/

namespace Lsl.Yaml

/-- What a document says. -/
inductive Value where
  | null
  | bool (value : Bool)
  | int (value : Int)
  | float
  | text (value : String)
  | list (items : List Value)
  | mapping (entries : List (String × Value))

namespace Scalar

def isNull (text : String) : Bool :=
  ["~", "null", "Null", "NULL"].contains text

def toBool? (text : String) : Option Bool :=
  if ["true", "True", "TRUE"].contains text then some true
  else if ["false", "False", "FALSE"].contains text then some false
  else none

/-- The value of a plain text by its form. -/
def ofForm (text : String) : Value :=
  if text.isEmpty || isNull text then .null
  else
    match toBool? text, readInt? text with
    | some value, _ => .bool value
    | none, some value => .int value
    | none, none => if isFraction text && !isPadded text then .float else .text text

/-- The value of a scalar, if it fits its tag. -/
def value? (scalar : Scalar) : Option Value :=
  match scalar.tag? with
  | none => some (if scalar.plain then ofForm scalar.text else .text scalar.text)
  | some "tag:yaml.org,2002:null" => if isNull scalar.text then some .null else none
  | some "tag:yaml.org,2002:bool" => (toBool? scalar.text).map .bool
  | some "tag:yaml.org,2002:int" => (readInt? scalar.text).map .int
  | some "tag:yaml.org,2002:float" => if isFraction scalar.text then some .float else none
  | some tag => if tag.startsWith "!" then none else some (.text scalar.text)

end Scalar

/-- What an anchor was given to. -/
inductive Anchored where
  /-- A collection whose end is not reached. -/
  | unfinished
  | scalar (scalar : Scalar)
  /-- A collection, with its depth and with how often aliases are followed in it. -/
  | collection (value : Value) (depth follows : Nat)

/-- What is known while a document is read. -/
structure Reading where
  /-- What anchors were given to, latest first. -/
  anchors : List (String × Anchored) := []
  /-- How many parts were read. -/
  parts : Nat := 0
  /-- How often aliases were followed. -/
  follows : Nat := 0

/-- A step of reading, which may fail. -/
abbrev Read : Type → Type :=
  StateT Reading Option

/-- Adds to the number of parts. -/
def countParts (parts : Nat) : Read Unit :=
  modify fun reading => { reading with parts := reading.parts + parts }

/-- Gives an anchor, if there is one, to a node. -/
def giveAnchor (anchor? : Option String) (anchored : Anchored) : Read Unit :=
  match anchor? with
  | none => pure ()
  | some name =>
    modify fun reading => { reading with anchors := (name, anchored) :: reading.anchors }

/-- Follows an alias. -/
def followAlias (name : String) : Read Anchored := do
  countParts 1
  let anchored ← StateT.lift ((← get).anchors.lookup name)
  let inside := match anchored with
    | .collection _ _ follows => follows
    | _ => 0
  modify fun reading => { reading with follows := reading.follows + 1 + inside }
  return anchored

/-- Reads a scalar as it is written. -/
def readScalar (anchor? : Option String) (scalar : Scalar) : Read Scalar := do
  countParts 1
  giveAnchor anchor? (.scalar scalar)
  return scalar

/-- Reads a collection, which is given its anchor once it is complete. -/
def readCollection (anchor? tag? : Option String) (content : Read (Value × Nat)) :
    Read (Value × Nat) := do
  if tag?.any (·.startsWith "!") then failure
  countParts 2
  giveAnchor anchor? .unfinished
  let follows := (← get).follows
  let (value, depth) ← content
  giveAnchor anchor? (.collection value (depth + 1) ((← get).follows - follows))
  return (value, depth + 1)

/-- Reads a node that is the key of an entry, which is text of any form. -/
def Node.readKey : Node → Read String
  | .alias name => do
    match ← followAlias name with
    | .scalar written => return written.text
    | _ => failure
  | .scalar anchor? written => do return (← readScalar anchor? written).text
  | _ => failure

mutual

/-- Reads the value of a node, and how deep collections are nested in it, which is limited. -/
def Node.read (limit : Nat) : Node → Read (Value × Nat)
  | .alias name => do
    match ← followAlias name with
    | .unfinished => failure
    | .scalar written => return (← StateT.lift written.value?, 0)
    | .collection value depth _ => if depth ≤ limit then return (value, depth) else failure
  | .scalar anchor? written => do
    return (← StateT.lift (← readScalar anchor? written).value?, 0)
  | .sequence anchor? tag? items =>
    if limit = 0 then failure
    else readCollection anchor? tag? do
      let (items, depth) ← Node.readItems (limit - 1) items
      return (.list items, depth)
  | .mapping anchor? tag? entries =>
    if limit = 0 then failure
    else readCollection anchor? tag? do
      let (entries, depth) ← Node.readEntries (limit - 1) entries
      return (.mapping entries, depth)

/-- Reads the items of a list, and how deep collections are nested in them. -/
def Node.readItems (limit : Nat) : List Node → Read (List Value × Nat)
  | [] => return ([], 0)
  | item :: rest => do
    let (value, depth) ← Node.read limit item
    let (values, restDepth) ← Node.readItems limit rest
    return (value :: values, max depth restDepth)

/-- Reads the entries of a mapping, and how deep collections are nested in them. -/
def Node.readEntries (limit : Nat) : List (Node × Node) → Read (List (String × Value) × Nat)
  | [] => return ([], 0)
  | (key, value) :: rest => do
    let key ← key.readKey
    let (value, depth) ← Node.read limit value
    let (entries, restDepth) ← Node.readEntries limit rest
    return ((key, value) :: entries, max depth restDepth)

end

/-- How deep collections are nested at most. -/
def depthLimit : Nat := 128

/-- Reads the entries of a mapping that makes up a document. The tag of a whole document counts for
nothing. -/
def Node.readDocument (anchor? : Option String) (entries : List (Node × Node)) :
    Read (List (String × Value)) := do
  countParts 2
  giveAnchor anchor? .unfinished
  return (← Node.readEntries (depthLimit - 1) entries).1

/-- The entries of a text that holds a mapping, in order. A text without content has none. -/
def entries? (text : String) : Option (List (String × Value)) := do
  match ← document? text with
  | none => some []
  | some (.scalar _ scalar) => if scalar.plain && scalar.text.isEmpty then some [] else none
  | some (.mapping anchor? _ entries) =>
    let (entries, reading) ← (Node.readDocument anchor? entries).run {}
    if reading.follows ≤ 100 * reading.parts then some entries else none
  | some _ => none

end Lsl.Yaml
