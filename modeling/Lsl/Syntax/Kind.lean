/-!
# Kinds of syntax nodes

The closed list of node kinds, with the fields that each kind declares.  Conversion and editing
address a node's parts by these field names.
-/

namespace Lsl

/-- The kinds of syntax nodes. -/
inductive Kind where
  | script
  | function
  | variable
  | param
  | type
  | state
  | stateChange
  | jump
  | label
  | ret
  | call
  | cast
  | body
  | ifElse
  | whileLoop
  | doLoop
  | forLoop
  | list
  | vector
  | quaternion
  | value
  | expression
  | condition
  | preMod
  | postMod
  deriving DecidableEq, Repr

namespace Kind

/-- Every kind once, in the order of declaration. -/
def all : List Kind :=
  [.script, .function, .variable, .param, .type, .state, .stateChange, .jump, .label, .ret, .call,
    .cast, .body, .ifElse, .whileLoop, .doLoop, .forLoop, .list, .vector, .quaternion, .value,
    .expression, .condition, .preMod, .postMod]

/-- The name that a kind is shown and looked up by. -/
def name : Kind → String
  | .script => "Script"
  | .function => "Function"
  | .variable => "Variable"
  | .param => "Param"
  | .type => "Type"
  | .state => "State"
  | .stateChange => "StateChange"
  | .jump => "Jump"
  | .label => "Label"
  | .ret => "Return"
  | .call => "Call"
  | .cast => "Cast"
  | .body => "Body"
  | .ifElse => "If"
  | .whileLoop => "While"
  | .doLoop => "Do"
  | .forLoop => "For"
  | .list => "List"
  | .vector => "Vector"
  | .quaternion => "Quaternion"
  | .value => "Value"
  | .expression => "Expression"
  | .condition => "Condition"
  | .preMod => "PreMod"
  | .postMod => "PostMod"

/-- The kind with exactly this name. -/
def ofName? (name : String) : Option Kind :=
  all.find? (·.name = name)

/-- Kinds that hold an operation. -/
def isExpression : Kind → Bool
  | .value | .expression | .condition => true
  | _ => false

end Kind

/-- Whether a field holds one element or a list of them. -/
inductive Shape where
  | single
  | list
  deriving DecidableEq, Repr

/-- A declared field of a kind. -/
structure Field where
  name : String
  shape : Shape
  deriving DecidableEq, Repr

namespace Kind

/-- The fields of a kind, in declared order. -/
def fields : Kind → List Field
  | .script => [⟨"globals", .list⟩, ⟨"states", .list⟩]
  | .function => [⟨"type", .single⟩, ⟨"name", .single⟩, ⟨"params", .list⟩, ⟨"body", .single⟩]
  | .variable => [⟨"type", .single⟩, ⟨"name", .single⟩, ⟨"value", .single⟩]
  | .param => [⟨"type", .single⟩, ⟨"name", .single⟩]
  | .type | .stateChange | .jump | .label | .ret => [⟨"value", .single⟩]
  | .state => [⟨"name", .single⟩, ⟨"events", .list⟩]
  | .call => [⟨"name", .single⟩, ⟨"arguments", .list⟩]
  | .cast => [⟨"type", .single⟩, ⟨"value", .single⟩]
  | .body | .list | .vector | .quaternion => []
  | .ifElse => [⟨"condition", .single⟩, ⟨"body", .single⟩, ⟨"else", .single⟩]
  | .whileLoop | .doLoop => [⟨"condition", .single⟩, ⟨"body", .single⟩]
  | .forLoop =>
    [⟨"precommands", .list⟩, ⟨"condition", .single⟩, ⟨"loopcommands", .list⟩, ⟨"body", .single⟩]
  | .value | .expression | .condition =>
    [⟨"left", .single⟩, ⟨"center", .single⟩, ⟨"right", .single⟩]
  | .preMod | .postMod => [⟨"operator", .single⟩, ⟨"value", .single⟩]

/-- Whether the kind declares a field of this name and shape. -/
def hasField (kind : Kind) (name : String) (shape : Shape) : Bool :=
  kind.fields.contains ⟨name, shape⟩

/-- Whether a name is that of several things. -/
def isPlural (name : String) : Bool :=
  name.toList.getLast? == some 's'

/-- The fields that hold lists all have plural names, so the name need not be looked at. -/
theorem isPlural_and_hasField (kind : Kind) (name : String) :
    (isPlural name && kind.hasField name .list) = kind.hasField name .list := by
  have hplural : ∀ field ∈ kind.fields, field.shape = .list → isPlural field.name = true := by
    cases kind <;> decide
  cases hfield : kind.hasField name .list with
  | false => exact Bool.and_false _
  | true => rw [hplural _ (List.contains_iff_mem.1 hfield) rfl, Bool.and_true]

/-- Kinds that take the children for which they declare no field as one list. -/
def acceptsOverflow : Kind → Bool
  | .body | .list | .vector | .quaternion | .value | .expression | .condition => true
  | _ => false

end Kind

end Lsl
