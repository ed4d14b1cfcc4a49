import Lsl.Syntax.Kind
/-!
# What can go wrong

Everything that can go wrong between source text and a typed tree, and when a tree is edited; and
what an edit in place leaves when it goes wrong.
-/

namespace Lsl

/-- The causes of failure. -/
inductive Error where
  /-- The source text does not follow the grammar. -/
  | parse (line column : Nat) (context message : String)
  /-- A token without a kind has more than one child, or a token that had to be a node is a leaf. -/
  | malformedTree (token : String) (children : Nat) (text : String)
  /-- A kind without an overflow list was given children for which it has no field. -/
  | discardedSubtree (kind : Kind) (count : Nat) (text : String)
  | unknownType (name : String)
  | emptyExpression
  /-- Several elements stand side by side with no operator among them. -/
  | partialExpression (elements : String)
  | wrongArity (kind : Kind) (expected found : Nat)
  /-- A declared field cannot hold what it was given. -/
  | fieldMismatch (kind : Kind) (field : String) (found : String)
  /-- The kind declares no such field of this shape. -/
  | noSuchField (kind : Kind) (field : String) (count : Nat)
  | indexOutOfBounds (index length : Nat)
  | notAScript (found : String)
  deriving DecidableEq, Repr

namespace Error

/-- The wording of a failure. -/
def message : Error → String
  | parse line column context message =>
    s!"Failure to parse program @ {line}/{column}: {message}\n  {context}"
  | malformedTree token children text =>
    s!"Collection of {children} child nodes inside unknown node {token}: `{text}`"
  | discardedSubtree kind count text =>
    s!"{kind.name} does not accept a values list; would discard {count} converted nodes: `{text}`"
  | unknownType name => s!"Unknown type: {name}"
  | emptyExpression => "Empty expression (grammar gap)"
  | partialExpression elements => s!"Partial expression (grammar gap): {elements}"
  | wrongArity kind expected found =>
    s!"{kind.name} needs exactly {expected} components, got {found}"
  | fieldMismatch kind field found => s!"Field `{field}` of {kind.name} cannot hold {found}"
  | noSuchField kind field count =>
    s!"Field `{field}` of {kind.name} cannot hold {count} value(s); no such field"
  | indexOutOfBounds index length =>
    s!"Cannot insert at position {index} of a body with {length} statements"
  | notAScript found => s!"Program did not convert to a script, got {found}"

end Error

/-- What succeeds in two stages succeeds in the first and then in the second. -/
theorem exists_of_bind_eq_ok {ε α β : Type} {x : Except ε α} {f : α → Except ε β} {b : β}
    (h : (x >>= f) = .ok b) : ∃ a, x = .ok a ∧ f a = .ok b := by
  cases x with
  | error e => cases h
  | ok a => exact ⟨a, rfl, h⟩

/-! ## Operations in place -/

/-- What an operation in place leaves: the value as it is afterwards, and what the operation gives
or why it failed. What it wrote before it failed stays written. -/
abbrev Edited (σ α : Type) := σ × Except Error α

namespace Edited

variable {σ α β : Type}

/-- Checks a new part and then writes it. -/
def replace (value : σ) (checked : Except Error β) (write : β → σ) (previous : α) : Edited σ α :=
  match checked with
  | .ok new => (write new, .ok previous)
  | .error e => (value, .error e)

/-- The value afterwards with what the operation gives; after a failure the value is given up. -/
def kept : Edited σ α → Except Error (σ × α)
  | (value, .ok a) => .ok (value, a)
  | (_, .error e) => .error e

end Edited

end Lsl
