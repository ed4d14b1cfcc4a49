import Lsl.Syntax.Node
/-!
# Operators and their grouping

The parser yields an expression as a flat run of operands and operator texts.  `assemble` groups
such a run: the loosest level that occurs decides, and within it the leftmost operator becomes the
center, with all that stands before it at its left and all that stands after it at its right.
-/

namespace Lsl

/-- The levels of binary operators, from the loosest to the tightest. -/
inductive Level where
  | assign
  | or
  | and
  | bitOr
  | bitXor
  | bitAnd
  | equality
  | relational
  | shift
  | additive
  | multiplicative
  | member
  deriving DecidableEq, Repr

namespace Level

/-- Every level once, from the loosest to the tightest. -/
def all : List Level :=
  [assign, or, and, bitOr, bitXor, bitAnd, equality, relational, shift, additive, multiplicative,
    member]

/-- The operators of a level. -/
def operators : Level → List String
  | assign => ["=", "+=", "-=", "*=", "/=", "%="]
  | or => ["||"]
  | and => ["&&"]
  | bitOr => ["|"]
  | bitXor => ["^"]
  | bitAnd => ["&"]
  | equality => ["==", "!="]
  | relational => ["<", "<=", ">", ">="]
  | shift => ["<<", ">>"]
  | additive => ["+", "-"]
  | multiplicative => ["*", "/", "%"]
  | member => ["."]

/-- The place of a level in the order of tightness, from 1. -/
def rank : Level → Nat
  | assign => 1
  | or => 2
  | and => 3
  | bitOr => 4
  | bitXor => 5
  | bitAnd => 6
  | equality => 7
  | relational => 8
  | shift => 9
  | additive => 10
  | multiplicative => 11
  | member => 12

/-- The level that an operator belongs to. -/
def of? (symbol : String) : Option Level :=
  all.find? (·.operators.contains symbol)

end Level

namespace Element

/-- The level of an element that is the text of a binary operator. -/
def level? : Element → Option Level
  | .text symbol => Level.of? symbol
  | .node _ => none

/-- The operand that a lone element stands for: an expression node as it is, else a value of it. -/
def toOperand : Element → Node
  | .node n => if n.kind.isExpression then n else .value (.leaf (.node n))
  | .text t => .value (.leaf (.text t))

end Element

/-- The loosest level among the operators of a run. -/
def loosestLevel? (values : List Element) : Option Level :=
  Level.all.find? fun level => values.any fun value => value.level? = some level

/-- The elements before the first operator of a level, that operator, and the elements after it. -/
def splitAtLevel (level : Level) : List Element → Option (List Element × Element × List Element)
  | [] => none
  | value :: rest =>
    if value.level? = some level then some ([], value, rest)
    else
      (splitAtLevel level rest).map fun (before, center, after) => (value :: before, center, after)

theorem eq_of_splitAtLevel {level : Level} {values before after : List Element} {center : Element}
    (h : splitAtLevel level values = some (before, center, after)) :
    values = before ++ center :: after := by
  induction values generalizing before with
  | nil => simp [splitAtLevel] at h
  | cons value rest ih =>
    rw [splitAtLevel] at h
    split at h
    · cases h; rfl
    · simp only [Option.map_eq_some_iff, Prod.exists, Prod.mk.injEq] at h
      obtain ⟨_, _, _, h, rfl, rfl, rfl⟩ := h
      rw [ih h, List.cons_append]

/-- A run split at its leftmost operator of the loosest level. -/
def splitLoosest? (values : List Element) : Option (List Element × Element × List Element) :=
  (loosestLevel? values).bind fun level => splitAtLevel level values

theorem eq_of_splitLoosest? {values before after : List Element} {center : Element}
    (h : splitLoosest? values = some (before, center, after)) :
    values = before ++ center :: after := by
  obtain ⟨_, -, h⟩ := Option.bind_eq_some_iff.1 h
  exact eq_of_splitAtLevel h

theorem length_of_splitLoosest? {values before after : List Element} {center : Element}
    (h : splitLoosest? values = some (before, center, after)) :
    before.length < values.length ∧ after.length < values.length := by
  have hlength := congrArg List.length (eq_of_splitLoosest? h)
  simp only [List.length_append, List.length_cons] at hlength
  omega

mutual

/-- Groups a flat run of operands and operators into an operation. -/
def assemble (values : List Element) : Except Error Operation :=
  match values with
  | [] => .error .emptyExpression
  | [value] => .ok (.leaf value)
  | first :: second :: rest =>
    match _h : splitLoosest? (first :: second :: rest) with
    | some (before, center, after) => do
      let left? ← assembleSide before
      let right? ← assembleSide after
      return ⟨left?, some center, right?⟩
    | none => .error (.partialExpression (Element.describeAll (first :: second :: rest)))
  termination_by (values.length, 0)
  decreasing_by
    · exact Prod.Lex.left _ _ (length_of_splitLoosest? _h).1
    · exact Prod.Lex.left _ _ (length_of_splitLoosest? _h).2

/-- One side of an operator: nothing, a lone operand, or a run grouped in turn. -/
def assembleSide (values : List Element) : Except Error (Option Node) :=
  match values with
  | [] => .ok none
  | [value] => .ok (some value.toOperand)
  | first :: second :: rest => do return some (.value (← assemble (first :: second :: rest)))
  termination_by (values.length, 1)
  decreasing_by exact Prod.Lex.right _ (by omega)

end

end Lsl
