import Lsl.Proofs.Grammar.Lexeme
import Lsl.Syntax.Setters
/-!
# Well-shaped trees

Whether a tree has, everywhere, the parts that the language asks for: names and types where they are
due, blocks under loops, conditions under conditions, and operations with both of their sides or
neither.  `Script.wellShaped` is the property that reading a program guarantees.
-/

namespace Lsl

open Lexeme

/-- A type that is there and is not `void`. -/
def typed (type? : Option Primitive) : Bool :=
  type?.any fun primitive => !primitive.isVoid

/-- A name that is there, is made of letters, digits and underscores, and is no keyword. -/
def named (name? : Option String) : Bool :=
  name?.any fun name => isName name.toList

def Param.wellShaped (param : Param) : Bool :=
  typed param.type? && named param.name?

/-- The text of an operand without parts: a name, a number or a string. -/
def isOperandText (text : String) : Bool :=
  isName text.toList || isInteger text.toList || isFloat text.toList || isString text.toList

/-- The operators that can stand in front of an operand. -/
def prefixOperators : List String :=
  ["++", "--", "-=", "!=", "-", "!", "~"]

/-- The operators that can stand after a name. -/
def postfixOperators : List String :=
  ["++", "--"]

namespace Kind

/-- The kinds of the statements of a block. -/
def isStatement : Kind → Bool
  | .variable | .ifElse | .whileLoop | .doLoop | .forLoop | .jump | .label | .ret | .stateChange
  | .expression | .body => true
  | _ => false

/-- The kinds of the operands of an operation. -/
def isOperand : Kind → Bool
  | .call | .cast | .list | .vector | .quaternion | .value | .preMod | .postMod => true
  | _ => false

/-- The kinds of the globals of a script. -/
def isGlobal : Kind → Bool
  | .variable | .function => true
  | _ => false

end Kind

/-- The operators that end a vector or rotation literal where they stand in its last component. -/
def isClosingOperator (symbol : String) : Bool :=
  symbol == ">" || symbol == ">>"

/-- Whether the operator of the operation, if it has one, can stand in the last component of a vector
or rotation literal. -/
def Operation.fitsLast : Operation → Bool
  | ⟨_, some (.text symbol), _⟩ => !isClosingOperator symbol
  | _ => true

def Element.fitsLast : Element → Bool
  | .node (.value operation) => operation.fitsLast
  | _ => true

mutual

/-- Whether a node and all that is inside it have the parts that they need. -/
def Node.wellShaped : Node → Bool
  | .script script => script.wellShaped
  | .function function => function.wellShaped
  | .variable type? name? value? =>
    typed type? && named name? && (match value? with
      | some value => value.isWellShapedValue
      | none => true)
  | .param param => param.wellShaped
  | .type primitive => !primitive.isVoid
  | .state state => state.wellShaped
  | .stateChange target? => target?.isNone || named target?
  | .jump target? | .label target? => named target?
  | .ret value? =>
    match value? with
    | some value => value.isWellShapedValue
    | none => true
  | .call name? arguments => named name? && areWellShapedValues arguments
  | .cast type? value? =>
    typed type? && (match value? with
      | some value => value.isWellShapedOperand
      | none => false)
  | .body body => body.wellShaped
  | .ifElse condition? body? else? =>
    (match condition? with
      | some (.condition operation) => operation.wellShaped
      | _ => false) && (match body? with
      | some body => body.wellShaped
      | none => false) && (match else? with
      | some (.body body) => body.wellShaped
      | some _ => false
      | none => true)
  | .whileLoop condition? body? | .doLoop condition? body? =>
    (match condition? with
      | some (.condition operation) => operation.wellShaped
      | _ => false) && (match body? with
      | some body => body.wellShaped
      | none => false)
  | .forLoop precommands condition? loopcommands body? =>
    areWellShaped (· = .expression) precommands && (match condition? with
      | some (.condition operation) => operation.wellShaped
      | some _ => false
      | none => true) && areWellShaped (· = .expression) loopcommands && (match body? with
      | some body => body.wellShaped
      | none => false)
  | .list values => areWellShapedValues values
  | .vector x y z =>
    x.isWellShapedValue && y.isWellShapedValue && z.isWellShapedValue && z.fitsLast
  | .quaternion x y z s =>
    x.isWellShapedValue && y.isWellShapedValue && z.isWellShapedValue && s.isWellShapedValue &&
      s.fitsLast
  | .value operation | .expression operation | .condition operation => operation.wellShaped
  | .preMod operator? value? =>
    operator?.any prefixOperators.contains && (match value? with
      | some value => value.isWellShapedOperand
      | none => false)
  | .postMod operator? value? =>
    operator?.any postfixOperators.contains && (match value? with
      | some (.text name) => isName name.toList || isMember name.toList
      | _ => false)

/-- Whether an element is a well-shaped value node. -/
def Element.isWellShapedValue : Element → Bool
  | .node (.value operation) => operation.wellShaped
  | _ => false

/-- Whether an element is an operand: a name, a number, a string, or a node that can be one. -/
def Element.isWellShapedOperand : Element → Bool
  | .text text => isOperandText text
  | .node node => node.kind.isOperand && node.wellShaped

/-- Both sides are there, each a value node, with an operator between them; or neither is there, and
the center is no operator. -/
def Operation.wellShaped : Operation → Bool
  | ⟨some (.value left), some (.text symbol), some (.value right)⟩ =>
    left.wellShaped && (Level.of? symbol).isSome && right.wellShaped
  | ⟨none, some center, none⟩ => center.isWellShapedOperand && center.level?.isNone
  | _ => false

def Body.wellShaped : Body → Bool
  | ⟨statements⟩ => areWellShaped Kind.isStatement statements

def FunctionDef.wellShaped : FunctionDef → Bool
  | ⟨type?, name?, params, body?⟩ =>
    (type?.isNone || typed type?) && named name? && params.all Param.wellShaped &&
      (match body? with
      | some body => body.wellShaped
      | none => false)

def State.wellShaped : State → Bool
  | ⟨name?, events⟩ => (name?.isNone || named name?) && areWellShapedFunctions events

def Script.wellShaped : Script → Bool
  | ⟨globals, states⟩ => areWellShaped Kind.isGlobal globals && areWellShapedStates states

/-- Whether nodes are well shaped and of the kinds that `allowed` says. -/
def areWellShaped (allowed : Kind → Bool) : List Node → Bool
  | [] => true
  | node :: rest => allowed node.kind && node.wellShaped && areWellShaped allowed rest

def areWellShapedValues : List Element → Bool
  | [] => true
  | value :: rest => value.isWellShapedValue && areWellShapedValues rest

def areWellShapedFunctions : List FunctionDef → Bool
  | [] => true
  | function :: rest => function.wellShaped && areWellShapedFunctions rest

def areWellShapedStates : List State → Bool
  | [] => true
  | state :: rest => state.wellShaped && areWellShapedStates rest

end

@[simp] theorem Node.wellShaped_value (operation : Operation) :
    (Node.value operation).wellShaped = operation.wellShaped := by
  rw [Node.wellShaped]

theorem Node.cast_of_wellShaped {type? : Option Primitive} {value? : Option Element}
    (h : (Node.cast type? value?).wellShaped = true) :
    ∃ type value, type.isVoid = false ∧ value.isWellShapedOperand = true ∧
      type? = some type ∧ value? = some value := by
  cases type? with
  | none => simp [Node.wellShaped, typed] at h
  | some type =>
    cases value? with
    | none => simp [Node.wellShaped] at h
    | some value =>
      simp only [Node.wellShaped, typed, Option.any_some, Bool.and_eq_true,
        Bool.not_eq_true'] at h
      exact ⟨type, value, h.1, h.2, rfl, rfl⟩

theorem Node.preMod_of_wellShaped {symbol? : Option String} {value? : Option Element}
    (h : (Node.preMod symbol? value?).wellShaped = true) :
    ∃ symbol ∈ prefixOperators, ∃ value, value.isWellShapedOperand = true ∧
      symbol? = some symbol ∧ value? = some value := by
  cases symbol? with
  | none => simp [Node.wellShaped] at h
  | some symbol =>
    cases value? with
    | none => simp [Node.wellShaped] at h
    | some value =>
      simp only [Node.wellShaped, Option.any_some, Bool.and_eq_true] at h
      exact ⟨symbol, List.contains_iff_mem.1 h.1, value, h.2, rfl, rfl⟩

theorem Node.postMod_of_wellShaped {symbol? : Option String} {value? : Option Element}
    (h : (Node.postMod symbol? value?).wellShaped = true) :
    ∃ symbol ∈ postfixOperators, ∃ name : String,
      (isName name.toList || isMember name.toList) = true ∧
      symbol? = some symbol ∧ value? = some (.text name) := by
  match symbol?, value?, h with
  | some symbol, some (.text name), h =>
    simp only [Node.wellShaped, Option.any_some] at h
    rw [Bool.and_eq_true] at h
    exact ⟨symbol, List.contains_iff_mem.1 h.1, name, h.2, rfl, rfl⟩
  | none, _, h => simp [Node.wellShaped] at h
  | some _, none, h => simp [Node.wellShaped] at h
  | some _, some (.node _), h => simp [Node.wellShaped] at h

theorem areWellShaped_eq_all (allowed : Kind → Bool) (nodes : List Node) :
    areWellShaped allowed nodes = nodes.all fun node => allowed node.kind && node.wellShaped := by
  induction nodes with
  | nil => rfl
  | cons node rest ih => rw [areWellShaped, ih, List.all_cons]

theorem areWellShapedValues_eq_all (values : List Element) :
    areWellShapedValues values = values.all Element.isWellShapedValue := by
  induction values with
  | nil => rfl
  | cons value rest ih => rw [areWellShapedValues, ih, List.all_cons]

theorem areWellShapedFunctions_eq_all (functions : List FunctionDef) :
    areWellShapedFunctions functions = functions.all FunctionDef.wellShaped := by
  induction functions with
  | nil => rfl
  | cons function rest ih => rw [areWellShapedFunctions, ih, List.all_cons]

theorem areWellShapedStates_eq_all (states : List State) :
    areWellShapedStates states = states.all State.wellShaped := by
  induction states with
  | nil => rfl
  | cons state rest ih => rw [areWellShapedStates, ih, List.all_cons]

/-! ## Induction over well-shaped expressions -/

/-- What has to be shown of the forms of operands and operations, each with what its shape says and
with the properties of its parts. -/
structure ExpressionCases (P : Element → Prop) (Q : Operation → Prop) : Prop where
  text (word : String) : isOperandText word = true → P (.text word)
  group (o : Operation) : o.wellShaped = true → Q o → P (.node (.value o))
  call (name : String) (os : List Operation) : isName name.toList = true →
    (∀ o ∈ os, o.wellShaped = true ∧ Q o) →
    P (.node (.call (some name) (os.map fun o => .node (.value o))))
  list (os : List Operation) : (∀ o ∈ os, o.wellShaped = true ∧ Q o) →
    P (.node (.list (os.map fun o => .node (.value o))))
  vector (x y z : Operation) : (∀ o ∈ [x, y, z], o.wellShaped = true ∧ Q o) →
    z.fitsLast = true →
    P (.node (.vector (.node (.value x)) (.node (.value y)) (.node (.value z))))
  quaternion (x y z s : Operation) : (∀ o ∈ [x, y, z, s], o.wellShaped = true ∧ Q o) →
    s.fitsLast = true →
    P (.node (.quaternion (.node (.value x)) (.node (.value y)) (.node (.value z))
      (.node (.value s))))
  cast (type : Primitive) (value : Element) : type.isVoid = false →
    value.isWellShapedOperand = true → P value → P (.node (.cast (some type) (some value)))
  preMod (symbol : String) (value : Element) : symbol ∈ prefixOperators →
    value.isWellShapedOperand = true → P value → P (.node (.preMod (some symbol) (some value)))
  postMod (symbol name : String) : symbol ∈ postfixOperators →
    (isName name.toList || isMember name.toList) = true →
    P (.node (.postMod (some symbol) (some (.text name))))
  leaf (center : Element) : center.isWellShapedOperand = true → center.level? = none →
    P center → Q ⟨none, some center, none⟩
  binary (left : Operation) (symbol : String) (right : Operation) : left.wellShaped = true →
    (Level.of? symbol).isSome = true → right.wellShaped = true → Q left → Q right →
    Q ⟨some (.value left), some (.text symbol), some (.value right)⟩

namespace ExpressionCases

variable {P : Element → Prop} {Q : Operation → Prop}

mutual

theorem of_element (h : ExpressionCases P Q) (element : Element)
    (hshaped : element.isWellShapedOperand = true) : P element := by
  cases element with
  | text word => exact h.text word hshaped
  | node n =>
    rw [Element.isWellShapedOperand, Bool.and_eq_true] at hshaped
    exact of_node h n hshaped.1 hshaped.2

theorem of_node (h : ExpressionCases P Q) (n : Node) (hkind : n.kind.isOperand = true)
    (hshaped : n.wellShaped = true) : P (.node n) := by
  cases n
  case value o =>
    rw [Node.wellShaped_value] at hshaped
    exact h.group o hshaped (of_operation h o hshaped)
  case call name? arguments =>
    rw [Node.wellShaped, Bool.and_eq_true] at hshaped
    obtain ⟨name, rfl, hname⟩ := (Option.any_eq_true _ _).1 hshaped.1
    obtain ⟨os, rfl, hos⟩ := of_values h arguments hshaped.2
    exact h.call name os hname hos
  case list values =>
    rw [Node.wellShaped] at hshaped
    obtain ⟨os, rfl, hos⟩ := of_values h values hshaped
    exact h.list os hos
  case vector x y z =>
    simp only [Node.wellShaped, Bool.and_eq_true] at hshaped
    obtain ⟨⟨⟨hx, hy⟩, hz⟩, hlast⟩ := hshaped
    obtain ⟨x, rfl, hox⟩ := of_value h x hx
    obtain ⟨y, rfl, hoy⟩ := of_value h y hy
    obtain ⟨z, rfl, hoz⟩ := of_value h z hz
    exact h.vector x y z (by simp only [List.forall_mem_cons]; exact ⟨hox, hoy, hoz, nofun⟩) hlast
  case quaternion x y z s =>
    simp only [Node.wellShaped, Bool.and_eq_true] at hshaped
    obtain ⟨⟨⟨⟨hx, hy⟩, hz⟩, hs⟩, hlast⟩ := hshaped
    obtain ⟨x, rfl, hox⟩ := of_value h x hx
    obtain ⟨y, rfl, hoy⟩ := of_value h y hy
    obtain ⟨z, rfl, hoz⟩ := of_value h z hz
    obtain ⟨s, rfl, hos⟩ := of_value h s hs
    exact h.quaternion x y z s
      (by simp only [List.forall_mem_cons]; exact ⟨hox, hoy, hoz, hos, nofun⟩) hlast
  case cast type? value? =>
    obtain _ | value := value?
    · simp [Node.wellShaped] at hshaped
    · obtain ⟨type, _, htype, hvalue, rfl, heq⟩ := Node.cast_of_wellShaped hshaped
      cases heq
      exact h.cast type value htype hvalue (of_element h value hvalue)
  case preMod symbol? value? =>
    obtain _ | value := value?
    · simp [Node.wellShaped] at hshaped
    · obtain ⟨symbol, hsymbol, _, hvalue, rfl, heq⟩ := Node.preMod_of_wellShaped hshaped
      cases heq
      exact h.preMod symbol value hsymbol hvalue (of_element h value hvalue)
  case postMod symbol? value? =>
    obtain ⟨symbol, hsymbol, name, hname, rfl, rfl⟩ := Node.postMod_of_wellShaped hshaped
    exact h.postMod symbol name hsymbol hname
  all_goals cases hkind

theorem of_operation (h : ExpressionCases P Q) (o : Operation) (hshaped : o.wellShaped = true) :
    Q o := by
  match o with
  | ⟨some (.value left), some (.text symbol), some (.value right)⟩ =>
    simp only [Operation.wellShaped, Bool.and_eq_true] at hshaped
    exact h.binary left symbol right hshaped.1.1 hshaped.1.2 hshaped.2
      (of_operation h left hshaped.1.1) (of_operation h right hshaped.2)
  | ⟨none, some center, none⟩ =>
    simp only [Operation.wellShaped, Bool.and_eq_true, Option.isNone_iff_eq_none] at hshaped
    exact h.leaf center hshaped.1 hshaped.2 (of_element h center hshaped.1)

theorem of_value (h : ExpressionCases P Q) (value : Element)
    (hshaped : value.isWellShapedValue = true) :
    ∃ o : Operation, value = .node (.value o) ∧ o.wellShaped = true ∧ Q o := by
  match value with
  | .node (.value o) =>
    rw [Element.isWellShapedValue] at hshaped
    exact ⟨o, rfl, hshaped, of_operation h o hshaped⟩

theorem of_values (h : ExpressionCases P Q) (values : List Element)
    (hshaped : areWellShapedValues values = true) :
    ∃ os : List Operation, values = os.map (fun o => .node (.value o)) ∧
      ∀ o ∈ os, o.wellShaped = true ∧ Q o := by
  match values with
  | [] => exact ⟨[], rfl, nofun⟩
  | value :: rest =>
    rw [areWellShapedValues, Bool.and_eq_true] at hshaped
    obtain ⟨o, rfl, ho⟩ := of_value h value hshaped.1
    obtain ⟨os, rfl, hos⟩ := of_values h rest hshaped.2
    exact ⟨o :: os, rfl, List.forall_mem_cons.2 ⟨ho, hos⟩⟩

end

end ExpressionCases

end Lsl
