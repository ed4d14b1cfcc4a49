import Lsl.Error
/-!
# Primitive types

The closed list of types of the language, their names and the literals that declarations without a
value start from.
-/

namespace Lsl

/-- The types of the language; `void` stands for an absent one. -/
inductive Primitive where
  | void
  | integer
  | float
  | string
  | key
  | vector
  | rotation
  | list
  deriving DecidableEq, Repr

namespace Primitive

/-- The name that a type is written with. -/
def name : Primitive → String
  | void => "void"
  | integer => "integer"
  | float => "float"
  | string => "string"
  | key => "key"
  | vector => "vector"
  | rotation => "rotation"
  | list => "list"

/-- The type of a name; `quaternion` is another name of `rotation` and `VOID` of `void`. -/
def parse : String → Except Error Primitive
  | "void" | "VOID" => .ok void
  | "integer" => .ok integer
  | "float" => .ok float
  | "string" => .ok string
  | "key" => .ok key
  | "vector" => .ok vector
  | "rotation" | "quaternion" => .ok rotation
  | "list" => .ok list
  | other => .error (.unknownType other)

/-- The literal that a declaration without a value is completed with. -/
def defaultLiteral : Primitive → Option String
  | void => none
  | integer => some "0"
  | float => some "0.0"
  | string | key => some "\"\""
  | vector => some "<0.0, 0.0, 0.0>"
  | rotation => some "<0.0, 0.0, 0.0, 0.0>"
  | list => some "[]"

def isVoid : Primitive → Bool
  | void => true
  | _ => false

/-- A type's own name reads back as that type. -/
@[simp] theorem parse_name (primitive : Primitive) : parse primitive.name = .ok primitive := by
  cases primitive <;> rfl

end Primitive

end Lsl
