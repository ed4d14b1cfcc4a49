import Lsl.Syntax.Kind
import Lsl.Text.SymbolName
/-!
# Registries

A registry says what the tokens of a raw tree stand for: the kind of node that a token builds, if
there is one, and the field of its parent that it fills.  Both follow from the token's symbol, so
any list of tokens has a registry.
-/

namespace Lsl

/-- Token types whose members have a symbol. -/
class Vocabulary (τ : Type) where
  symbol : τ → String

/-- The kinds and fields of a list of tokens. -/
structure Registry (τ : Type) where
  kinds : List (τ × Kind)
  fields : List (τ × String)

namespace Registry

variable {τ : Type} [DecidableEq τ] [Vocabulary τ]

/-- The kind that a symbol names. -/
def kindNamed? (symbol : String) : Option Kind :=
  Kind.ofName? (Text.pascalCase symbol)

/-- The registry of a list of tokens. -/
def build (tokens : List τ) : Registry τ where
  kinds := tokens.filterMap fun token =>
    (kindNamed? (Vocabulary.symbol token)).map fun kind => (token, kind)
  fields := tokens.map fun token => (token, Text.snakeCase (Vocabulary.symbol token))

/-- The kind of node that a token builds. -/
def kindFor? (registry : Registry τ) (token : τ) : Option Kind :=
  registry.kinds.lookup token

/-- The field that a token fills; for a token that is not registered, its symbol in snake case. -/
def fieldFor (registry : Registry τ) (token : τ) : String :=
  (registry.fields.lookup token).getD (Text.snakeCase (Vocabulary.symbol token))

end Registry

instance : Vocabulary String where
  symbol := id

end Lsl
