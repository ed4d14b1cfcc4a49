import Lsl.Text.Case
/-!
# Names derived from grammar symbols

A grammar symbol such as `STATE_CHANGE` names a kind of node in pascal case, `StateChange`, and a
field of its parent in snake case, `state_change`.
-/

namespace Lsl.Text

/-- The words between underscores, each capitalised; `fresh` says that a word starts here. -/
def capitalizeWords (fresh : Bool) : List Char → List Char
  | [] => []
  | c :: rest =>
    if c = '_' then capitalizeWords true rest
    else (if fresh then upperChar c else lowerChar c) ++ capitalizeWords false rest

/-- `STATE_CHANGE` becomes `StateChange`. -/
def pascalCase (symbol : String) : String :=
  String.ofList (capitalizeWords true symbol.toList)

/-- `STATE_CHANGE` becomes `state_change`. -/
def snakeCase (symbol : String) : String :=
  lower symbol

end Lsl.Text
