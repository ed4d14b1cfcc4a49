import Lsl.Syntax.Node
/-!
# Tracing function entry

Makes every function of a script announce itself: its block starts with a call of a diagnostic
function with the name of the function as argument.
-/

namespace Lsl

/-- The statement `diagnostic("name");`. -/
def entryCall (diagnostic name : String) : Node :=
  .expression (.leaf (.node (.call diagnostic
    [.node (.value (.leaf (.text ("\"" ++ name ++ "\""))))])))

/-- Makes the function announce itself; an absent block is taken for an empty one. -/
def FunctionDef.announce (diagnostic : String) (function : FunctionDef) :
    Edited FunctionDef Unit :=
  let body := function.body?.getD ⟨[]⟩
  let (body, result) := body.insert 0 (entryCall diagnostic (function.name?.getD ""))
  ({ function with body? := some body }, result)

/-- Makes a function announce itself and counts it, as long as none before it failed to. -/
def FunctionDef.announceCounted (diagnostic : String) (function : FunctionDef) :
    StateM (Except Error Nat) FunctionDef
  | .ok count =>
    let (function, result) := function.announce diagnostic
    (function, (fun _ => count + 1) <$> result)
  | .error e => (function, .error e)

/-- Makes every function of a script announce itself, and counts them. -/
def Script.announce (script : Script) (diagnostic : String) : Edited Script Nat :=
  (script.mapFunctionsM (FunctionDef.announceCounted diagnostic)).run (.ok 0)

/-- The traced script with the number of its functions. -/
def Script.traceEntry (script : Script) (diagnostic : String) : Except Error (Script × Nat) :=
  (script.announce diagnostic).kept

end Lsl
