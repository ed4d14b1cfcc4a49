import Lsl.Program
import Lsl.Trace
/-!
# Editing sessions

A session applies steps to a root node one after the other, in place.
-/

namespace Lsl

/-- The steps of a session. Steps on a block address the root itself, or the block of a function of
the script at the root, by its place among the script's functions. -/
inductive Step where
  | set (field : String) (value : Element)
  | setList (field : String) (values : List Element)
  | setOverflow (values : List Element)
  | hasField (field : String) (shape : Shape)
  | insert (function? : Option Nat) (index : Nat) (node : Node)
  | push (function? : Option Nat) (node : Node)
  | measure (function? : Option Nat)
  | component (axis : Axis)
  | setComponent (axis : Axis) (value : Element)
  | functions
  | trace (diagnostic : String)
  | describe (value : Element)
  | render (width : Nat)

/-- What a step answers. -/
inductive Reply where
  | previous (element? : Option Element)
  | previousList (elements : List Element)
  | done
  | has (answer : Bool)
  | length (length : Nat)
  | block (body : Body)
  | component (value : Element)
  | functions (functions : List FunctionDef)
  | count (count : Nat)
  | description (element : Element)
  | text (text : String)

/-- Why a step is refused. -/
inductive Refusal where
  /-- The operation on the tree failed. -/
  | failed (error : Error)
  /-- The step does not apply to a root of this kind, or there is no such part. -/
  | unsuitable

/-- Changes the function at a place among the script's functions. -/
def Script.modifyFunction (script : Script) (index : Nat) (f : FunctionDef → FunctionDef) :
    Script :=
  let step (function : FunctionDef) : StateM Nat FunctionDef :=
    modifyGet fun place => (if place = index then f function else function, place + 1)
  ((script.mapFunctionsM step).run 0).1

/-- The block that a step addresses, with the way to put another in its place. -/
def Node.block? : Node → Option Nat → Option (Body × (Body → Node))
  | .body block, none => some (block, .body)
  | .script s, some index => do
    let block ← (← s.functions[index]?).body?
    return (block, fun new =>
      .script (s.modifyFunction index fun f => { f with body? := some new }))
  | _, _ => none

/-- The answer of a step whose operation ended so. -/
def Step.answer {α : Type} (reply : α → Reply) : Except Error α → Except Refusal Reply
  | .ok a => .ok (reply a)
  | .error e => .error (.failed e)

/-- Takes a step on a root: the root as it is after it, refused or not, with the answer. -/
def Step.next (root : Node) : Step → Node × Except Refusal Reply
  | .set field value =>
    let (root, result) := root.set field value
    (root, answer .previous result)
  | .setList field values =>
    let (root, result) := root.setList field values
    (root, answer .previousList result)
  | .setOverflow values =>
    let (root, result) := root.setOverflow values
    (root, answer (fun _ => .done) result)
  | .hasField field shape => (root, .ok (.has (root.kind.hasField field shape)))
  | .insert function? index node =>
    match root.block? function? with
    | some (body, replace) =>
      let (body, result) := body.insert index node
      (replace body, answer (fun _ => .length body.statements.length) result)
    | none => (root, .error .unsuitable)
  | .push function? node =>
    match root.block? function? with
    | some (body, replace) =>
      let body := body.push node
      (replace body, .ok (.length body.statements.length))
    | none => (root, .error .unsuitable)
  | .measure function? =>
    match root.block? function? with
    | some (body, _) => (root, .ok (.block body))
    | none => (root, .error .unsuitable)
  | .component axis =>
    match root.component? axis with
    | some value => (root, .ok (.component value))
    | none => (root, .error .unsuitable)
  | .setComponent axis value =>
    match root.component? axis, root.setComponent? axis value with
    | some previous, some root => (root, .ok (.previous previous))
    | _, _ => (root, .error .unsuitable)
  | .functions =>
    match root with
    | .script script => (root, .ok (.functions script.functions))
    | _ => (root, .error .unsuitable)
  | .trace diagnostic =>
    match root with
    | .script script =>
      let (script, result) := script.announce diagnostic
      (.script script, answer .count result)
    | _ => (root, .error .unsuitable)
  | .describe value => (root, .ok (.description value))
  | .render width => (root, .ok (.text (root.render width)))

end Lsl
