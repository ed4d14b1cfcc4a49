import Lsl.Syntax.Node
/-!
# Comparing trees

A structural comparison of syntax trees.
-/

namespace Lsl

mutual

/-- Whether two nodes are the same tree. -/
def Node.same : Node → Node → Bool
  | .script s, other => if let .script t := other then s.same t else false
  | .function f, other => if let .function g := other then f.same g else false
  | .variable t n v, other =>
    if let .variable t' n' v' := other then t == t' && n == n' && sameElement? v v' else false
  | .param p, other => if let .param q := other then p == q else false
  | .type p, other => if let .type q := other then p == q else false
  | .state s, other => if let .state t := other then s.same t else false
  | .stateChange t, other => if let .stateChange t' := other then t == t' else false
  | .jump t, other => if let .jump t' := other then t == t' else false
  | .label t, other => if let .label t' := other then t == t' else false
  | .ret v, other => if let .ret v' := other then sameElement? v v' else false
  | .call n vs, other => if let .call n' vs' := other then n == n' && sameElements vs vs' else false
  | .cast t v, other => if let .cast t' v' := other then t == t' && sameElement? v v' else false
  | .body b, other => if let .body c := other then b.same c else false
  | .ifElse c b e, other =>
    if let .ifElse c' b' e' := other then
      sameNode? c c' && sameBody? b b' && sameNode? e e'
    else false
  | .whileLoop c b, other =>
    if let .whileLoop c' b' := other then sameNode? c c' && sameBody? b b' else false
  | .doLoop c b, other =>
    if let .doLoop c' b' := other then sameNode? c c' && sameBody? b b' else false
  | .forLoop p c l b, other =>
    if let .forLoop p' c' l' b' := other then
      sameNodes p p' && sameNode? c c' && sameNodes l l' && sameBody? b b'
    else false
  | .list vs, other => if let .list vs' := other then sameElements vs vs' else false
  | .vector x y z, other =>
    if let .vector x' y' z' := other then x.same x' && y.same y' && z.same z' else false
  | .quaternion x y z s, other =>
    if let .quaternion x' y' z' s' := other then
      x.same x' && y.same y' && z.same z' && s.same s'
    else false
  | .value o, other => if let .value o' := other then o.same o' else false
  | .expression o, other => if let .expression o' := other then o.same o' else false
  | .condition o, other => if let .condition o' := other then o.same o' else false
  | .preMod o v, other => if let .preMod o' v' := other then o == o' && sameElement? v v' else false
  | .postMod o v, other =>
    if let .postMod o' v' := other then o == o' && sameElement? v v' else false
termination_by structural x => x

/-- Whether two elements are the same. -/
def Element.same : Element → Element → Bool
  | .text t, .text t' => t == t'
  | .node n, .node n' => n.same n'
  | _, _ => false
termination_by structural x => x

/-- Whether two blocks are the same. -/
def Body.same : Body → Body → Bool
  | ⟨ns⟩, ⟨ns'⟩ => sameNodes ns ns'
termination_by structural x => x

/-- Whether two functions are the same. -/
def FunctionDef.same : FunctionDef → FunctionDef → Bool
  | ⟨t, n, ps, b⟩, ⟨t', n', ps', b'⟩ => t == t' && n == n' && ps == ps' && sameBody? b b'
termination_by structural x => x

/-- Whether two states are the same. -/
def State.same : State → State → Bool
  | ⟨n, fs⟩, ⟨n', fs'⟩ => n == n' && sameFunctions fs fs'
termination_by structural x => x

/-- Whether two scripts are the same. -/
def Script.same : Script → Script → Bool
  | ⟨ns, ss⟩, ⟨ns', ss'⟩ => sameNodes ns ns' && sameStates ss ss'
termination_by structural x => x

/-- Whether two operations are the same. -/
def Operation.same : Operation → Operation → Bool
  | ⟨l, c, r⟩, ⟨l', c', r'⟩ => sameNode? l l' && sameElement? c c' && sameNode? r r'
termination_by structural x => x

/-- Whether two optional nodes are the same. -/
def sameNode? : Option Node → Option Node → Bool
  | some n, some n' => n.same n'
  | none, none => true
  | _, _ => false
termination_by structural x => x

/-- Whether two optional elements are the same. -/
def sameElement? : Option Element → Option Element → Bool
  | some e, some e' => e.same e'
  | none, none => true
  | _, _ => false
termination_by structural x => x

/-- Whether two optional blocks are the same. -/
def sameBody? : Option Body → Option Body → Bool
  | some b, some b' => b.same b'
  | none, none => true
  | _, _ => false
termination_by structural x => x

/-- Whether two lists of nodes are the same. -/
def sameNodes : List Node → List Node → Bool
  | n :: ns, n' :: ns' => n.same n' && sameNodes ns ns'
  | [], [] => true
  | _, _ => false
termination_by structural x => x

/-- Whether two lists of elements are the same. -/
def sameElements : List Element → List Element → Bool
  | e :: es, e' :: es' => e.same e' && sameElements es es'
  | [], [] => true
  | _, _ => false
termination_by structural x => x

/-- Whether two lists of functions are the same. -/
def sameFunctions : List FunctionDef → List FunctionDef → Bool
  | f :: fs, f' :: fs' => f.same f' && sameFunctions fs fs'
  | [], [] => true
  | _, _ => false
termination_by structural x => x

/-- Whether two lists of states are the same. -/
def sameStates : List State → List State → Bool
  | s :: ss, s' :: ss' => s.same s' && sameStates ss ss'
  | [], [] => true
  | _, _ => false
termination_by structural x => x

end

end Lsl
