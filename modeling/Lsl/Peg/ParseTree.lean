/-!
# Raw trees

A tree as a grammar yields it: a node for each matched rule, labelled with that rule, with the exact
text that it covers.
-/

namespace Lsl.Peg

/-- A node labelled with a token, the text it covers, and the nodes inside it. -/
structure ParseTree (τ : Type) where
  token : τ
  text : String
  children : List (ParseTree τ)

namespace ParseTree

variable {τ : Type}

def isLeaf (tree : ParseTree τ) : Bool :=
  tree.children.isEmpty

mutual

/-- The node and all nodes below it, each before those inside it, from left to right. -/
def walk : ParseTree τ → List (ParseTree τ)
  | ⟨token, text, children⟩ => ⟨token, text, children⟩ :: walkAll children

/-- The nodes of several trees in the order of `walk`. -/
def walkAll : List (ParseTree τ) → List (ParseTree τ)
  | [] => []
  | tree :: rest => walk tree ++ walkAll rest

end

theorem walkAll_eq_flatMap (trees : List (ParseTree τ)) : walkAll trees = trees.flatMap walk := by
  induction trees with
  | nil => rfl
  | cons tree rest ih => rw [walkAll, ih, List.flatMap_cons]

mutual

/-- Removes the nodes below this one whose token is `dropped`, with all inside them. -/
def pruneInside (dropped : τ → Bool) : ParseTree τ → ParseTree τ
  | ⟨token, text, children⟩ => ⟨token, text, prune dropped children⟩

/-- Removes the nodes whose token is `dropped`, with all inside them, at every level. -/
def prune (dropped : τ → Bool) : List (ParseTree τ) → List (ParseTree τ)
  | [] => []
  | tree :: rest =>
    if dropped tree.token then prune dropped rest
    else pruneInside dropped tree :: prune dropped rest

end

end ParseTree

end Lsl.Peg
