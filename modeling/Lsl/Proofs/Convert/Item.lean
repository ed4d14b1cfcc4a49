import Lsl.Program
import Lsl.Proofs.Syntax.Lexemes
import Mathlib.Data.List.Forall2
/-!
# Converted children

What the conversion makes of the children of a raw tree, and what it makes of the tree from them.
The kind and the field that a rule's symbol stands for are given as tables here, so that nothing
below has to look at the spelling of a symbol again.
-/

namespace Lsl

open Peg

namespace Registry

variable {τ : Type} [DecidableEq τ] [Vocabulary τ]

/-- A registered token builds the kind that its symbol names. -/
theorem kindFor?_build (tokens : List τ) (token : τ) :
    (build tokens).kindFor? token =
      if token ∈ tokens then kindNamed? (Vocabulary.symbol token) else none := by
  unfold kindFor? build
  induction tokens with
  | nil => rfl
  | cons first rest ih =>
    by_cases h : token = first
    · subst h
      cases hk : kindNamed? (Vocabulary.symbol token) with
      | none =>
        rw [List.filterMap_cons_none (by simp [hk]), ih, hk]
        simp
      | some kind => simp [hk]
    · cases hk : kindNamed? (Vocabulary.symbol first) with
      | none => simp_all
      | some kind => simp_all [List.lookup_cons, beq_eq_false_iff_ne.2 h]

/-- A token fills the field that its symbol in snake case names, registered or not. -/
theorem fieldFor_build (tokens : List τ) (token : τ) :
    (build tokens).fieldFor token = Text.snakeCase (Vocabulary.symbol token) := by
  unfold fieldFor build
  dsimp only
  induction tokens with
  | nil => rfl
  | cons first rest ih =>
    by_cases h : token = first
    · simp [h]
    · rw [List.map_cons, List.lookup_cons, beq_eq_false_iff_ne.2 h]
      exact ih

end Registry

namespace Rule

/-- The kind of node that a rule builds. -/
def kind? : Rule → Option Kind
  | .script => some .script
  | .state => some .state
  | .function => some .function
  | .param => some .param
  | .type => some .type
  | .variable => some .variable
  | .body => some .body
  | .ifElse => some .ifElse
  | .whileLoop => some .whileLoop
  | .doLoop => some .doLoop
  | .forLoop => some .forLoop
  | .jump => some .jump
  | .label => some .label
  | .ret => some .ret
  | .stateChange => some .stateChange
  | .expression => some .expression
  | .value => some .value
  | .condition => some .condition
  | .preMod => some .preMod
  | .postMod => some .postMod
  | .cast => some .cast
  | .call => some .call
  | .quaternion => some .quaternion
  | .vector => some .vector
  | .list => some .list
  | _ => none

/-- The field that a rule fills in the node around it. -/
def field : Rule → String
  | .endOfInput => "eoi"
  | .whitespace => "whitespace"
  | .comment => "comment"
  | .identChar => "ident_char"
  | .keyword => "keyword"
  | .script => "script"
  | .globals => "globals"
  | .states => "states"
  | .state => "state"
  | .events => "events"
  | .function => "function"
  | .params => "params"
  | .param => "param"
  | .type => "type"
  | .typeName => "type_name"
  | .variable => "variable"
  | .name => "name"
  | .ident => "ident"
  | .body => "body"
  | .statement => "statement"
  | .simpleStatement => "simple_statement"
  | .ifElse => "if"
  | .elseBranch => "else"
  | .whileLoop => "while"
  | .doLoop => "do"
  | .forLoop => "for"
  | .precommands => "precommands"
  | .loopcommands => "loopcommands"
  | .jump => "jump"
  | .label => "label"
  | .ret => "return"
  | .stateChange => "state_change"
  | .expression => "expression"
  | .value => "value"
  | .condition => "condition"
  | .operator => "operator"
  | .closingAngle => "closing_angle"
  | .binaryOperator => "binary_operator"
  | .operand => "operand"
  | .preMod => "pre_mod"
  | .postMod => "post_mod"
  | .member => "member"
  | .cast => "cast"
  | .primary => "primary"
  | .call => "call"
  | .arguments => "arguments"
  | .quaternion => "quaternion"
  | .vector => "vector"
  | .list => "list"
  | .exponent => "exponent"
  | .float => "float"
  | .integer => "integer"
  | .string => "string"

theorem kindNamed?_symbol (r : Rule) : Registry.kindNamed? r.symbol = r.kind? := by
  cases r <;> decide +kernel

theorem snakeCase_symbol (r : Rule) : Text.snakeCase r.symbol = r.field := by
  cases r <;> decide +kernel

theorem kindFor?_registry (r : Rule) : registry.kindFor? r = r.kind? := by
  rw [registry, Registry.kindFor?_build, ← kindNamed?_symbol]
  cases r <;> rfl

theorem fieldFor_registry (r : Rule) : registry.fieldFor r = r.field := by
  rw [registry, Registry.fieldFor_build, ← snakeCase_symbol]
  rfl

end Rule

/-- What the conversion takes from a child: one element, or the elements inside it as a list. Of a
raw child nothing is known but its rule. -/
inductive Item where
  | single (rule : Rule) (element : Element)
  | group (rule : Rule) (elements : List Element)
  | raw (rule : Rule)

/-- The conversion takes this item from a raw tree. -/
def Shows (tree : ParseTree Rule) : Item → Prop
  | .single r element => tree.token = r ∧ convert Rule.registry tree = .ok element
  | .group r elements => tree.token = r ∧ convertAll Rule.registry tree.children = .ok elements
  | .raw r => tree.token = r

/-- Assigns items to the fields of a node; `fillFields` of the trees that show them. -/
def fill (node : Node) : List Item → Option (Node × List Element)
  | [] => some (node, [])
  | .group r elements :: rest =>
    if node.kind.hasField r.field .list then
      (node.setList r.field elements).kept.toOption.bind fun (node, _) => fill node rest
    else none
  | .raw _ :: _ => none
  | .single r element :: rest =>
    if node.kind.hasField r.field .list then none
    else if node.kind.hasField r.field .single then
      (node.set r.field element).kept.toOption.bind fun (node, _) => fill node rest
    else if node.kind.hasField "value" .single then
      (node.set "value" element).kept.toOption.bind fun (node, _) => fill node rest
    else (fill node rest).map fun (node, overflow) => (node, element :: overflow)

/-- The node of a kind that items make up. -/
def build (kind : Kind) (items : List Item) : Option Node :=
  (fill kind.empty items).bind fun (node, overflow) =>
    if kind.acceptsOverflow then (Prod.fst <$> (node.setOverflow overflow).kept).toOption
    else if overflow.isEmpty then some node
    else none

theorem eq_ok_of_toOption {α : Type} {x : Except Error α} {a : α}
    (h : x.toOption = some a) : x = .ok a := by
  cases x with
  | ok b => cases h; rfl
  | error e => cases h

private theorem bind_eq_ok {α β : Type} {x : Except Error α} {f : α → Except Error β} {a : α}
    (h : x.toOption = some a) : (x >>= f) = f a := by
  rw [eq_ok_of_toOption h]
  rfl

theorem fillFields_of_fill {trees : List (ParseTree Rule)} {items : List Item}
    (hs : List.Forall₂ Shows trees items) {node node' : Node} {overflow : List Element}
    (hf : fill node items = some (node', overflow)) :
    fillFields Rule.registry node trees = .ok (node', overflow) := by
  induction hs generalizing node node' overflow with
  | nil => cases hf; rfl
  | @cons tree item trees items hshow _ ih =>
    obtain ⟨token, text, children⟩ := tree
    cases item with
    | group r elements =>
      obtain ⟨hr, hconvert⟩ := hshow
      cases hr
      rw [fill] at hf
      split at hf
      · next hfield =>
        obtain ⟨⟨next, old⟩, hset, hrest⟩ := Option.bind_eq_some_iff.1 hf
        rw [fillFields, Rule.fieldFor_registry, Kind.isPlural_and_hasField, if_pos hfield, hconvert]
        exact (bind_eq_ok hset).trans (ih hrest)
      · cases hf
    | raw r =>
      rw [fill] at hf
      cases hf
    | single r element =>
      obtain ⟨hr, hconvert⟩ := hshow
      cases hr
      rw [fill] at hf
      split at hf
      · cases hf
      · next hlist =>
        rw [fillFields, Rule.fieldFor_registry, Kind.isPlural_and_hasField, if_neg hlist, hconvert]
        split at hf
        · next hsingle =>
          obtain ⟨⟨next, old⟩, hset, hrest⟩ := Option.bind_eq_some_iff.1 hf
          refine (if_pos hsingle).trans ((bind_eq_ok hset).trans (ih hrest))
        · next hsingle =>
          split at hf
          · next hvalue =>
            obtain ⟨⟨next, old⟩, hset, hrest⟩ := Option.bind_eq_some_iff.1 hf
            refine (if_neg hsingle).trans ((if_pos hvalue).trans ?_)
            exact (bind_eq_ok hset).trans (ih hrest)
          · next hvalue =>
            obtain ⟨⟨next, more⟩, hrest, heq⟩ := Option.map_eq_some_iff.1 hf
            cases heq
            refine (if_neg hsingle).trans ((if_neg hvalue).trans ?_)
            rw [ih hrest]
            rfl

namespace Shows

variable {r : Rule} {text : String}

theorem node {kind : Kind} {trees : List (ParseTree Rule)} {items : List Item} {node : Node}
    (hs : List.Forall₂ Shows trees items) (hr : r.kind? = some kind)
    (hb : build kind items = some node) : Shows ⟨r, text, trees⟩ (.single r (.node node)) := by
  refine ⟨rfl, ?_⟩
  obtain ⟨⟨filled, overflow⟩, hf, hnode⟩ := Option.bind_eq_some_iff.1 hb
  unfold convert
  rw [Rule.kindFor?_registry, hr]
  dsimp only at hnode ⊢
  rw [fillFields_of_fill hs hf]
  split at hnode
  · next haccepts =>
    refine (if_pos haccepts).trans ?_
    exact bind_eq_ok hnode
  · next haccepts =>
    refine (if_neg haccepts).trans ?_
    split at hnode
    · next hempty =>
      cases hnode
      exact if_pos hempty
    · cases hnode

/-- A rule without a kind is its text if there is nothing inside it. -/
theorem leaf (hr : r.kind? = none) : Shows ⟨r, text, []⟩ (.single r (.text text)) := by
  refine ⟨rfl, ?_⟩
  rw [convert, Rule.kindFor?_registry, hr]

/-- A rule without a kind stands for the only tree inside it. -/
theorem pass {tree : ParseTree Rule} {r' : Rule} {element : Element} (hr : r.kind? = none)
    (h : Shows tree (.single r' element)) : Shows ⟨r, text, [tree]⟩ (.single r element) := by
  refine ⟨rfl, ?_⟩
  rw [convert, Rule.kindFor?_registry, hr]
  exact h.2

/-- The elements of single items are what a tree around them shows as a group. -/
theorem group {trees : List (ParseTree Rule)} {elements : List Element}
    (h : List.Forall₂ (fun tree element => ∃ r, Shows tree (.single r element)) trees elements) :
    Shows ⟨r, text, trees⟩ (.group r elements) := by
  refine ⟨rfl, ?_⟩
  dsimp only
  induction h with
  | nil => rfl
  | @cons tree element _ _ hshow _ ih =>
    obtain ⟨r, -, hconvert⟩ := hshow
    rw [convertAll, hconvert]
    dsimp only [bind, Except.bind]
    rw [ih]
    rfl

end Shows

/-! ## The words of converted children -/

/-- The words of an item. The text of a type name is not a type yet. -/
def Item.lexemes : Item → List String
  | .single r (.text text) => [if r = .typeName then spelled text else text]
  | .single _ (.node node) => node.lexemes
  | .group _ elements => elementLexemes elements
  | .raw _ => []

@[simp] theorem Item.lexemes_node (r : Rule) (node : Node) :
    (Item.single r (.node node)).lexemes = node.lexemes := rfl

@[simp] theorem Item.lexemes_ofType (r : Rule) (type : Primitive) :
    (Item.single r (.ofType type)).lexemes = [type.name] := by
  rw [Element.ofType, Item.lexemes_node, Node.lexemes]

@[simp] theorem Item.lexemes_ofBody (r : Rule) (body : Body) :
    (Item.single r (.ofBody body)).lexemes = body.lexemes := by
  rw [Element.ofBody, Item.lexemes_node, Node.lexemes]

@[simp] theorem Item.lexemes_group (r : Rule) (elements : List Element) :
    (Item.group r elements).lexemes = elementLexemes elements := rfl

@[simp] theorem Item.lexemes_text {r : Rule} (hr : r ≠ .typeName) (text : String) :
    (Item.single r (.text text)).lexemes = [text] := by
  rw [Item.lexemes, if_neg hr]

theorem Item.lexemes_single {r : Rule} (hr : r ≠ .typeName) (element : Element) :
    (Item.single r element).lexemes = element.lexemes := by
  cases element with
  | text text => rw [Item.lexemes_text hr, Element.lexemes]
  | node node => rw [Item.lexemes_node, Element.lexemes]

/-- The conversion takes this item from a raw tree, and the words of the tree with it. -/
def Carries (tree : ParseTree Rule) : Item → Prop
  | .raw r => tree.token = r
  | item => Shows tree item ∧ tree.lexemes.map spelled = item.lexemes

theorem not_raw_of_fill {items : List Item} {node : Node} {result : Node × List Element}
    (h : fill node items = some result) : ∀ r, Item.raw r ∉ items := by
  induction items generalizing node result with
  | nil => exact fun _ => List.not_mem_nil
  | cons item rest ih =>
    have hrest : ∃ node' result', fill node' rest = some result' := by
      cases item with
      | group r elements =>
        rw [fill] at h
        split at h
        · obtain ⟨_, -, hrest⟩ := Option.bind_eq_some_iff.1 h
          exact ⟨_, _, hrest⟩
        · cases h
      | raw r => cases h
      | single r element =>
        rw [fill] at h
        split at h
        · cases h
        · split at h
          · obtain ⟨_, -, hrest⟩ := Option.bind_eq_some_iff.1 h
            exact ⟨_, _, hrest⟩
          · split at h
            · obtain ⟨_, -, hrest⟩ := Option.bind_eq_some_iff.1 h
              exact ⟨_, _, hrest⟩
            · obtain ⟨_, hrest, -⟩ := Option.map_eq_some_iff.1 h
              exact ⟨_, _, hrest⟩
    obtain ⟨_, _, hrest⟩ := hrest
    intro r hr
    rcases List.mem_cons.1 hr with rfl | hr
    · cases h
    · exact ih hrest r hr

namespace Carries

variable {r : Rule} {text : String}

theorem shows {tree : ParseTree Rule} {item : Item} (h : Carries tree item) :
    Shows tree item := by
  cases item with
  | raw r => exact h
  | single | group => exact h.1

theorem forall₂_shows {trees : List (ParseTree Rule)} {items : List Item}
    (h : List.Forall₂ Carries trees items) : List.Forall₂ Shows trees items :=
  h.imp fun _ _ => shows

/-- Trees have the words of the items that they carry. -/
theorem lexemes_eq {trees : List (ParseTree Rule)} {items : List Item}
    (h : List.Forall₂ Carries trees items) (hraw : ∀ r, Item.raw r ∉ items) :
    (trees.flatMap ParseTree.lexemes).map spelled = items.flatMap Item.lexemes := by
  induction h with
  | nil => rfl
  | @cons tree item _ _ hcarries _ ih =>
    have hitem : tree.lexemes.map spelled = item.lexemes := by
      cases item with
      | raw r => exact absurd List.mem_cons_self (hraw r)
      | single | group => exact hcarries.2
    rw [List.flatMap_cons, List.flatMap_cons, List.map_append, hitem,
      ih fun r hr => hraw r (List.mem_cons_of_mem _ hr)]

theorem node {kind : Kind} {trees : List (ParseTree Rule)} {items : List Item} {node : Node}
    (hs : List.Forall₂ Carries trees items) (hr : r.kind? = some kind)
    (hb : build kind items = some node) (hwords : node.lexemes = items.flatMap Item.lexemes) :
    Carries ⟨r, text, trees⟩ (.single r (.node node)) := by
  refine ⟨.node (forall₂_shows hs) hr hb, ?_⟩
  obtain ⟨_, hfill, -⟩ := Option.bind_eq_some_iff.1 hb
  have hword : r.isLexeme = false := by
    cases r <;> first | rfl | cases hr
  rw [ParseTree.lexemes_node hword, lexemes_eq hs (not_raw_of_fill hfill), Item.lexemes_node,
    hwords]

theorem leaf (hr : r.kind? = none) (hword : r.isLexeme = true)
    (htext : r = .typeName ∨ spelled text = text) :
    Carries ⟨r, text, []⟩ (.single r (.text text)) := by
  refine ⟨.leaf hr, ?_⟩
  rw [ParseTree.lexemes_leaf hword, List.map_singleton, Item.lexemes]
  split
  · rfl
  · next hne => rw [htext.resolve_left hne]

theorem pass {tree : ParseTree Rule} {r' : Rule} {node : Node} (hr : r.kind? = none)
    (hword : r.isLexeme = false) (h : Carries tree (.single r' (.node node))) :
    Carries ⟨r, text, [tree]⟩ (.single r (.node node)) := by
  refine ⟨.pass hr h.1, ?_⟩
  rw [ParseTree.lexemes_node hword, List.flatMap_singleton, h.2]
  rfl

theorem group {trees : List (ParseTree Rule)} {nodes : List Node} (hword : r.isLexeme = false)
    (h : List.Forall₂ (fun tree node => ∃ r, Carries tree (.single r (.node node))) trees nodes) :
    Carries ⟨r, text, trees⟩ (.group r (nodes.map .node)) := by
  refine ⟨.group ?_, ?_⟩
  · rw [List.forall₂_map_right_iff]
    exact h.imp fun _ _ ⟨r, h⟩ => ⟨r, h.1⟩
  · rw [ParseTree.lexemes_node hword, Item.lexemes_group]
    induction h with
    | nil => rfl
    | cons hcarries _ ih =>
      obtain ⟨_, -, hwords⟩ := hcarries
      rw [List.flatMap_cons, List.map_append, hwords, ih]
      rfl

end Carries

end Lsl
