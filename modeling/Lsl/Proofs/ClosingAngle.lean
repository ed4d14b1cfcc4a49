import Lsl.Proofs.Grammar.Literal
import Lsl.Proofs.Peg.Nodes
import Lsl.Proofs.Program
/-!
# Closing angles

A bare `>` in the last component of a vector or rotation closes the literal: no operation there has an
operator that starts with it, unless it is inside further brackets.  The component is read while the
stack says so, whatever stands around the literal.
-/

namespace Lsl

open Peg Pattern

/-- The tokens of a raw tree below its root come from matches of their rules. -/
theorem makes_of_parseTree {source : String} {tree node : ParseTree Rule}
    (h : parseTree source = .ok tree) (hnode : node ∈ tree.walk) (hscript : node.token ≠ .script) :
    ∃ start stop, grammar.Makes start stop node := by
  rcases parse_cases .script source.toList with ⟨c, ts, hderives, -⟩ | ⟨attempts, -, hparse⟩
  · obtain ⟨script, _, _, _, _, us, vs, -, hglobals, -, hstates, -, -, hcarries, hcarries', hall, -,
      hdrop⟩ := parts_of_derives hderives
    have hshows := Carries.forall₂_shows (List.rel_append hcarries hcarries')
    cases h.symm.trans
      (parseScript_of_derives hderives hdrop (.node hshows rfl (build_script script.states hall))).1
    rw [ParseTree.walk, List.mem_cons, ParseTree.mem_walkAll_append] at hnode
    rcases hnode with rfl | hnode | hnode
    · exact absurd rfl hscript
    · exact hglobals.makes_of_mem hnode
    · exact hstates.makes_of_mem hnode
  · rw [parseTree, parseRule, hparse] at h
    cases h

namespace Rule

/-- The end of a literal, from where its last component is entered on. -/
def literalEnd : List (Pattern Rule) :=
  [pushLit ['>'], .rule .value, drop, word ">"]

theorem pattern_eq_literalEnd {r : Rule} (hr : r.isLiteral = true) :
    ∃ p front, r.pattern = cat (p :: front ++ literalEnd) := by
  cases r <;> first | (cases hr; done) | skip
  case quaternion =>
    exact ⟨_, [pushLit [','], .rule .value, word ",", .rule .value, word ",", .rule .value, drop,
      word ","], rfl⟩
  case vector =>
    exact ⟨_, [pushLit [','], .rule .value, word ",", .rule .value, drop, word ","], rfl⟩

/-- The last component is read under a closing angle. -/
theorem last_of_literalEnd {c c' : Cursor} {ts : List (ParseTree Rule)}
    (h : Derives grammar false (cat literalEnd) c (some (c', ts))) :
    ∃ start stop text children, start.stack.head? = some ['>'] ∧
      Derives grammar false (pattern .value) start (some (stop, children)) ∧
      ts = [⟨.value, text, children⟩] := by
  obtain ⟨c₁, c₂, _, _, _, hpush, hgap, h₁, rfl⟩ := h.of_seq
  obtain ⟨c₃, c₄, _, _, _, hvalue, -, h₂, rfl⟩ := h₁.of_seq
  obtain ⟨c₅, c₆, _, _, _, hdrop, -, hangle, rfl⟩ := h₂.of_seq
  obtain ⟨hpushed, rfl⟩ := hpush.of_step rfl
  obtain ⟨-, rfl⟩ := hdrop.of_step rfl
  obtain ⟨-, rfl⟩ := hangle.of_step rfl
  obtain ⟨children, hchildren, rfl⟩ := hvalue.of_node rfl
  refine ⟨c₂, c₃, _, children, ?_, hchildren, rfl⟩
  rw [skips_stack ⟨_, hgap⟩, ← Option.some.inj hpushed]
  rfl

private theorem exists_of_forall₂_mem {α β : Type} {R : α → β → Prop} {as : List α} {bs : List β}
    (h : List.Forall₂ R as bs) {a : α} (ha : a ∈ as) : ∃ b ∈ bs, R a b := by
  induction h with
  | nil => cases ha
  | @cons a' b _ _ hab _ ih =>
    rcases List.mem_cons.1 ha with rfl | ha
    · exact ⟨b, List.mem_cons_self, hab⟩
    · obtain ⟨b, hb, hab⟩ := ih ha
      exact ⟨b, List.mem_cons_of_mem _ hb, hab⟩

/-- The text of an operator is the operator that it shows. -/
theorem text_of_shows {tree : ParseTree Rule} {symbol : String} (hleaf : tree.children = [])
    (h : Shows tree (.single .operator (.text symbol))) : tree.text = symbol := by
  obtain ⟨token, text, children⟩ := tree
  cases hleaf
  obtain ⟨rfl, hconvert⟩ := h
  have htext : Shows ⟨.operator, text, []⟩ (.single .operator (.text text)) := .leaf rfl
  cases hconvert.symm.trans htext.2
  rfl

/-- Under a closing angle an operation has no operator that closes the literal. -/
theorem not_closing_of_derives {c c' : Cursor} {ts : List (ParseTree Rule)}
    (htop : c.stack.head? = some ['>'])
    (h : Derives grammar false operationPattern c (some (c', ts))) {tree : ParseTree Rule}
    (htree : tree ∈ ts) (htoken : tree.token = .operator) (hleaf : tree.children = []) :
    isClosingOperator tree.text = false := by
  obtain ⟨items, hcarries, hyields⟩ := h.yields grammar_means
  obtain ⟨first, rounds, hfirst, -, hoperands, -, hfits, rfl⟩ := run_of_yields hyields
  obtain ⟨item, hitem, hcarry⟩ := exists_of_forall₂_mem hcarries htree
  have hoperand (r : Rule) (element : Element) (hr : r.isOperand = true) :
      item ≠ .single r element := by
    rintro rfl
    rw [← hcarry.shows.1, htoken] at hr
    cases hr
  rcases List.mem_cons.1 hitem with rfl | hitem
  · exact absurd rfl (hoperand _ _ hfirst)
  · obtain ⟨round, hround, hitem⟩ := List.mem_flatMap.1 hitem
    simp only [List.mem_cons, List.not_mem_nil, or_false] at hitem
    rcases hitem with rfl | rfl
    · rw [text_of_shows hleaf hcarry.shows]
      have hround := List.all_eq_true.1 (hfits htop) _ (List.mem_map_of_mem hround)
      simpa using hround
    · exact absurd rfl (hoperand _ _ (List.all_eq_true.1 hoperands round hround))

end Rule

/-- The last component of a vector or rotation, wherever it stands in a program, has no operator of its
own that is `>` or `>>`. -/
theorem last_component_not_closing {source : String} {tree node : ParseTree Rule}
    (h : parseTree source = .ok tree) (hnode : node ∈ tree.walk)
    (hliteral : node.token = .vector ∨ node.token = .quaternion) :
    ∃ last, (node.children.filter fun child => child.token = .value).getLast? = some last ∧
      ∀ child ∈ last.children, child.token = .operator → child.text ≠ ">" ∧ child.text ≠ ">>" := by
  have hliteral : Rule.isLiteral node.token = true := by
    rcases hliteral with htoken | htoken <;> rw [htoken] <;> rfl
  have hscript : node.token ≠ .script := by
    intro htoken
    rw [htoken] at hliteral
    cases hliteral
  obtain ⟨start, stop, hmakes⟩ := makes_of_parseTree h hnode hscript
  obtain ⟨p, front, hpattern⟩ := Rule.pattern_eq_literalEnd hliteral
  have hinside : Derives grammar false (cat (p :: front ++ Rule.literalEnd)) start
      (some (stop, node.children)) := by
    rw [← hpattern, ← (Rule.visible_of_isLiteral hliteral).2]
    exact hmakes.inside
  obtain ⟨_, _, components, _, _, -, -, hend, hchildren⟩ := (Derives.cat_append.1 hinside).of_seq
  obtain ⟨start', stop', text, children, htop, hvalue, rfl⟩ := Rule.last_of_literalEnd hend
  refine ⟨⟨.value, text, children⟩, by simp [hchildren], fun child hchild htoken => ?_⟩
  have hleaf : child.children = [] := by
    have hmem : child ∈ ParseTree.walkAll children := by
      rw [ParseTree.walkAll_eq_flatMap, List.mem_flatMap]
      exact ⟨child, hchild, by cases child; simp [ParseTree.walk]⟩
    obtain ⟨_, _, hoperator⟩ := hvalue.makes_of_mem hmem
    have hinside := hoperator.inside
    rw [htoken] at hinside
    exact hinside.trees_eq_nil
  have hclosing := Rule.not_closing_of_derives htop hvalue hchild htoken hleaf
  simpa [isClosingOperator] using hclosing

/-- A vector with angles inside brackets in its last component, and one after it. -/
theorem last_component_not_closing_sample : ∃ tree node,
    parseTree "f(){x = <1, 2, g(a > b) >= (c >> d)> >> 3;}" = .ok tree ∧ node ∈ tree.walk ∧
    node.token = .vector ∧ ∃ last,
      (node.children.filter fun child => child.token = .value).getLast? = some last ∧
      ∀ child ∈ last.children, child.token = .operator → child.text ≠ ">" ∧ child.text ≠ ">>" := by
  have hliteral : (parseTree "f(){x = <1, 2, g(a > b) >= (c >> d)> >> 3;}").toOption.any (fun tree =>
      tree.walk.any fun node => node.token == .vector) = true := by decide +kernel
  cases h : parseTree "f(){x = <1, 2, g(a > b) >= (c >> d)> >> 3;}" with
  | error e =>
    rw [h] at hliteral
    cases hliteral
  | ok tree =>
    rw [h] at hliteral
    obtain ⟨node, hnode, htoken⟩ := List.any_eq_true.1 hliteral
    have htoken := beq_iff_eq.1 htoken
    exact ⟨tree, node, rfl, hnode, htoken, last_component_not_closing h hnode (.inl htoken)⟩

end Lsl
