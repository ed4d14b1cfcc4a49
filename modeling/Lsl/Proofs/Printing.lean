import Lsl.Proofs.Arguments
import Lsl.Proofs.Peg.Nodes
import Lsl.Proofs.Roundtrip.Normal
/-!
# Printing expressions

An expression that is written out is read again, from its first to its last character, as the normal
tree of it, and with the same words.  This takes that no two neighbours run into each other: the
member operator stands between its sides without blanks, where a number or a name with a modifier
takes it up, and a vector without parentheses is first tried as a rotation, which may go on over its
closing angle.
-/

namespace Lsl

open Peg

/-! ## Comparing raw trees -/

section

variable {τ : Type} [DecidableEq τ]

mutual

def Peg.ParseTree.decEq : (tree tree' : ParseTree τ) → Decidable (tree = tree')
  | ⟨token, text, children⟩, ⟨token', text', children'⟩ =>
    have := ParseTree.decEqAll children children'
    decidable_of_iff (token = token' ∧ text = text' ∧ children = children') (by simp)

def Peg.ParseTree.decEqAll : (trees trees' : List (ParseTree τ)) → Decidable (trees = trees')
  | [], [] => isTrue rfl
  | [], _ :: _ | _ :: _, [] => isFalse nofun
  | tree :: trees, tree' :: trees' =>
    have := ParseTree.decEq tree tree'
    have := ParseTree.decEqAll trees trees'
    decidable_of_iff (tree = tree' ∧ trees = trees') (by simp)

end

instance : DecidableEq (ParseTree τ) := ParseTree.decEq

end

instance (r : Rule) (text : String) (tree : ParseTree Rule) : Decidable (ReadsAll r text tree) :=
  decidable_of_iff ((parseRule r text).toOption = some [tree] ∧ tree.text = text) <| by
    unfold ReadsAll
    cases parseRule r text <;> simp [Except.toOption]

/-! ## Types in written expressions

A type has two names, of which only one is written.  A count of letters shows that only this one is read
again: the words of a raw tree stand in the text one after the other, and between its words a written
expression has only brackets, commas and blanks. -/

theorem Peg.ParseTree.lexemes_sublist_leafText (tree : ParseTree Rule) :
    (tree.lexemes.flatMap String.toList).Sublist (leafText [tree]) := by
  have hwalk : ParseTree.walkAll [tree] = tree.walk := by
    rw [ParseTree.walkAll, ParseTree.walkAll, List.append_nil]
  rw [ParseTree.lexemes, List.flatMap_map, leafText, hwalk]
  exact (List.monotone_filter_right _ fun node h => (Bool.and_eq_true_iff.1 h).1).flatMap _

/-- The name of a type that is not written has a letter more that the written one has not. -/
theorem count_spelled (words : List String) :
    ((words.map spelled).flatMap String.toList).count 'q' + words.count "quaternion" =
      (words.flatMap String.toList).count 'q' := by
  induction words with
  | nil => rfl
  | cons word words ih =>
    rw [List.map_cons, List.flatMap_cons, List.flatMap_cons, List.count_append, List.count_append,
      List.count_cons, ← ih]
    by_cases h : word = "quaternion"
    · subst h
      have hcount : (spelled "quaternion").toList.count 'q' + 1 = "quaternion".toList.count 'q' := by
        decide
      rw [← hcount]
      simp
      omega
    · simp [spelled, h]
      omega

theorem map_spelled_of_count {words : List String} (h : words.count "quaternion" = 0) :
    words.map spelled = words := by
  rw [List.count_eq_zero] at h
  refine (List.map_congr_left fun word hword => ?_).trans (List.map_id words)
  exact if_neg fun (heq : word = "quaternion") => h (heq ▸ hword)

variable {width : Nat}

theorem count_symbolText (symbol : String) :
    (symbolText symbol).count 'q' = symbol.toList.count 'q' := by
  unfold symbolText
  split
  · next h => rw [h]; rfl
  · simp

theorem count_values {os : List Operation}
    (h : ∀ o ∈ os, (o.text width).count 'q' = (o.lexemes.flatMap String.toList).count 'q') :
    (commaText (os.map (Operation.text width))).count 'q' =
      ((elementLexemes (os.map fun o => .node (.value o))).flatMap String.toList).count 'q' := by
  induction os with
  | nil => rfl
  | cons o os ih =>
    obtain ⟨ho, hos⟩ := List.forall_mem_cons.1 h
    have hrest := ih hos
    cases os with
    | nil => simp [elementLexemes, Node.lexemes, ho]
    | cons o' os =>
      rw [List.map_cons, List.map_cons] at hrest ⊢
      rw [List.map_cons, List.map_cons, commaText_cons_cons, elementLexemes, List.flatMap_append,
        List.count_append, List.count_append, ← hrest]
      simp [Node.lexemes, ho]

theorem count_group {o : Operation} (ho : o.wellShaped = true) :
    (Element.operandText width (.node (.value o))).count 'q' = (o.text width).count 'q' := by
  rw [Element.operandText_value ho]
  split <;> simp

/-- Between its words, a written expression has only brackets, commas and blanks. -/
theorem count_cases :
    ExpressionCases
      (fun element => (element.operandText width).count 'q' =
        (element.lexemes.flatMap String.toList).count 'q')
      (fun o => (o.text width).count 'q' = (o.lexemes.flatMap String.toList).count 'q') where
  text word _ := by simp
  group o ho h := by simp [count_group ho, Node.lexemes, h]
  call name os _ h := by
    have hvalues := count_values fun o ho => (h o ho).2
    rw [Element.operandText_call name fun o ho => (h o ho).1]
    simp [Node.lexemes, hvalues]
  list os h := by
    have hvalues := count_values fun o ho => (h o ho).2
    rw [Element.operandText_list fun o ho => (h o ho).1]
    simp [Node.lexemes, hvalues]
  vector x y z h _ := by
    simp only [List.forall_mem_cons] at h
    obtain ⟨⟨hx, hlx⟩, ⟨hy, hly⟩, ⟨hz, hlz⟩, -⟩ := h
    rw [Element.operandText_vector hx hy hz]
    simp [Node.lexemes, hlx, hly, hlz]
  quaternion x y z s h _ := by
    simp only [List.forall_mem_cons] at h
    obtain ⟨⟨hx, hlx⟩, ⟨hy, hly⟩, ⟨hz, hlz⟩, ⟨hs, hls⟩, -⟩ := h
    rw [Element.operandText_quaternion hx hy hz hs]
    simp [Node.lexemes, hlx, hly, hlz, hls]
  cast type value htype hvalue h := by
    rw [Element.operandText_cast htype hvalue]
    simp [Node.lexemes, Primitive.text, h]
  preMod symbol value hsymbol hvalue h := by
    rw [Element.operandText_preMod symbol hvalue]
    have hgap : (modifierGap (value.operandText width)).count 'q' = 0 := by
      unfold modifierGap
      split
      · split <;> rfl
      · rfl
    simp [Node.lexemes, hgap, h]
  postMod symbol name hsymbol hname := by
    rw [Element.operandText_postMod]
    simp [Node.lexemes]
  leaf center _ _ h := by
    rw [Operation.text_leaf]
    simp [Operation.lexemes, h]
  binary left symbol right hleft hlevel hright h h' := by
    rw [Operation.text_binary, List.count_append, List.count_append, count_group hleft,
      count_group hright, count_symbolText, h, h']
    simp [Operation.lexemes, Node.lexemes]

/-- The words that are read from a written operation are spelled as they are written. -/
theorem lexemes_of_readsAll_render {o : Operation} (ho : o.wellShaped = true) {tree : ParseTree Rule}
    (htree : ReadsAll .value ((Node.value o).render width) tree)
    (hwords : tree.lexemes.map spelled = o.lexemes) : tree.lexemes = o.lexemes := by
  have htext : ((Node.value o).render width).toList = o.text width := rfl
  obtain ⟨c, hd, hend⟩ := derives_of_readsAll rfl htree
  obtain ⟨taken, htaken, hsub⟩ := hd.leafText_sublist
  have htaken : taken = o.text width := by
    have h := htaken.1
    rw [hend, List.append_nil] at h
    exact h.symm.trans htext
  have hle := (tree.lexemes_sublist_leafText.trans hsub).count_le 'q'
  have hcount := count_spelled tree.lexemes
  rw [htaken, count_cases.of_operation o ho] at hle
  rw [hwords] at hcount
  rw [← hwords, map_spelled_of_count (by omega)]

/-! ## What is written is read again -/

/-- A text that is read whole as a value carries a well-shaped operation. -/
theorem carries_of_readsAll {text : String} {tree : ParseTree Rule} (h : ReadsAll .value text tree) :
    ∃ o : Operation, o.wellShaped = true ∧ Carries tree (.single .value (.node (.value o))) := by
  obtain ⟨c, hd, -⟩ := derives_of_readsAll rfl h
  obtain ⟨_, hcarries, -, o, hshaped, -, rfl⟩ := hd.yields Rule.grammar_means
  exact ⟨o, hshaped, (List.forall₂_cons.1 hcarries).1⟩

/-- A printable operation is read back whole, as its normal tree. -/
theorem Operation.readsAll_render {o : Operation} (hshaped : o.wellShaped = true)
    (hprintable : o.printable (fun _ => true) = true) (width : Nat) :
    ∃ tree, ReadsAll .value ((Node.value o).render width) tree ∧
      convert Rule.registry tree = .ok (.node (.value o.normal)) := by
  have hprintable' : o.normal.printable (fun _ => true) = true := by
    rw [o.printable_normal hshaped, hprintable]
  have hread := @Rule.readsOperation_of_settled width _ o.normal (o.wellShaped_normal hshaped)
    (o.settled_normal hshaped) hprintable'
  obtain ⟨k, ts, hd, hshows⟩ := hread.reads_whole Rule.isOperation_value 0
  have htext : o.normal.text width = ((Node.value o).render width).toList := by
    rw [Node.render, ← Node.renderIn_normal, Node.normal]
    rfl
  rw [htext] at hd
  obtain ⟨tree, rfl, hall⟩ := readsAll_of_derives rfl hd rfl
  exact ⟨tree, hall, (List.forall₂_cons.1 hshows).1.2⟩

/-- Printing an expression neither fuses nor splits its words: what is written for a value is read
whole as a value with the same words, if no two of its neighbours run into each other, as they can
around a member operator and after a vector. -/
theorem lexemes_render_value {text : String} {tree : ParseTree Rule}
    (htree : ReadsAll .value text tree) :
    ∃ o : Operation, convert Rule.registry tree = .ok (.node (.value o)) ∧
      (o.printable (fun _ => true) = true → ∀ width, ∃ tree',
        ReadsAll .value ((Node.value o).render width) tree' ∧
        tree'.lexemes = tree.lexemes.map spelled) := by
  obtain ⟨o, hshaped, hshows, hwords⟩ := carries_of_readsAll htree
  refine ⟨o, hshows.2, fun hprintable width => ?_⟩
  obtain ⟨tree', htree', hconvert⟩ := o.readsAll_render hshaped hprintable width
  obtain ⟨o', -, hshows', hwords'⟩ := carries_of_readsAll htree'
  -- The tree that is read again carries what it is converted to.
  cases hconvert.symm.trans hshows'.2
  rw [Item.lexemes_node, Node.lexemes, o.lexemes_normal hshaped] at hwords'
  rw [Item.lexemes_node, Node.lexemes] at hwords
  exact ⟨tree', htree', (lexemes_of_readsAll_render hshaped htree' hwords').trans hwords.symm⟩

/-- The raw tree of a member of a signed and cast value. -/
def sampleSigned : ParseTree Rule :=
  ⟨.value, "- (quaternion) a . b",
    [⟨.preMod, "- (quaternion) a", [⟨.operator, "-", []⟩, ⟨.cast, "(quaternion) a",
      [⟨.type, "quaternion", [⟨.typeName, "quaternion", []⟩]⟩, ⟨.ident, "a", []⟩]⟩]⟩,
    ⟨.operator, ".", []⟩, ⟨.ident, "b", []⟩]⟩

def sampleSignedOperation : Operation :=
  ⟨some (.value (.leaf (.node (.preMod (some "-")
    (some (.node (.cast (some .rotation) (some (.text "a"))))))))), some (.text "."),
    some (.value (.leaf (.text "b")))⟩

theorem convert_sampleSigned :
    convert Rule.registry sampleSigned = .ok (.node (.value sampleSignedOperation)) := by
  have htype : Shows ⟨.type, "quaternion", [⟨.typeName, "quaternion", []⟩]⟩
      (.single .type (.ofType .rotation)) := .node (.cons (.leaf rfl) .nil) rfl (build_type rfl)
  have hcast : Shows ⟨.cast, "(quaternion) a", _⟩ (.single .cast (.node _)) :=
    .node (.cons htype (.cons (.leaf rfl) .nil)) rfl (@build_cast .rotation .ident rfl (.text "a"))
  have hsigned : Shows ⟨.preMod, "- (quaternion) a", _⟩ (.single .preMod (.node _)) :=
    .node (.cons (.leaf rfl) (.cons hcast .nil)) rfl (@build_preMod "-" .cast rfl _)
  have hvalue : Shows sampleSigned (.single .value (.node (.value sampleSignedOperation))) := by
    refine .node (.cons hsigned (.cons (.leaf rfl) (.cons (.leaf rfl) .nil))) rfl ?_
    exact @build_operation .value rfl (.preMod, _) [(.ident, ".", .text "b")] rfl rfl _
      (assemble_of_operands (by decide) (by decide) (by decide))
  exact hvalue.2

/-- A member of a value with a sign and a cast, written without any blank. -/
theorem lexemes_render_value_sample : ∃ tree,
    ReadsAll .value "- (quaternion) a . b" sampleSigned ∧
    convert Rule.registry sampleSigned = .ok (.node (.value sampleSignedOperation)) ∧
    sampleSignedOperation.printable (fun _ => true) = true ∧
    ReadsAll .value "-(rotation)a.b" tree ∧
    tree.lexemes = ["-", "rotation", "a", ".", "b"] := by
  have hread : ReadsAll .value "- (quaternion) a . b" sampleSigned := by decide +kernel
  have hprintable : sampleSignedOperation.printable (fun _ => true) = true := by decide +kernel
  have htext : (Node.value sampleSignedOperation).render 2 = "-(rotation)a.b" := by decide +kernel
  have hwords : sampleSigned.lexemes.map spelled = ["-", "rotation", "a", ".", "b"] := by
    decide +kernel
  obtain ⟨o, hconvert, hprinted⟩ := lexemes_render_value hread
  cases convert_sampleSigned.symm.trans hconvert
  obtain ⟨tree, htree, hsame⟩ := hprinted hprintable 2
  rw [htext] at htree
  exact ⟨tree, hread, convert_sampleSigned, hprintable, htree, hsame.trans hwords⟩

/-- The raw tree of a member operator with an integer before it. -/
def sampleMember : ParseTree Rule :=
  ⟨.value, "1 . x", [⟨.integer, "1", []⟩, ⟨.operator, ".", []⟩, ⟨.ident, "x", []⟩]⟩

def sampleMemberOperation : Operation :=
  ⟨some (.value (.leaf (.text "1"))), some (.text "."), some (.value (.leaf (.text "x")))⟩

/-- The blank that kept an integer apart from the member operator after it is not written.  What is
written starts with another number, and no value is read up to its end. -/
theorem render_value_fuses_sample :
    ReadsAll .value "1 . x" sampleMember ∧
    (∀ node ∈ sampleMember.walk, node.token ∉ [Rule.vector, .quaternion, .string]) ∧
    convert Rule.registry sampleMember = .ok (.node (.value sampleMemberOperation)) ∧
    (Node.value sampleMemberOperation).render = "1.x" ∧
    ∀ tree, ¬ ReadsAll .value (Node.value sampleMemberOperation).render tree := by
  have hshows : Shows sampleMember (.single .value (.node (.value sampleMemberOperation))) := by
    refine .node (.cons (.leaf rfl) (.cons (.leaf rfl) (.cons (.leaf rfl) .nil))) rfl ?_
    exact @build_operation .value rfl (.integer, .text "1") [(.ident, ".", .text "x")] rfl rfl _
      (assemble_of_operands (by decide) (by decide) (by decide))
  have htext : (Node.value sampleMemberOperation).render = "1.x" := by decide +kernel
  have hfloat : (parseRule .value "1.x").toOption =
      some [⟨.value, "1.", [⟨.float, "1.", []⟩]⟩] := by decide +kernel
  refine ⟨by decide +kernel, by decide +kernel, hshows.2, htext, fun tree hread => ?_⟩
  rw [htext] at hread
  rw [hread.1] at hfloat
  cases hfloat
  exact absurd hread.2 (by decide)

end Lsl
