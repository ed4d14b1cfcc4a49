import Lsl.Proofs.Grammar.Literal
import Lsl.Proofs.Peg.Visits
import Lsl.Proofs.Program
import Lsl.Proofs.Roundtrip.Operand
/-!
# Arguments

The arguments of a call are read one by one, each as it is read by itself, unless a vector or rotation
that is tried in one of them goes on across the comma after it.
-/

namespace Lsl

open Peg Pattern Lexeme

/-! ## Reading all of a text -/

/-- The rule takes all of the text, and this is its raw tree. -/
def ReadsAll (r : Rule) (text : String) (tree : ParseTree Rule) : Prop :=
  parseRule r text = .ok [tree] ∧ tree.text = text

theorem readsAll_of_derives {r : Rule} (hs : r.isSilent = false) {text : String} {c : Cursor}
    {ts : List (ParseTree Rule)}
    (h : Derives grammar false (.rule r) (.ofText text.toList) (some (c, ts))) (hend : c.rest = []) :
    ∃ tree, ts = [tree] ∧ ReadsAll r text tree := by
  obtain ⟨taken, htaken⟩ := h.spans
  obtain ⟨us, -, rfl⟩ := h.of_node hs
  refine ⟨_, rfl, ?_, ?_⟩
  · rw [parseRule, parse_of_derives h]
    rfl
  · have hrest : text.toList = taken := by
      rw [← List.append_nil taken, ← hend]
      exact htaken.1
    rw [htaken.textTo, ← hrest, String.ofList_toList]

theorem derives_of_readsAll {r : Rule} (hs : r.isSilent = false) {text : String}
    {tree : ParseTree Rule} (h : ReadsAll r text tree) :
    ∃ c, Derives grammar false (.rule r) (.ofText text.toList) (some (c, [tree])) ∧ c.rest = [] := by
  obtain ⟨hparse, htext⟩ := h
  rcases parse_cases r text.toList with ⟨c, ts, hd, hok⟩ | ⟨attempts, -, herror⟩
  · rw [parseRule, hok] at hparse
    cases hparse
    obtain ⟨taken, htaken⟩ := hd.spans
    obtain ⟨us, -, htree⟩ := hd.of_node hs
    cases htree
    rw [htaken.textTo] at htext
    have hrest : text.toList = taken ++ c.rest := htaken.1
    rw [← htext, String.toList_ofList] at hrest
    exact ⟨c, htext ▸ hd, List.self_eq_append_right.1 hrest⟩
  · rw [parseRule, herror] at hparse
    cases hparse

theorem exists_readsAll {r : Rule} {text : String}
    (h : ((parseRule r text).toOption.map fun trees => trees.map ParseTree.text) = some [text]) :
    ∃ tree, ReadsAll r text tree := by
  obtain ⟨trees, hparse, htexts⟩ := Option.map_eq_some_iff.1 h
  obtain ⟨tree, rfl, htext⟩ := List.map_eq_singleton_iff.1 htexts
  refine ⟨tree, ?_, htext⟩
  cases hresult : parseRule r text with
  | error e =>
    rw [hresult] at hparse
    cases hparse
  | ok trees =>
    rw [hresult] at hparse
    cases hparse
    rfl

/-! ## Arguments that are apart -/

/-- An argument is a value right after a parenthesis. -/
def argumentGoal (text : String) : Goal Rule :=
  ⟨false, .rule .value, ⟨0, text.toList, [['(']]⟩⟩

/-- The vectors and rotations that are tried when the text is read as an argument, with what remains
of the text where they are. -/
def triedLiterals (text : String) : List (Rule × List Char) :=
  (grammar.visits (Grammar.depthBound text.toList.length) (argumentGoal text)).filterMap fun goal =>
    match goal.pattern with
    | .rule r => if r.isLiteral then some (r, goal.start.rest) else none
    | _ => none

/-- No vector or rotation that is tried when the text is read as an argument goes on into what comes
after it. -/
def keepsLiterals (text later : String) : Bool :=
  (triedLiterals text).all fun (r, left) =>
    match parseRule r (String.ofList left ++ later) with
    | .ok trees => trees.all fun tree => tree.text.length ≤ left.length
    | .error _ => true

/-- No vector or rotation that is tried in an argument goes on across the comma after it. -/
def areApart : List String → Bool
  | text :: next :: texts =>
    keepsLiterals text ("," ++ ",".intercalate (next :: texts) ++ ")") && areApart (next :: texts)
  | _ => true

theorem mem_triedLiterals {text : String} {r : Rule} {c : Cursor} (hr : r.isLiteral = true)
    (h : Relation.ReflTransGen grammar.Calls (argumentGoal text) ⟨false, .rule r, c⟩) :
    (r, c.rest) ∈ triedLiterals text := by
  have hbounded : (argumentGoal text).Bounded Rule.ranking 1024 := rfl
  have hneeded : Rule.ranking.depth 1024 (argumentGoal text) = 1024 * text.toList.length + 51 := rfl
  have hdepth : Rule.ranking.depth 1024 (argumentGoal text) ≤
      Grammar.depthBound text.toList.length := by
    rw [hneeded, Grammar.depthBound]
    omega
  have hvisit := (Grammar.mem_visits_iff Rule.ranking_fits hbounded hdepth).2 ⟨rfl, h⟩
  exact List.mem_filterMap.2 ⟨_, hvisit, if_pos hr⟩

theorem keepsLiterals_toList {text later : String} (h : keepsLiterals text later = true) :
    Rule.KeepsLiterals (Relation.ReflTransGen grammar.Calls (argumentGoal text)) later.toList := by
  intro r c c' c₁ ts hr hgoal hc hd
  have hkeeps := List.all_eq_true.1 h _ (mem_triedLiterals hr hgoal)
  obtain ⟨k, us, hus⟩ := Rule.derives_literal_at hr hd 0
  have hparse : parseRule r (String.ofList c.rest ++ later) = .ok us := by
    rw [parseRule, String.toList_append, String.toList_ofList, ← hc, parse_of_derives hus]
    rfl
  dsimp only at hkeeps
  rw [hparse] at hkeeps
  obtain ⟨taken, htaken⟩ := hus.spans
  obtain ⟨vs, -, rfl⟩ := hus.of_node (Rule.visible_of_isLiteral hr).1
  have hlength : (String.ofList taken).length ≤ c.rest.length := by
    have hkept := List.all_eq_true.1 hkeeps _ (List.mem_singleton_self _)
    rw [htaken.textTo] at hkept
    exact of_decide_eq_true hkept
  have hspans := congrArg List.length (htaken.1.symm.trans hc)
  rw [String.length_ofList] at hlength
  simp only [List.length_append] at hspans
  omega

/-! ## Calls -/

namespace Rule

/-- The text after an argument, up to the closing parenthesis. -/
def closing : List (List Char) → List Char
  | [] => [')']
  | text :: texts => ',' :: (text ++ closing texts)

theorem closing_eq (text : List Char) (texts : List (List Char)) :
    [','].intercalate (text :: texts) ++ [')'] = text ++ closing texts := by
  induction texts generalizing text with
  | nil => simp [closing, List.intercalate]
  | cons next texts ih =>
    rw [closing, ← ih]
    simp [List.intercalate]

/-- The arguments are read as the operations where they stand. -/
inductive Arguments : List (List Char) → List Operation → Prop
  | nil : Arguments [] []
  | cons {text : List Char} {texts : List (List Char)} {o : Operation} {os : List Operation} :
      Reads (.rule .value) [['(']] (text ++ closing texts) [['(']] (closing texts)
        [.single .value (.node (.value o))] → Arguments texts os → Arguments (text :: texts) (o :: os)

theorem solid_closing (texts : List (List Char)) : Solid (closing texts) := by
  cases texts <;> exact solid_cons rfl

theorem Arguments.reads_more {texts : List (List Char)} {os : List Operation} (h : Arguments texts os) :
    Reads (.more (.seq (.word ",") (.rule .value))) [['(']] (closing texts) [['(']] [')']
      (os.map fun o => .single .value (.node (.value o))) := by
  induction h with
  | nil => exact .moreNone (solid_cons rfl).gapTo (.seqFirst (.word rfl))
  | cons hvalue _ ih =>
    exact .moreSome (solid_cons rfl).gapTo (.next (.word ",") (isOperation_value.solid hvalue) hvalue) ih

theorem Arguments.reads {texts : List (List Char)} {os : List Operation} (h : Arguments texts os) :
    Solid ([','].intercalate texts ++ [')']) ∧
      Reads (.rule .arguments) [['(']] ([','].intercalate texts ++ [')']) [['(']] [')']
        [.group .arguments (os.map fun o => .node (.value o))] := by
  obtain ⟨hsolid, hlist⟩ : Solid ([','].intercalate texts ++ [')']) ∧
      Reads (commaSeparated (.rule .value)) [['(']] ([','].intercalate texts ++ [')']) [['(']] [')']
        (os.map fun o => .single .value (.node (.value o))) := by
    cases h with
    | nil =>
      have hfails : Fails (.rule .value) [['(']] [')'] := fails_of_head rfl rfl
      exact ⟨solid_cons rfl, .optNone (.seqFirst hfails)⟩
    | @cons text texts o os hvalue hmore =>
      have hsolid := solid_closing texts
      rw [closing_eq]
      exact ⟨isOperation_value.solid hvalue,
        .altFirst (hvalue.next hsolid (.star hsolid hmore.reads_more))⟩
  refine ⟨hsolid, ?_⟩
  have hgroup := @Reads.groupNodes [['(']] [['(']] ([','].intercalate texts ++ [')']) [')'] .arguments
    (os.map fun o => (.value, .value o)) rfl rfl
  rw [nodeItems, List.map_map, List.map_map, List.map_map] at hgroup
  exact hgroup hlist

/-- The call of a name with arguments that are read where they stand. -/
theorem Arguments.reads_call {texts : List (List Char)} {os : List Operation} (h : Arguments texts os)
    {name : String} (hname : Lexeme.isName name.toList = true) :
    Reads (.rule .call) [] (name.toList ++ '(' :: ([','].intercalate texts ++ [')'])) [] []
      [.single .call (.node (.call (some name) (os.map fun o => .node (.value o))))] := by
  obtain ⟨hsolid, harguments⟩ := h.reads
  exact .node rfl (build_call name _) rfl rfl
    (.next (reads_name hname (stops_cons.2 rfl)) (solid_cons rfl) (.next (.push ['(']) hsolid
      (.next harguments (solid_cons rfl) (reads_closing solid_nil.gapTo))))

end Rule

/-! ## What calls are read as -/

/-- An argument is read where it stands as it is read by itself. -/
theorem reads_argument {text : String} {tree : ParseTree Rule} {later : List Char}
    (htree : ReadsAll .value text tree) (hslash : '/' ∉ text.toList)
    (hlater : later = [')'] ∨ (∃ rest, later = ',' :: rest) ∧
      Rule.KeepsLiterals (Relation.ReflTransGen grammar.Calls (argumentGoal text)) later) :
    ∃ o : Operation, Shows tree (.single .value (.node (.value o))) ∧
      Rule.Reads (.rule .value) [['(']] (text.toList ++ later) [['(']] later
        [.single .value (.node (.value o))] := by
  obtain ⟨c, hd, hend⟩ := derives_of_readsAll rfl htree
  obtain ⟨_, hcarries, -, o, -, -, rfl⟩ := hd.yields Rule.grammar_means
  have hshows := Carries.forall₂_shows hcarries
  refine ⟨o, (List.forall₂_cons.1 hshows).1, ?_⟩
  refine Rule.Echoes.shows ?_ hshows
  rcases hlater with rfl | ⟨⟨rest, rfl⟩, hkeeps⟩
  · exact @Rule.echoes_value _ _ _ (fun _ => True) _ trivial (Rule.inStep_value_of_close 0) _ _ _
      trivial rfl hslash rfl hd hend
  · have hlength : Rule.Below (text.toList.length + 1) text.toList := Nat.lt_succ_self _
    exact Rule.echoes_value hlength
      (Rule.inStep_value_of_keepsLiterals (fun _ _ => .tail) (.inl rfl) hkeeps _ 0) .refl rfl hslash
      rfl hd hend

theorem exists_arguments {texts : List String} {trees : List (ParseTree Rule)}
    (htrees : List.Forall₂ (ReadsAll .value) texts trees) (hslash : ∀ text ∈ texts, '/' ∉ text.toList)
    (hapart : areApart texts = true) :
    ∃ os : List Operation, Rule.Arguments (texts.map String.toList) os ∧
      List.Forall₂ Shows trees (os.map fun o => .single .value (.node (.value o))) := by
  induction htrees with
  | nil => exact ⟨[], .nil, .nil⟩
  | @cons text tree texts trees htree _ ih =>
    obtain ⟨hclear, hslashes⟩ := List.forall_mem_cons.1 hslash
    cases texts with
    | nil =>
      obtain ⟨os, harguments, hshows⟩ := ih hslashes rfl
      obtain ⟨o, hshow, hread⟩ := reads_argument htree hclear (.inl rfl)
      exact ⟨o :: os, .cons hread harguments, .cons hshow hshows⟩
    | cons next texts =>
      rw [areApart, Bool.and_eq_true] at hapart
      obtain ⟨os, harguments, hshows⟩ := ih hslashes hapart.2
      have hlater : ("," ++ ",".intercalate (next :: texts) ++ ")").toList =
          Rule.closing ((next :: texts).map String.toList) := by
        rw [String.toList_append, String.toList_append, String.toList_intercalate]
        exact congrArg (',' :: ·) (Rule.closing_eq _ _)
      have hkeeps := keepsLiterals_toList hapart.1
      rw [hlater] at hkeeps
      obtain ⟨o, hshow, hread⟩ := reads_argument htree hclear (.inr ⟨⟨_, rfl⟩, hkeeps⟩)
      exact ⟨o :: os, .cons hread harguments, .cons hshow hshows⟩

/-- Argument lists are read argument by argument: a call with texts that are values for its arguments is
read whole, and its arguments are what these values are read as, if no vector or rotation that is tried in
one of them goes on across the comma after it. -/
theorem parseRule_call {f : String} {texts : List String} {trees : List (ParseTree Rule)}
    (hf : isName f.toList = true) (htrees : List.Forall₂ (ReadsAll .value) texts trees)
    (hslash : ∀ text ∈ texts, '/' ∉ text.toList) (hapart : areApart texts = true) :
    ∃ tree elements, ReadsAll .call (f ++ "(" ++ ",".intercalate texts ++ ")") tree ∧
      convertAll Rule.registry trees = .ok elements ∧
      convert Rule.registry tree = .ok (.node (.call (some f) elements)) := by
  obtain ⟨os, harguments, hshows⟩ := exists_arguments htrees hslash hapart
  obtain ⟨k, ts, hd, hcall⟩ := harguments.reads_call hf 0
  have htext : (f ++ "(" ++ ",".intercalate texts ++ ")").toList =
      f.toList ++ '(' :: ([','].intercalate (texts.map String.toList) ++ [')']) := by
    simp [String.toList_intercalate]
  rw [← htext] at hd
  obtain ⟨tree, rfl, hall⟩ := readsAll_of_derives rfl hd rfl
  refine ⟨tree, os.map fun o => .node (.value o), hall, ?_, (List.forall₂_cons.1 hcall).1.2⟩
  have hgroup : Shows ⟨.arguments, "", trees⟩ (.group .arguments (os.map fun o => .node (.value o))) := by
    refine .group ?_
    rw [List.forall₂_map_right_iff] at hshows ⊢
    exact hshows.imp fun _ _ hshow => ⟨.value, hshow⟩
  exact hgroup.2

/-- A vector, and two comparisons whose angles would be a vector with the argument between them. -/
theorem parseRule_call_sample : ∃ trees tree elements,
    List.Forall₂ (ReadsAll .value) ["<1,2,3>", "a < b", "c", "d > e"] trees ∧
    areApart ["<1,2,3>", "a < b", "c", "d > e"] = true ∧
    ReadsAll .call "f(<1,2,3>,a < b,c,d > e)" tree ∧ convertAll Rule.registry trees = .ok elements ∧
    convert Rule.registry tree = .ok (.node (.call (some "f") elements)) := by
  obtain ⟨vector, hvector⟩ := @exists_readsAll .value "<1,2,3>" (by decide +kernel)
  obtain ⟨less, hless⟩ := @exists_readsAll .value "a < b" (by decide +kernel)
  obtain ⟨name, hname⟩ := @exists_readsAll .value "c" (by decide +kernel)
  obtain ⟨more, hmore⟩ := @exists_readsAll .value "d > e" (by decide +kernel)
  have htrees : List.Forall₂ (ReadsAll .value) ["<1,2,3>", "a < b", "c", "d > e"]
      [vector, less, name, more] := .cons hvector (.cons hless (.cons hname (.cons hmore .nil)))
  have hapart : areApart ["<1,2,3>", "a < b", "c", "d > e"] = true := by decide +kernel
  obtain ⟨tree, elements, hcall⟩ := @parseRule_call "f" ["<1,2,3>", "a < b", "c", "d > e"] _
    (by decide) htrees (by decide) hapart
  exact ⟨_, tree, elements, htrees, hapart, hcall⟩

/-- A difference with a vector in front of a comparison. As a rotation is tried before a vector, the
angle after `3.0` is taken for a comparison, and the literal ends in the other argument. -/
theorem parseRule_call_strays_sample :
    (∃ tree, ReadsAll .value "<1.0, 2.0, 3.0> - p" tree) ∧ (∃ tree, ReadsAll .value "a > b" tree) ∧
    ∀ tree, ¬ ReadsAll .call "f(<1.0, 2.0, 3.0> - p,a > b)" tree := by
  refine ⟨exists_readsAll (by decide +kernel), exists_readsAll (by decide +kernel), ?_⟩
  rintro tree ⟨hparse, -⟩
  have hfails : (parseRule .call "f(<1.0, 2.0, 3.0> - p,a > b)").toOption.isNone = true := by
    decide +kernel
  rw [hparse] at hfails
  cases hfails

end Lsl
