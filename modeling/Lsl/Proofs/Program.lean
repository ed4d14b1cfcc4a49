import Lsl.Proofs.Grammar.Shape
import Lsl.Proofs.Grammar.Simulation
/-!
# Reading programs

What a text is read as.  A text that follows the grammar has exactly one raw tree, its conversion
always succeeds, and the script it gives is well shaped; any other text is refused with a parse
error.
-/

namespace Lsl

open Peg

/-- A text either has a raw tree, which the matcher finds, or the matcher fails. -/
theorem parse_cases (r : Rule) (text : List Char) :
    (∃ c ts, Derives grammar false (.rule r) (.ofText text) (some (c, ts)) ∧
      grammar.parse r text = .ok ts) ∨
    (∃ attempts, Derives grammar false (.rule r) (.ofText text) none ∧
      grammar.parse r text = .error attempts) := by
  have hstuck := Rule.outcome_depthBound_ne_stuck r text
  have hfst := grammar.fst_run (Grammar.depthBound text.length) ⟨false, .none⟩ (.rule r)
    (.ofText text) .initial
  unfold Grammar.parse
  generalize grammar.run (Grammar.depthBound text.length) ⟨false, .none⟩ (.rule r)
    (.ofText text) .initial = run at hfst ⊢
  obtain ⟨outcome, attempts⟩ := run
  cases outcome with
  | ok c ts =>
    have hderives : Derives grammar false (.rule r) (.ofText text) (some (c, ts)) :=
      Grammar.derives_of_outcome hfst.symm
    exact .inl ⟨c, ts, hderives, rfl⟩
  | fail =>
    have hderives : Derives grammar false (.rule r) (.ofText text) none :=
      Grammar.derives_of_outcome hfst.symm
    exact .inr ⟨attempts, hderives, rfl⟩
  | stuck => exact absurd hfst.symm hstuck

/-- The raw tree of a derivation is what the matcher finds. -/
theorem parse_of_derives {r : Rule} {text : List Char} {c : Cursor} {ts : List (ParseTree Rule)}
    (h : Derives grammar false (.rule r) (.ofText text) (some (c, ts))) :
    grammar.parse r text = .ok ts := by
  rcases parse_cases r text with ⟨c', ts', h', hparse⟩ | ⟨_, h', -⟩
  · cases h.unique h'
    exact hparse
  · cases h.unique h'

/-- The rules below a script, none of which is the end of input. -/
def Rule.isInner : Rule → Bool
  | .script | .endOfInput => false
  | _ => true

theorem Rule.within_isInner (r : Rule) (hr : r.isInner = true) :
    (grammar.pattern r).within Rule.isInner = true ∧ decide (r = .endOfInput) = false := by
  cases r <;> first | (cases hr; done) | exact ⟨by decide, rfl⟩

theorem dropEndOfInput_eq {r : Rule} (hr : r.isInner = true) {c c' : Cursor}
    {ts : List (ParseTree Rule)} (h : Derives grammar false (.rule r) c (some (c', ts))) :
    dropEndOfInput ts = ts :=
  h.prune_eq Rule.within_isInner hr

/-- The raw tree of a script without its end of input holds its globals and its states. -/
theorem dropEndOfInput_script {c₁ c₂ c₃ c₄ c₅ c₆ : Cursor} {ts us vs : List (ParseTree Rule)}
    (hglobals : Derives grammar false (.rule .globals) c₁ (some (c₂, ts)))
    (hstates : Derives grammar false (.rule .states) c₃ (some (c₄, us)))
    (hend : Derives grammar false (.rule .endOfInput) c₅ (some (c₆, vs))) (text : String) :
    dropEndOfInput [⟨.script, text, ts ++ (us ++ vs)⟩] = [⟨.script, text, ts ++ us⟩] := by
  have hts' := dropEndOfInput_eq rfl hglobals
  have hus' := dropEndOfInput_eq rfl hstates
  have hvs : dropEndOfInput vs = [] := by
    obtain ⟨us, -, rfl⟩ := hend.of_node rfl
    rfl
  unfold dropEndOfInput at hts' hus' hvs ⊢
  rw [ParseTree.prune, if_neg (by simp), ParseTree.pruneInside, ParseTree.prune_append,
    ParseTree.prune_append, hts', hus', hvs, List.append_nil]
  rfl

/-- The parts of a script: globals, states and the end of the text, with gaps between them. -/
theorem parts_of_derives {c c' : Cursor} {ts : List (ParseTree Rule)}
    (h : Derives grammar false (.rule .script) c (some (c', ts))) :
    ∃ (script : Script) (c₁ c₂ c₃ c₄ : Cursor) (us vs : List (ParseTree Rule)),
      grammar.Skips c c₁ ∧ Derives grammar false (.rule .globals) c₁ (some (c₂, us)) ∧
      grammar.Skips c₂ c₃ ∧ Derives grammar false (.rule .states) c₃ (some (c₄, vs)) ∧
      grammar.Skips c₄ c' ∧ c'.rest = [] ∧
      List.Forall₂ Carries us [.group .globals (script.globals.map .node)] ∧
      List.Forall₂ Carries vs [.group .states (script.states.map fun s => .node (.state s))] ∧
      script.globals.all Node.isGlobal = true ∧ script.wellShaped = true ∧
      dropEndOfInput ts = [⟨.script, String.ofList (c.textTo c'), us ++ vs⟩] := by
  obtain ⟨us, h₁, rfl⟩ := h.of_node rfl
  obtain ⟨c₁, c₂, _, _, _, hstart, hgap₁, h₂, rfl⟩ := h₁.of_seq
  obtain ⟨c₃, c₄, us, _, _, hglobals, hgap₂, h₃, rfl⟩ := h₂.of_seq
  obtain ⟨c₅, c₆, vs, _, ws, hstates, hgap₃, hend, rfl⟩ := h₃.of_seq
  have hstart' : Derives grammar false .startOfInput c _ := .step rfl
  have hfirst := hstart.unique hstart'
  split at hfirst <;> cases hfirst
  obtain ⟨_, hlast, -⟩ := hend.of_node rfl
  have hlast' : Derives grammar false .endOfInput c₆ _ := .step rfl
  have hempty := hlast.unique hlast'
  split at hempty <;> cases hempty
  obtain ⟨_, hcarries, -, globals, hall, rfl⟩ := hglobals.yields Rule.grammar_means
  obtain ⟨_, hcarries', -, states, hall', rfl⟩ := hstates.yields Rule.grammar_means
  refine ⟨⟨globals, states⟩, c₂, c₃, c₄, c₅, us, vs, ⟨_, hgap₁⟩, hglobals, ⟨_, hgap₂⟩, hstates,
    ⟨_, hgap₃⟩, List.isEmpty_iff.1 ‹_›, hcarries, hcarries', ?_, ?_,
    dropEndOfInput_script hglobals hstates hend (String.ofList (c.textTo c'))⟩
  · rw [List.all_eq_true]
    intro node hnode
    have := (hall node hnode).1
    cases node <;> first | rfl | cases this
  · rw [Script.wellShaped, areWellShaped_eq_all, areWellShapedStates_eq_all, Bool.and_eq_true,
      List.all_eq_true, List.all_eq_true]
    refine ⟨fun node hnode => ?_, hall'⟩
    rw [(hall node hnode).1, (hall node hnode).2]
    rfl

theorem script_of_derives {c c' : Cursor} {ts : List (ParseTree Rule)}
    (h : Derives grammar false (.rule .script) c (some (c', ts))) :
    ∃ script : Script, script.wellShaped = true ∧ ∃ tree,
      dropEndOfInput ts = [tree] ∧ Carries tree (.single .script (.node (.script script))) := by
  obtain ⟨⟨globals, states⟩, _, _, _, _, us, vs, -, -, -, -, -, -, hcarries, hcarries', hall, hshaped,
    hdrop⟩ := parts_of_derives h
  refine ⟨⟨globals, states⟩, hshaped, _, hdrop,
    .node (List.rel_append hcarries hcarries') rfl (build_script states hall) ?_⟩
  simp [Node.lexemes, Script.lexemes, stateLexemes_eq_flatMap]

/-- A text is read as what its raw tree shows. -/
theorem parseScript_of_shows {source : String} {tree : ParseTree Rule} {script : Script}
    (htree : parseTree source = .ok tree)
    (hshows : Shows tree (.single .script (.node (.script script)))) :
    parseScript source = .ok script := by
  rw [parseScript, htree]
  dsimp only [convertNode, bind, Except.bind]
  rw [hshows.2]
  rfl

theorem parseScript_of_derives {source : String} {c : Cursor} {ts : List (ParseTree Rule)}
    {tree : ParseTree Rule} {script : Script}
    (h : Derives grammar false (.rule .script) (.ofText source.toList) (some (c, ts)))
    (hdrop : dropEndOfInput ts = [tree])
    (hshows : Shows tree (.single .script (.node (.script script)))) :
    parseTree source = .ok tree ∧ parseScript source = .ok script := by
  have htree : parseTree source = .ok tree := by
    rw [parseTree, parseRule, parse_of_derives h]
    dsimp only [Except.mapError, bind, Except.bind]
    rw [hdrop]
    rfl
  exact ⟨htree, parseScript_of_shows htree hshows⟩

/-- Reading a text gives a well-shaped script, or it fails in the parser already. -/
theorem parseScript_cases (source : String) :
    (∃ tree script, parseTree source = .ok tree ∧ parseScript source = .ok script ∧
      script.wellShaped = true) ∨
    (∃ line column context message,
      parseTree source = .error (.parse line column context message) ∧
      parseScript source = .error (.parse line column context message)) := by
  rcases parse_cases .script source.toList with ⟨c, ts, h, -⟩ | ⟨attempts, -, hparse⟩
  · obtain ⟨script, hshaped, tree, hdrop, hcarries⟩ := script_of_derives h
    obtain ⟨htree, hscript⟩ := parseScript_of_derives h hdrop hcarries.shows
    exact .inl ⟨tree, script, htree, hscript, hshaped⟩
  · have htree : parseTree source = .error (parseError source.toList attempts) := by
      rw [parseTree, parseRule, hparse]
      rfl
    refine .inr ⟨_, _, _, _, htree, ?_⟩
    rw [parseScript, htree]
    rfl

/-- What a text that is read as a script is made of. -/
theorem parts_of_parseScript {source : String} {script : Script}
    (h : parseScript source = .ok script) :
    ∃ (c c₁ c₂ c₃ c₄ : Cursor) (us vs : List (ParseTree Rule)),
      grammar.Skips (.ofText source.toList) c₁ ∧
      Derives grammar false (.rule .globals) c₁ (some (c₂, us)) ∧ grammar.Skips c₂ c₃ ∧
      Derives grammar false (.rule .states) c₃ (some (c₄, vs)) ∧ grammar.Skips c₄ c ∧
      c.rest = [] ∧ List.Forall₂ Shows us [.group .globals (script.globals.map .node)] ∧
      List.Forall₂ Shows vs [.group .states (script.states.map fun s => .node (.state s))] ∧
      script.globals.all Node.isGlobal = true := by
  rcases parse_cases .script source.toList with ⟨c, ts, hderives, -⟩ | ⟨attempts, -, hparse⟩
  · obtain ⟨⟨globals, states⟩, c₁, c₂, c₃, c₄, us, vs, hgap₁, hglobals, hgap₂, hstates, hgap₃, hend,
      hcarries, hcarries', hall, -, hdrop⟩ := parts_of_derives hderives
    have hshows := List.rel_append hcarries hcarries'
    have hscript := (parseScript_of_derives hderives hdrop
      (.node (Carries.forall₂_shows hshows) rfl (build_script states hall))).2
    cases h.symm.trans hscript
    exact ⟨c, c₁, c₂, c₃, c₄, us, vs, hgap₁, hglobals, hgap₂, hstates, hgap₃, hend,
      Carries.forall₂_shows hcarries, Carries.forall₂_shows hcarries', hall⟩
  · rw [parseScript, parseTree, parseRule, hparse] at h
    cases h

/-- A text with a raw tree is a script. -/
theorem exists_parseScript {source : String} (h : (parseTree source).toOption.isSome = true) :
    ∃ script, parseScript source = .ok script := by
  rcases parseScript_cases source with ⟨_, script, -, hscript, -⟩ | ⟨_, _, _, _, herror, -⟩
  · exact ⟨script, hscript⟩
  · rw [herror] at h
    cases h

/-- The pattern of a global. -/
def Rule.globalPattern : Pattern Rule :=
  .oneOf [.rule .function, .rule .variable]

/-- A text with globals and then states in it, and gaps around them, is a script. -/
theorem parseScript_of_reads {source : String} {globals : List Node} {states : List State}
    {text₁ text₂ rest₁ rest₂ : List Char} (hstart : Rule.GapTo source.toList text₁)
    (hglobals : Rule.Reads (.rule .globals) [] text₁ [] rest₁
      [.group .globals (globals.map .node)])
    (hmiddle : Rule.GapTo rest₁ text₂)
    (hstates : Rule.Reads (.rule .states) [] text₂ [] rest₂
      [.group .states (states.map fun s => .node (.state s))])
    (hend : Rule.GapTo rest₂ []) (hall : globals.all Node.isGlobal = true) :
    parseScript source = .ok ⟨globals, states⟩ := by
  obtain ⟨k₁, gs₁, hgap₁⟩ := hstart 0 []
  obtain ⟨k₂, ts, hts, hshows⟩ := hglobals k₁
  obtain ⟨k₃, gs₂, hgap₂⟩ := hmiddle k₂ []
  obtain ⟨k₄, us, hus, hshows'⟩ := hstates k₃
  obtain ⟨k₅, gs₃, hgap₃⟩ := hend k₄ []
  have hfirst : Derives grammar false .startOfInput (.ofText source.toList) _ := .step rfl
  have hlast : Derives grammar (false || grammar.isAtomic .endOfInput)
      (grammar.pattern .endOfInput) ⟨k₅, [], []⟩ (some (⟨k₅, [], []⟩, [])) := by
    have hstep : Derives grammar false .endOfInput ⟨k₅, [], []⟩ _ := .step rfl
    exact hstep
  have hend' := Derives.node rfl hlast
  have hscript : Derives grammar false (.rule .script) (.ofText source.toList) _ :=
    .node rfl (.seq hfirst hgap₁ (.seq hts hgap₂ (.seq hus hgap₃ hend')))
  exact (parseScript_of_derives hscript (dropEndOfInput_script hts hus hend' _)
    (.node (List.rel_append hshows hshows') rfl (build_script states hall))).2

/-- There is no gap between the grammar and the conversion: a text with a raw tree is a script, and
every failure to read a text is a failure of the parser. -/
theorem parseScript_ok_or_parse_error (source : String) :
    (∃ tree script, parseTree source = .ok tree ∧ parseScript source = .ok script) ∨
    (∃ line column context message,
      parseTree source = .error (.parse line column context message) ∧
      parseScript source = .error (.parse line column context message)) := by
  rcases parseScript_cases source with ⟨tree, script, htree, hscript, -⟩ | h
  · exact .inl ⟨tree, script, htree, hscript⟩
  · exact .inr h

/-- Every script that is read from a text is well shaped. -/
theorem wellShaped_of_parseScript {source : String} {script : Script}
    (h : parseScript source = .ok script) : script.wellShaped = true := by
  rcases parseScript_cases source with ⟨_, script', -, hscript, hshaped⟩ | ⟨_, _, _, _, -, herror⟩
  · cases h.symm.trans hscript
    exact hshaped
  · cases h.symm.trans herror

/-- A program with an operation, a call, a literal, a modifier and a branch. -/
theorem wellShaped_of_sample : ∃ script,
    parseScript "vector v = <1, 2, x + 3>;f(){if (a.b++ > 1) g(-x, [2]); else return;}" =
      .ok script ∧ script.wellShaped = true := by
  have htree : (parseTree
      "vector v = <1, 2, x + 3>;f(){if (a.b++ > 1) g(-x, [2]); else return;}").toOption.isSome =
      true := by decide +kernel
  rcases parseScript_cases
    "vector v = <1, 2, x + 3>;f(){if (a.b++ > 1) g(-x, [2]); else return;}" with
    ⟨_, script, -, hscript, -⟩ | ⟨_, _, _, _, herror, -⟩
  · exact ⟨script, hscript, wellShaped_of_parseScript hscript⟩
  · rw [herror] at htree
    cases htree

/-- Reading a text neither loses, nor adds, nor moves a word of it. -/
theorem lexemes_of_parseScript {source : String} {tree : ParseTree Rule} {script : Script}
    (htree : parseTree source = .ok tree) (hscript : parseScript source = .ok script) :
    tree.lexemes.map spelled = script.lexemes := by
  rcases parse_cases .script source.toList with ⟨c, ts, h, -⟩ | ⟨attempts, -, hparse⟩
  · obtain ⟨script', -, tree', hdrop, hcarries⟩ := script_of_derives h
    obtain ⟨htree', hscript'⟩ := parseScript_of_derives h hdrop hcarries.shows
    cases htree.symm.trans htree'
    cases hscript.symm.trans hscript'
    rw [hcarries.2, Item.lexemes_node, Node.lexemes]
  · rw [parseTree, parseRule, hparse] at htree
    cases htree

/-- A program in which a type has two names, an operator follows what it applies to, and the condition
of a loop follows its block. -/
theorem lexemes_of_sample : ∃ tree script,
    parseTree "quaternion q = -<1, 0, 0, x.s>;f(){do a.b++; while (x < 2 * y);}" = .ok tree ∧
    parseScript "quaternion q = -<1, 0, 0, x.s>;f(){do a.b++; while (x < 2 * y);}" = .ok script ∧
    script.lexemes = ["rotation", "q", "-", "1", "0", "0", "x", ".", "s", "f", "a.b", "++", "x", "<",
      "2", "*", "y"] := by
  have hwords : (parseTree "quaternion q = -<1, 0, 0, x.s>;f(){do a.b++; while (x < 2 * y);}"
      ).toOption.map (fun tree => tree.lexemes.map spelled) =
      some ["rotation", "q", "-", "1", "0", "0", "x", ".", "s", "f", "a.b", "++", "x", "<", "2", "*",
        "y"] := by decide +kernel
  rcases parseScript_cases "quaternion q = -<1, 0, 0, x.s>;f(){do a.b++; while (x < 2 * y);}" with
    ⟨tree, script, htree, hscript, -⟩ | ⟨_, _, _, _, herror, -⟩
  · refine ⟨tree, script, htree, hscript, ?_⟩
    rw [← lexemes_of_parseScript htree hscript]
    rw [htree] at hwords
    exact Option.some.inj hwords
  · rw [herror] at hwords
    cases hwords

end Lsl
