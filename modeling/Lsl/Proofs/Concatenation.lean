import Lsl.Proofs.Grammar.Enclosed
import Lsl.Proofs.Roundtrip.Script
import Mathlib.Data.Set.List
/-!
# Programs one after the other

Every global and every state of a program ends where it closes: what comes after it plays no role in
how it is read.  So a program is a series of globals and a series of states, and the text of a program
after that of another is read as both programs, as long as no global comes after a state.
-/

namespace Lsl

open Peg Pattern Lexeme

namespace Rule

/-! ## Items that end by themselves -/

/-- The match starts with the character, and takes the same from any text that goes on otherwise. -/
def Opens (x : Char) (p : Pattern Rule) (c c' : Cursor) (ts : List (ParseTree Rule)) : Prop :=
  ∃ taken, c.rest = x :: (taken ++ c'.rest) ∧
    ∀ rest, Echoes p [] (x :: (taken ++ rest)) [] rest ts

/-- After a gap the match takes the same from any text that goes on otherwise. -/
def Sealed (p : Pattern Rule) (text rest : List Char) (ts : List (ParseTree Rule)) : Prop :=
  ∃ taken, text = taken ++ rest ∧ ∀ rest', Echoes p [] (afterGap (taken ++ rest')) [] rest' ts

section

variable {p : Pattern Rule} {c c' : Cursor} {ts : List (ParseTree Rule)} {text : List Char}

theorem rest_of_word {text : String} (h : Derives grammar false (word text) c (some (c', ts))) :
    c.rest = text.toList ++ c'.rest ∧ c'.stack = c.stack ∧ ts = [] := by
  obtain ⟨hspans, hstack⟩ := Cursor.accept?_eq_some h.of_lit
  cases h.unique (.lit hspans hstack)
  exact ⟨hspans.1, hstack, rfl⟩

theorem opens_semicolon (h : Derives grammar false (word ";") c (some (c', ts))) :
    Opens ';' (word ";") c c' ts := by
  obtain ⟨hrest, -, rfl⟩ := rest_of_word h
  exact ⟨[], hrest, fun rest => .lit [';']⟩

/-- Braces open, and close what is between them. -/
theorem opens_braces (hp : standsBefore '\x7d' p = true) (hstack : c.stack = [])
    (h : Derives grammar false (cat [word "\x7b", p, word "\x7d"]) c (some (c', ts))) :
    Opens '\x7b' (cat [word "\x7b", p, word "\x7d"]) c c' ts := by
  obtain ⟨c₁, c₂, _, _, _, hopen, hgap, hinner, rfl⟩ := h.of_seq
  obtain ⟨c₃, c₄, us, gs, _, hbetween, hgap', hclose, rfl⟩ := hinner.of_seq
  obtain ⟨hrest, hstack₁, rfl⟩ := rest_of_word hopen
  obtain ⟨hrest', -, rfl⟩ := rest_of_word hclose
  obtain ⟨hrest₂, hstack₂⟩ := afterGap_of_derives hgap
  obtain ⟨head, hhead, hechoes⟩ := echoes_of_close (List.mem_of_elem_eq_true rfl) hrest₂.symm hbetween
    ⟨gs, hgap'⟩ hrest' hp (by rw [hstack₂, hstack₁, hstack])
  refine ⟨head ++ ['\x7d'], ?_, fun rest => ?_⟩
  · rw [hrest, hhead, List.append_assoc]
    rfl
  · obtain ⟨left, hleft, hafter⟩ := hechoes rest
    have hfirst : Echoes (word "\x7b") [] _ [] (head ++ '\x7d' :: rest) [] := .lit ['\x7b']
    have hlast : Echoes (word "\x7d") [] (afterGap left) [] rest [] := by
      rw [hafter]
      exact .lit ['\x7d']
    rw [List.append_assoc]
    exact hfirst.seq (hleft.seq hlast)

/-- A match up to where the rest opens is sealed if the rest is. -/
theorem sealed_of_opens {x : Char} (hx : x ∈ closers) {q : Pattern Rule} {ps qs : List (Pattern Rule)}
    (hp : standsBefore x (cat (p :: ps)) = true) (htext : afterGap text = c.rest)
    (hstack : c.stack = [])
    (h : Derives grammar false (cat (p :: ps ++ q :: qs)) c (some (c', ts)))
    (hq : ∀ {c₁ : Cursor} {us : List (ParseTree Rule)}, c₁.stack = [] →
      Derives grammar false (cat (q :: qs)) c₁ (some (c', us)) →
      Opens x (cat (q :: qs)) c₁ c' us) :
    Sealed (cat (p :: ps ++ q :: qs)) text c'.rest ts := by
  obtain ⟨c₁, c₂, us, gs, vs, hfirst, hgap, hsecond, rfl⟩ := (Derives.cat_append.1 h).of_seq
  have hbalanced : (cat (p :: ps)).pending 0 = some 0 := by
    simp only [standsBefore, Bool.and_eq_true, beq_iff_eq] at hp
    exact hp.2
  have hstack₂ : c₂.stack = [] := by
    rw [(afterGap_of_derives hgap).2, hfirst.stack_eq grammar_balanced hbalanced, hstack]
  obtain ⟨taken, hrest, hechoes⟩ := hq hstack₂ hsecond
  obtain ⟨head, hhead, hechoes'⟩ := echoes_of_close hx htext hfirst ⟨gs, hgap⟩ hrest hp hstack
  refine ⟨head ++ x :: taken, by rw [hhead, List.append_assoc, List.cons_append], fun rest k => ?_⟩
  obtain ⟨left, hleft, hafter⟩ := hechoes' (taken ++ rest)
  have hlast := hechoes rest
  rw [← hafter] at hlast
  obtain ⟨k', ws, hws, halike⟩ := hleft.seq hlast k
  rw [List.append_assoc, List.cons_append]
  exact ⟨k', ws, Derives.cat_append.2 hws, halike⟩

theorem Sealed.rule {r : Rule} (hs : r.isSilent = false) (ha : r.isAtomic = false) {rest : List Char}
    (h : Derives grammar false (.rule r) c (some (c', ts)))
    (hsealed : ∀ {us : List (ParseTree Rule)},
      Derives grammar false r.pattern c (some (c', us)) → Sealed r.pattern text rest us) :
    Sealed (.rule r) text rest ts := by
  obtain ⟨us, hd, rfl⟩ := h.of_node hs
  have ha' : grammar.isAtomic r = false := ha
  rw [ha'] at hd
  obtain ⟨taken, htaken, hechoes⟩ := hsealed hd
  exact ⟨taken, htaken, fun rest' => .node hs ha hd (hechoes rest')⟩

theorem sealed_variable (htext : afterGap text = c.rest) (hstack : c.stack = [])
    (h : Derives grammar false (.rule .variable) c (some (c', ts))) :
    Sealed (.rule .variable) text c'.rest ts := by
  refine .rule rfl rfl h fun hd => ?_
  exact @sealed_of_opens _ c c' _ text ';' (by decide) (word ";")
    [.rule .name, opt (cat [word "=", .rule .value])] [] (by decide) htext hstack hd
    fun _ => opens_semicolon

/-- The body of a function opens with a brace. -/
theorem opens_body (hstack : c.stack = [])
    (h : Derives grammar false (cat [ahead (word "\x7b"), .rule .body]) c (some (c', ts))) :
    Opens '\x7b' (cat [ahead (word "\x7b"), .rule .body]) c c' ts := by
  obtain ⟨c₁, c₂, _, _, us, hahead, hgap, hbody, rfl⟩ := h.of_seq
  obtain ⟨⟨⟨c₃, _⟩, hopen⟩, rfl, rfl⟩ := hahead.of_ahead
  have hrest : c₁.rest = '\x7b' :: c₃.rest := (rest_of_word hopen).1
  have hsolid (rest : List Char) : takePiece? ('\x7b' :: rest) = none :=
    takePiece?_of_solid (solid_cons rfl)
  obtain ⟨hrest₂, hstack₂⟩ := afterGap_of_derives hgap
  rw [hrest, afterGap_of_none (hsolid _)] at hrest₂
  obtain ⟨vs, hd, rfl⟩ := hbody.of_node rfl
  rcases hd.of_alt with hbraces | hsimple
  · obtain ⟨taken, htaken, hechoes⟩ :=
      opens_braces (by decide) (hstack₂.trans hstack) hbraces
    refine ⟨taken, by rw [hrest, ← hrest₂, htaken], fun rest => ?_⟩
    have hbody' : Echoes (.rule .body) [] (afterGap ('\x7b' :: (taken ++ rest))) [] rest
        (ParseTree.wrap false .body c₂ c' vs) := by
      rw [afterGap_of_none (hsolid _)]
      exact .node rfl rfl hd (.altFirst (hechoes rest))
    exact (Echoes.ahead (.lit ['\x7b'])).seq hbody'
  · obtain ⟨y, rest, hy, hstarts⟩ := starts_of_derives rfl hsimple
    rw [hrest₂] at hy
    cases hy
    cases hstarts

theorem sealed_function (htext : afterGap text = c.rest) (hstack : c.stack = [])
    (h : Derives grammar false (.rule .function) c (some (c', ts))) :
    Sealed (.rule .function) text c'.rest ts := by
  refine .rule rfl rfl h fun hd => ?_
  exact @sealed_of_opens _ c c' _ text '\x7b' (by decide) (ahead (word "\x7b"))
    [.rule .name, word "(", .rule .params, word ")"] [.rule .body] (by decide) htext hstack hd
    opens_body

theorem sealed_state (htext : afterGap text = c.rest) (hstack : c.stack = [])
    (h : Derives grammar false (.rule .state) c (some (c', ts))) :
    Sealed (.rule .state) text c'.rest ts := by
  refine .rule rfl rfl h fun hd => ?_
  exact @sealed_of_opens _ c c' _ text '\x7b' (by decide) (word "\x7b")
    [oneOf [word "default", cat [word "state", .rule .name]]] [.rule .events, word "\x7d"]
    (by decide) htext hstack hd (opens_braces (by decide))

/-! ## Items that are told apart -/

/-- No function is where a variable is: after the name it has a parenthesis. -/
theorem fails_function_of_derives (h : Derives grammar false (.rule .variable) c (some (c', ts))) :
    Derives grammar false (.rule .function) c none := by
  obtain ⟨res, hfunction⟩ := exists_derives false .function c
  cases res with
  | none => exact hfunction
  | some result =>
    obtain ⟨us, hd, -⟩ := h.of_node rfl
    obtain ⟨_, _, _, _, _, htype, hgap₁, hd₁, -⟩ := hd.of_seq
    obtain ⟨_, c₄, _, _, _, hname, hgap₂, hd₂, -⟩ := hd₁.of_seq
    obtain ⟨c₅, c₆, _, _, _, hvalue, hgap₃, hsemicolon, -⟩ := hd₂.of_seq
    obtain ⟨us', hd', -⟩ := hfunction.of_node rfl
    obtain ⟨_, _, _, _, _, htype', hgap₁', hd₁', -⟩ := hd'.of_seq
    cases (Derives.altFirst htype).unique htype'
    cases hgap₁.unique hgap₁'
    obtain ⟨_, _, _, _, _, hname', hgap₂', hd₂', -⟩ := hd₁'.of_seq
    cases hname.unique hname'
    cases hgap₂.unique hgap₂'
    obtain ⟨c₇, _, _, _, _, hparen, -, -, -⟩ := hd₂'.of_seq
    have hrest : c₄.rest = '(' :: c₇.rest := (rest_of_word hparen).1
    rcases hvalue.of_alt with hvalue | hnone
    · obtain ⟨c₈, _, _, _, _, hequals, -, -, -⟩ := hvalue.of_seq
      have hrest' : c₄.rest = '=' :: c₈.rest := (rest_of_word hequals).1
      cases hrest.symm.trans hrest'
    · have hrest₅ : c₄.rest = c₅.rest := (@rest_of_word _ _ _ "" hnone).1
      have hrest₆ := (afterGap_of_derives hgap₃).1
      rw [← hrest₅, hrest, afterGap_of_none (takePiece?_of_solid (solid_cons rfl)),
        (rest_of_word hsemicolon).1] at hrest₆
      cases hrest₆

theorem keyword_of_derives (h : Derives grammar false (.rule .keyword) c (some (c', ts))) :
    ∃ (word : String) (rest : List Char), c.rest = word.toList ++ rest ∧
      isKeyword word.toList = true ∧ Stops isNameChar rest := by
  have hkeyword : isKeyword (c.rest.takeWhile isNameChar) = true := by
    rw [← Bool.not_eq_false]
    intro hnone
    have hfail : Fails (.rule .keyword) c.stack c.rest :=
      .of_scans scans_keyword rfl rfl (if_neg (by rw [hnone]; exact Bool.false_ne_true))
    cases h.unique (hfail c.position)
  refine ⟨String.ofList (c.rest.takeWhile isNameChar), _, ?_, ?_, stops_dropWhile isNameChar c.rest⟩
  · rw [String.toList_ofList, List.takeWhile_append_dropWhile]
  · rwa [String.toList_ofList]

/-- A keyword that starts like one of a state names no type. -/
theorem not_typeName_of_state {word text : String} (hword : isKeyword word.toList = true)
    (htext : text = "default" ∨ text = "state")
    (hpre : text.toList.isPrefixOf word.toList = true) : typeNames.contains word = false := by
  have hall : ∀ word ∈ keywords, ("default".toList.isPrefixOf word.toList = true ∨
      "state".toList.isPrefixOf word.toList = true) → typeNames.contains word = false := by decide
  obtain ⟨keyword, hmem, heq⟩ := List.mem_map.1 (List.contains_iff_mem.1 hword)
  obtain rfl := String.toList_injective heq
  refine hall _ hmem ?_
  rcases htext with rfl | rfl
  · exact .inl hpre
  · exact .inr hpre

/-- No global is where a state is: a state starts with a keyword that names no type. -/
theorem fails_global_of_derives (h : Derives grammar false (.rule .state) c (some (c', ts))) :
    Fails globalPattern [] c.rest := by
  obtain ⟨us, hd, -⟩ := h.of_node rfl
  obtain ⟨c₁, c₂, _, _, _, hahead, hgap, hd₁, -⟩ := hd.of_seq
  obtain ⟨_, _, _, _, _, hhead, -, -, -⟩ := hd₁.of_seq
  obtain ⟨⟨_, hkeyword⟩, rfl, -⟩ := hahead.of_ahead
  obtain ⟨word, rest, hword, hkeyword, hstops⟩ := keyword_of_derives hkeyword
  have hsame : c₂.rest = word.toList ++ rest := by
    rw [(afterGap_of_derives hgap).1, hword]
    exact afterGap_of_none (takePiece?_of_solid (solid_keyword hkeyword))
  have hstart : ∃ text, (text = "default" ∨ text = "state") ∧
      text.toList.isPrefixOf (word.toList ++ rest) = true := by
    rw [← hsame]
    rcases hhead.of_alt with hdefault | hstate
    · rw [(rest_of_word hdefault).1]
      exact ⟨_, .inl rfl, List.isPrefixOf_iff_prefix.2 (List.prefix_append ..)⟩
    · obtain ⟨_, _, _, _, _, hstate, -, -, -⟩ := hstate.of_seq
      rw [(rest_of_word hstate).1]
      exact ⟨_, .inr rfl, List.isPrefixOf_iff_prefix.2 (List.prefix_append ..)⟩
  obtain ⟨text, htext, hpre⟩ := hstart
  have hchars : text.toList.all isNameChar = true := by
    rcases htext with rfl | rfl <;> decide
  rw [isPrefixOf_append_of_stops hchars hstops] at hpre
  rw [hword]
  exact fails_global_of_keyword hkeyword (not_typeName_of_state hkeyword htext hpre) hstops

end

/-! ## Series of items -/

/-- After a gap the text has an item, which is read the same whatever comes after it. -/
def HasItem (p : Pattern Rule) (taken : List Char) (item : Rule × Node) : Prop :=
  ∀ rest, Reads p [] (afterGap (taken ++ rest)) [] rest [.single item.1 (.node item.2)]

/-- From a text to a rest there are items, with gaps in front of them. -/
inductive Series (p : Pattern Rule) : List Char → List Char → List (Rule × Node) → Prop
  | done (text : List Char) : Series p text text []
  | next {taken rest rest' : List Char} {item : Rule × Node} {items : List (Rule × Node)} :
      HasItem p taken item → Series p rest rest' items →
      Series p (taken ++ rest) rest' (item :: items)

section

variable {p : Pattern Rule} {text rest rest' : List Char} {items items' : List (Rule × Node)}

namespace Series

theorem eq_of_nil (h : Series p text rest []) : text = rest := by
  generalize hnil : ([] : List (Rule × Node)) = items at h
  cases h with
  | done => rfl
  | next => cases hnil

/-- More text may follow. -/
theorem append (h : Series p text rest items) (tail : List Char) :
    Series p (text ++ tail) (rest ++ tail) items := by
  induction h with
  | done text => exact .done _
  | next hitem _ ih =>
    rw [List.append_assoc]
    exact .next hitem ih

theorem trans (h : Series p text rest items) (h' : Series p rest rest' items') :
    Series p text rest' (items ++ items') := by
  induction h with
  | done text => exact h'
  | next hitem _ ih => exact .next hitem (ih h')

/-- A gap may come first. It stays if there are no items. -/
theorem afterGap {gap : List Char} (hgap : ∀ text, Rule.afterGap (gap ++ text) = Rule.afterGap text)
    (h : Series p text rest items) : ∃ gap', (∀ text, Rule.afterGap (gap' ++ text) = Rule.afterGap text) ∧
      Series p (gap ++ text) (gap' ++ rest) items := by
  cases h with
  | done text => exact ⟨gap, hgap, .done _⟩
  | @next taken rest _ _ _ hitem hseries =>
    refine ⟨[], fun _ => rfl, ?_⟩
    rw [← List.append_assoc]
    refine .next (fun tail => ?_) hseries
    rw [List.append_assoc, hgap]
    exact hitem tail

theorem reads_more (h : Series p text rest items) (hfails : Fails p [] (Rule.afterGap rest)) :
    Reads (.more p) [] text [] rest (nodeItems items) := by
  induction h with
  | done text => exact .moreNone (gapTo_afterGap _) hfails
  | next hitem _ ih => exact .moreSome (gapTo_afterGap _) (hitem _) (ih hfails)

theorem reads_star (h : Series p text rest items) (hfails : Fails p [] (Rule.afterGap rest)) :
    ∃ stop, Rule.afterGap stop = Rule.afterGap rest ∧
      Reads (.star p) [] (Rule.afterGap text) [] stop (nodeItems items) := by
  cases h with
  | done text =>
    exact ⟨_, afterGap_of_none (takePiece?_afterGap _), .starNone hfails⟩
  | next hitem hseries =>
    exact ⟨rest, rfl, .starSome (hitem _) (hseries.reads_more hfails)⟩

/-- Where a series ends that cannot go on is determined by where it starts. -/
theorem unique (h : Series p text rest items) (h' : Series p text rest' items')
    (hfails : Fails p [] (Rule.afterGap rest)) (hfails' : Fails p [] (Rule.afterGap rest')) :
    rest = rest' := by
  obtain ⟨_, _, hd, -⟩ := h.reads_more hfails 0
  exact ((h'.reads_more hfails').unique hd).2

end Series

/-- A repetition of items that end by themselves is a series of them. -/
theorem exists_series_more {P : Node → Prop} (hbalanced : p.pending 0 = some 0)
    (hp : ∀ {c c' : Cursor} {ts : List (ParseTree Rule)} {text : List Char},
      afterGap text = c.rest → c.stack = [] → Derives grammar false p c (some (c', ts)) →
      ∃ taken item, text = taken ++ c'.rest ∧ HasItem p taken item ∧ P item.2)
    {c c' : Cursor} {ts : List (ParseTree Rule)}
    (h : Derives grammar false (.more p) c (some (c', ts))) (hstack : c.stack = []) :
    ∃ items, Series p c.rest c'.rest items ∧ ∀ item ∈ items, P item.2 := by
  generalize hres : (some (c', ts) : Result Rule) = res at h
  generalize hq : Pattern.more p = q at h
  generalize hatomic : false = atomic at h
  induction h generalizing ts with
  | step hf =>
    subst hq
    cases hf
  | moreBetween | moreNone =>
    cases hres
    exact ⟨[], .done _, nofun⟩
  | moreSome hgap hitem _ _ _ ih =>
    cases hres
    cases hq
    subst hatomic
    obtain ⟨hrest₁, hstack₁⟩ := afterGap_of_derives hgap
    have hstack₂ := hitem.stack_eq grammar_balanced hbalanced
    obtain ⟨taken, item, htaken, hhas, hP⟩ := hp hrest₁.symm (hstack₁.trans hstack) hitem
    obtain ⟨items, hseries, hPs⟩ := ih (hstack₂.trans (hstack₁.trans hstack)) rfl rfl rfl
    rw [htaken]
    exact ⟨item :: items, .next hhas hseries, List.forall_mem_cons.2 ⟨hP, hPs⟩⟩
  | _ => cases hq

theorem exists_series {P : Node → Prop} (hbalanced : p.pending 0 = some 0)
    (hp : ∀ {c c' : Cursor} {ts : List (ParseTree Rule)} {text : List Char},
      afterGap text = c.rest → c.stack = [] → Derives grammar false p c (some (c', ts)) →
      ∃ taken item, text = taken ++ c'.rest ∧ HasItem p taken item ∧ P item.2)
    {c c' : Cursor} {ts : List (ParseTree Rule)} (htext : afterGap text = c.rest)
    (h : Derives grammar false (.star p) c (some (c', ts))) (hstack : c.stack = []) :
    ∃ rest items, afterGap rest = afterGap c'.rest ∧ Series p text rest items ∧
      ∀ item ∈ items, P item.2 := by
  rcases h.of_star with ⟨-, rfl, -⟩ | ⟨c₁, _, _, hitem, hmore, -⟩
  · refine ⟨text, [], ?_, .done _, nofun⟩
    rw [← htext]
    exact (afterGap_of_none (takePiece?_afterGap _)).symm
  · obtain ⟨taken, item, htaken, hhas, hP⟩ := hp htext hstack hitem
    have hstack₁ := hitem.stack_eq grammar_balanced hbalanced
    obtain ⟨items, hseries, hPs⟩ := exists_series_more hbalanced hp hmore (hstack₁.trans hstack)
    rw [htaken]
    exact ⟨c'.rest, item :: items, rfl, .next hhas hseries, List.forall_mem_cons.2 ⟨hP, hPs⟩⟩

/-! ## Globals and states -/

variable {c c' : Cursor} {ts : List (ParseTree Rule)}

theorem Sealed.hasItem (h : Sealed p text rest ts) {r : Rule} {node : Node}
    (hts : List.Forall₂ Carries ts [.single r (.node node)]) :
    ∃ taken, text = taken ++ rest ∧ HasItem p taken (r, node) := by
  obtain ⟨taken, htaken, hechoes⟩ := h
  exact ⟨taken, htaken, fun rest => (hechoes rest).shows (Carries.forall₂_shows hts)⟩

theorem sealed_global (htext : afterGap text = c.rest) (hstack : c.stack = [])
    (h : Derives grammar false globalPattern c (some (c', ts))) :
    Sealed globalPattern text c'.rest ts := by
  rcases h.of_alt with hfunction | hvariable
  · obtain ⟨taken, htaken, hechoes⟩ := sealed_function htext hstack hfunction
    exact ⟨taken, htaken, fun rest => .altFirst (hechoes rest)⟩
  · obtain ⟨taken, htaken, hechoes⟩ := sealed_variable htext hstack hvariable
    refine ⟨taken, htaken, fun rest => .altSecond (fun k => ?_) (hechoes rest)⟩
    obtain ⟨_, _, hd, -⟩ := hechoes rest k
    exact fails_function_of_derives hd

theorem hasItem_global (htext : afterGap text = c.rest) (hstack : c.stack = [])
    (h : Derives grammar false globalPattern c (some (c', ts))) :
    ∃ taken item, text = taken ++ c'.rest ∧ HasItem globalPattern taken item ∧
      item.2.isGlobal = true := by
  have hsealed := sealed_global htext hstack h
  obtain ⟨items, hcarries, hyields⟩ := h.yields grammar_means
  rcases hyields with ⟨-, function, -, rfl⟩ | ⟨-, node, hkind, -, rfl⟩
  · obtain ⟨taken, htaken, hitem⟩ := hsealed.hasItem hcarries
    exact ⟨taken, _, htaken, hitem, rfl⟩
  · obtain ⟨taken, htaken, hitem⟩ := hsealed.hasItem hcarries
    refine ⟨taken, _, htaken, hitem, ?_⟩
    cases node <;> first | rfl | cases hkind

theorem hasItem_state (htext : afterGap text = c.rest) (hstack : c.stack = [])
    (h : Derives grammar false (.rule .state) c (some (c', ts))) :
    ∃ taken item, text = taken ++ c'.rest ∧ HasItem (.rule .state) taken item ∧
      ∃ state, item.2 = .state state := by
  have hsealed := sealed_state htext hstack h
  obtain ⟨items, hcarries, hyields⟩ := h.yields grammar_means
  obtain ⟨-, state, -, rfl⟩ := hyields
  obtain ⟨taken, htaken, hitem⟩ := hsealed.hasItem hcarries
  exact ⟨taken, _, htaken, hitem, state, rfl⟩

/-- Neither globals nor states are where nothing is. -/
theorem fails_global_nil : Fails globalPattern [] [] :=
  .alt (.of_starts rfl (.nil _)) (.of_starts rfl (.nil _))

theorem fails_state_nil : Fails (.rule .state) [] [] :=
  .of_starts rfl (.nil _)

/-- No state is where a global is. -/
theorem fails_state_of_derives (hstack : c.stack = [])
    (h : Derives grammar false globalPattern c (some (c', ts))) :
    Derives grammar false (.rule .state) c none := by
  obtain ⟨res, hstate⟩ := exists_derives false .state c
  cases res with
  | none => exact hstate
  | some result =>
    have hfails := fails_global_of_derives hstate c.position
    rw [← hstack] at hfails
    cases h.unique hfails

/-- No global comes where a series of states starts. -/
theorem Series.fails_global (h : Series (.rule .state) text rest items)
    (hrest : items = [] → Fails globalPattern [] (Rule.afterGap rest)) :
    Fails globalPattern [] (Rule.afterGap text) := by
  cases h with
  | done text => exact hrest rfl
  | next hitem _ =>
    obtain ⟨_, _, hd, -⟩ := hitem _ 0
    exact fails_global_of_derives hd

/-- No state comes where a series of globals starts. -/
theorem Series.fails_state (h : Series globalPattern text rest items) (hitems : items ≠ []) :
    Fails (.rule .state) [] (Rule.afterGap text) := by
  cases h with
  | done text => exact absurd rfl hitems
  | next hitem _ =>
    intro k
    obtain ⟨_, _, hd, -⟩ := hitem _ k
    exact fails_state_of_derives rfl hd

/-- A series of items starts where the text does not end. -/
theorem Series.afterGap_ne_nil (h : Series p text rest items) (hitems : items ≠ [])
    (hp : Fails p [] []) : Rule.afterGap text ≠ [] := by
  cases h with
  | done text => exact absurd rfl hitems
  | next hitem _ =>
    intro hnil
    obtain ⟨_, _, hd, -⟩ := hitem _ 0
    rw [hnil] at hd
    cases hd.unique (hp 0)

end

end Rule

open Rule

/-- A program is a series of globals and then a series of states. -/
theorem parseScript_of_series {source : String} {states : List State} {text rest : List Char}
    {globals items : List (Rule × Node)} (hglobals : Series globalPattern source.toList text globals)
    (hall : ∀ item ∈ globals, item.2.isGlobal = true)
    (hstates : Series (.rule .state) text rest items)
    (hitems : items.map Prod.snd = states.map .state) (hrest : afterGap rest = []) :
    parseScript source = .ok ⟨globals.map Prod.snd, states⟩ := by
  have hfails : Fails globalPattern [] (afterGap rest) := by
    rw [hrest]
    exact fails_global_nil
  obtain ⟨stop, hstop, hreads⟩ := hglobals.reads_star (hstates.fails_global fun _ => hfails)
  obtain ⟨stop', hstop', hreads'⟩ := hstates.reads_star (by rw [hrest]; exact fails_state_nil)
  have hglobals' : Reads (.rule .globals) [] _ [] stop _ := .groupNodes rfl rfl hreads
  have hstates' : Reads (.rule .states) [] _ [] stop' _ := .groupNodes rfl rfl hreads'
  rw [hitems, List.map_map] at hstates'
  refine parseScript_of_reads (gapTo_afterGap _) hglobals' ?_ hstates' ?_ ?_
  · rw [← hstop]
    exact gapTo_afterGap _
  · rw [← hrest, ← hstop']
    exact gapTo_afterGap _
  · rw [List.all_map, List.all_eq_true]
    exact hall

theorem series_of_parseScript {source : String} {script : Script}
    (h : parseScript source = .ok script) :
    ∃ text rest globals items, Series globalPattern source.toList text globals ∧
      (∀ item ∈ globals, item.2.isGlobal = true) ∧ globals.map Prod.snd = script.globals ∧
      Series (.rule .state) text rest items ∧ items.map Prod.snd = script.states.map .state ∧
      afterGap rest = [] := by
  obtain ⟨c, c₁, c₂, c₃, c₄, us, vs, ⟨_, hgap₁⟩, hus, ⟨_, hgap₂⟩, hvs, ⟨_, hgap₃⟩, hempty, -, -, -⟩ :=
    parts_of_parseScript h
  obtain ⟨hrest₁, hstack₁⟩ := afterGap_of_derives hgap₁
  obtain ⟨hrest₃, hstack₃⟩ := afterGap_of_derives hgap₂
  obtain ⟨_, hd, -⟩ := hus.of_node rfl
  obtain ⟨text, globals, htext, hglobals, hall⟩ :=
    exists_series (P := fun node => node.isGlobal = true) rfl hasItem_global hrest₁.symm hd hstack₁
  rw [stack_eq hus, hstack₁] at hstack₃
  rw [← htext] at hrest₃
  obtain ⟨_, hd', -⟩ := hvs.of_node rfl
  obtain ⟨rest, items, hrest, hstates, hall'⟩ :=
    exists_series (P := fun node => ∃ state, node = .state state) rfl hasItem_state hrest₃.symm hd'
      hstack₃
  rw [← (afterGap_of_derives hgap₃).1, hempty] at hrest
  obtain ⟨states, hitems⟩ : ∃ states : List State, states.map .state = items.map Prod.snd := by
    rw [← Set.mem_range, Set.range_list_map]
    intro node hnode
    obtain ⟨item, hitem, rfl⟩ := List.mem_map.1 hnode
    obtain ⟨state, hstate⟩ := hall' item hitem
    exact ⟨state, hstate.symm⟩
  have hscript := parseScript_of_series hglobals hall hstates hitems.symm hrest
  cases h.symm.trans hscript
  exact ⟨text, rest, globals, items, hglobals, hall, rfl, hstates, hitems.symm, hrest⟩

section

variable {source source' : String} {script script' : Script}

/-- A series in a program goes on in the program on the next line. -/
theorem Rule.Series.join {p : Pattern Rule} {text rest text' rest' : List Char}
    {items items' : List (Rule × Node)} (h : Series p text rest items) (hrest : Rule.afterGap rest = [])
    (h' : Series p text' rest' items') :
    ∃ gap, (∀ text, Rule.afterGap (gap ++ text) = Rule.afterGap text) ∧
      Series p (text ++ '\n' :: text') (gap ++ rest') (items ++ items') := by
  have hgap (text : List Char) : Rule.afterGap (rest ++ ['\n'] ++ text) = Rule.afterGap text := by
    rw [List.append_assoc]
    exact afterGap_join hrest text
  obtain ⟨gap, hgap', hseries⟩ := h'.afterGap hgap
  rw [List.append_assoc] at hseries
  exact ⟨gap, hgap', (h.append _).trans hseries⟩

theorem toList_join (source source' : String) :
    (source ++ "\n" ++ source').toList = source.toList ++ '\n' :: source'.toList := by
  rw [String.toList_append, String.toList_append, List.append_assoc]
  rfl

theorem parseScript_join_of_empty (h : parseScript source = .ok script)
    (h' : parseScript source' = .ok script') (hempty : script.states = [] ∨ script'.globals = []) :
    parseScript (source ++ "\n" ++ source') =
      .ok ⟨script.globals ++ script'.globals, script.states ++ script'.states⟩ := by
  obtain ⟨text, rest, globals, items, hglobals, hall, hnodes, hstates, hitems, hrest⟩ :=
    series_of_parseScript h
  obtain ⟨text', rest', globals', items', hglobals', hall', hnodes', hstates', hitems', hrest'⟩ :=
    series_of_parseScript h'
  rw [← hnodes, ← hnodes', ← List.map_append]
  have hglobal : ∀ item ∈ globals ++ globals', item.2.isGlobal = true :=
    List.forall_mem_append.2 ⟨hall, hall'⟩
  rcases hempty with hnone | hnone
  · rw [hnone, List.map_nil, List.map_eq_nil_iff] at hitems
    subst hitems
    obtain rfl := hstates.eq_of_nil
    obtain ⟨gap, hgap, hboth⟩ := hglobals.join hrest hglobals'
    obtain ⟨gap', hgap', hlast⟩ := hstates'.afterGap hgap
    rw [← toList_join] at hboth
    rw [hnone, List.nil_append]
    exact parseScript_of_series hboth hglobal hlast hitems' ((hgap' rest').trans hrest')
  · rw [← hnodes', List.map_eq_nil_iff] at hnone
    subst hnone
    obtain rfl := hglobals'.eq_of_nil
    obtain ⟨gap, hgap, hboth⟩ := hstates.join hrest hstates'
    have hfirst := hglobals.append ('\n' :: source'.toList)
    rw [← toList_join] at hfirst
    rw [List.append_nil] at hglobal ⊢
    refine parseScript_of_series hfirst hglobal hboth ?_ ((hgap rest').trans hrest')
    rw [List.map_append, List.map_append, hitems, hitems']

/-- A global after a state is no part of a program. -/
theorem parseScript_join_of_ne (h : parseScript source = .ok script)
    (h' : parseScript source' = .ok script') (hstates : script.states ≠ [])
    (hglobals : script'.globals ≠ []) (result : Script) :
    parseScript (source ++ "\n" ++ source') ≠ .ok result := by
  intro hresult
  obtain ⟨text, rest, globals, items, hseries, -, -, hstates₁, hitems, hrest⟩ :=
    series_of_parseScript h
  obtain ⟨text', rest', globals', items', hseries', -, hnodes', hstates', hitems', hrest'⟩ :=
    series_of_parseScript h'
  obtain ⟨text'', rest'', _, _, hseries'', -, -, hstates'', -, hrest''⟩ :=
    series_of_parseScript hresult
  have hne : items ≠ [] := by
    rintro rfl
    exact hstates (List.map_eq_nil_iff.1 hitems.symm)
  have hne' : globals' ≠ [] := by
    rintro rfl
    exact hglobals hnodes'.symm
  have hnext := afterGap_join hrest source'.toList
  rw [toList_join] at hseries''
  have hlast := hstates₁.append ('\n' :: source'.toList)
  have hfails : Fails globalPattern [] (afterGap rest'') := by
    rw [hrest'']
    exact fails_global_nil
  obtain rfl := (hseries.append _).unique hseries'' (hlast.fails_global fun hnil => absurd hnil hne)
    (hstates''.fails_global fun _ => hfails)
  obtain rfl := hlast.unique hstates'' (by rw [hnext]; exact hseries'.fails_state hne')
    (by rw [hrest'']; exact fails_state_nil)
  rw [hnext] at hrest''
  exact hseries'.afterGap_ne_nil hne' fails_global_nil hrest''

end

/-- A program after another is read as both, if no global of it comes after a state of the other; else
it is refused. -/
theorem parseScript_join {source source' : String} {script script' : Script}
    (h : parseScript source = .ok script) (h' : parseScript source' = .ok script') :
    (script.states = [] ∨ script'.globals = [] →
      parseScript (source ++ "\n" ++ source') =
        .ok ⟨script.globals ++ script'.globals, script.states ++ script'.states⟩) ∧
    (¬(script.states = [] ∨ script'.globals = []) → ∃ line column context message,
      parseScript (source ++ "\n" ++ source') = .error (.parse line column context message)) := by
  refine ⟨parseScript_join_of_empty h h', fun hne => ?_⟩
  rw [not_or] at hne
  rcases parseScript_cases (source ++ "\n" ++ source') with
    ⟨_, result, -, hresult, -⟩ | ⟨line, column, context, message, -, herror⟩
  · exact absurd hresult (parseScript_join_of_ne h h' hne.1 hne.2 result)
  · exact ⟨line, column, context, message, herror⟩

def sampleGlobal : Node :=
  .variable (some .integer) (some "x") (some (.node (.value (.leaf (.text "1")))))

def sampleState : State :=
  ⟨none, [⟨none, some "touch", [⟨some .integer, some "n"⟩], some ⟨[.label (some "end")]⟩⟩]⟩

/-- A global after a comment that the end of the line closes, a state after a global, and a global after
a state. -/
theorem parseScript_join_sample :
    parseScript ("// \x7b" ++ "\n" ++ "integer x = 1;") = .ok ⟨[sampleGlobal], []⟩ ∧
    parseScript ("integer x = 1;" ++ "\n" ++
      "default \x7b\n  touch(integer n)\n  \x7b\n    @end;\n  \x7d\n\x7d") =
      .ok ⟨[sampleGlobal], [sampleState]⟩ ∧
    ∃ line column context message,
      parseScript ("default \x7b\n  touch(integer n)\n  \x7b\n    @end;\n  \x7d\n\x7d" ++ "\n" ++
        "integer x = 1;") = .error (.parse line column context message) := by
  have hcomment : parseScript "// \x7b" = .ok ⟨[], []⟩ := by
    refine parseScript_of_series (.done _) nofun (.done _) rfl ?_
    exact (@afterGap_line [' ', '\x7b'] [] rfl (.nil _)).trans (afterGap_of_none rfl)
  have hglobal : parseScript "integer x = 1;" = .ok ⟨[sampleGlobal], []⟩ := by
    have htext : (Node.script ⟨[sampleGlobal], []⟩).render 2 = "integer x = 1;" := by decide +kernel
    rw [← htext]
    exact parseScript_render_of_canonical (by decide +kernel) 2
  have hstate : parseScript "default \x7b\n  touch(integer n)\n  \x7b\n    @end;\n  \x7d\n\x7d" =
      .ok ⟨[], [sampleState]⟩ := by
    have htext : (Node.script ⟨[], [sampleState]⟩).render 2 =
        "default \x7b\n  touch(integer n)\n  \x7b\n    @end;\n  \x7d\n\x7d" := by decide +kernel
    rw [← htext]
    exact parseScript_render_of_canonical (by decide +kernel) 2
  exact ⟨(parseScript_join hcomment hglobal).1 (.inl rfl),
    (parseScript_join hglobal hstate).1 (.inl rfl),
    (parseScript_join hstate hglobal).2 (by rintro (h | h) <;> cases h)⟩

end Lsl
