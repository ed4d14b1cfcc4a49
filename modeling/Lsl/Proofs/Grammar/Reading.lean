import Lsl.Proofs.Convert.Item
import Lsl.Proofs.Grammar.Gap
/-!
# Reading a given text

Matches of the grammar of scripts on a text that is known, with the items that their trees show.
Where a match starts does not matter, so a match is said here to lead from a stack and a text to a
stack and the rest of the text.
-/

namespace Lsl.Rule

open Peg Pattern Lexeme

/-- The pattern leads from a stack and a text to a stack and a rest, and what it yields shows the
items. -/
def Reads (p : Pattern Rule) (stack : List (List Char)) (text : List Char)
    (stack' : List (List Char)) (rest : List Char) (items : List Item) : Prop :=
  ∀ k, ∃ k' ts, Derives grammar false p ⟨k, text, stack⟩ (some (⟨k', rest, stack'⟩, ts)) ∧
    List.Forall₂ Shows ts items

/-- The pattern does not match the head of the text. -/
def Fails (p : Pattern Rule) (stack : List (List Char)) (text : List Char) : Prop :=
  ∀ k, Derives grammar false p ⟨k, text, stack⟩ none

/-- The gap at the head of the text ends where the rest starts. -/
def GapTo (text rest : List Char) : Prop :=
  ∀ k stack, ∃ k', grammar.Skips ⟨k, text, stack⟩ ⟨k', rest, stack⟩

/-! ## Gaps -/

theorem gapTo_blanks {blanks rest : List Char} (hblanks : blanks.all isBlank = true)
    (hrest : Solid rest) : GapTo (blanks ++ rest) rest := by
  intro k stack
  refine ⟨k + blanks.length, ?_⟩
  have h := @skips_blanks ⟨k, blanks ++ rest, stack⟩ blanks rest rfl hblanks hrest
  rwa [Cursor.advance, List.drop_left] at h

theorem Solid.gapTo {rest : List Char} (h : Solid rest) : GapTo rest rest :=
  @gapTo_blanks [] rest rfl h

theorem Solid.blank {rest : List Char} (h : Solid rest) : GapTo (' ' :: rest) rest :=
  @gapTo_blanks [' '] rest rfl h

theorem solid_cons {x : Char} {rest : List Char} (h : startsGap x = false) : Solid (x :: rest) :=
  solid_of_stops (stops_cons.2 h)

theorem solid_nil : Solid [] :=
  solid_of_stops (.nil _)

section

variable {p q : Pattern Rule} {s s₁ s₂ : List (List Char)} {text text₁ rest rest₁ : List Char}
  {xs ys : List Item}

/-! ## Patterns that match -/

namespace Reads

protected theorem lit (chars : List Char) : Reads (.lit chars) s (chars ++ rest) s rest [] := by
  intro k
  exact ⟨k + chars.length, [], .lit ⟨rfl, rfl⟩ rfl, .nil⟩

theorem word (word : String) : Reads (.word word) s (word.toList ++ rest) s rest [] :=
  .lit _

protected theorem seq (hp : Reads p s text s₁ rest₁ xs) (hgap : GapTo rest₁ text₁)
    (hq : Reads q s₁ text₁ s₂ rest ys) : Reads (.seq p q) s text s₂ rest (xs ++ ys) := by
  intro k
  obtain ⟨k₁, ts, hts, hxs⟩ := hp k
  obtain ⟨k₂, gs, hgs⟩ := hgap k₁ s₁
  obtain ⟨k₃, us, hus, hys⟩ := hq k₂
  exact ⟨k₃, ts ++ us, .seq hts hgs hus, List.rel_append hxs hys⟩

/-- The second part follows directly on the first. -/
theorem next (hp : Reads p s text s₁ rest₁ xs) (hsolid : Solid rest₁)
    (hq : Reads q s₁ rest₁ s₂ rest ys) : Reads (.seq p q) s text s₂ rest (xs ++ ys) :=
  hp.seq hsolid.gapTo hq

theorem altFirst (hp : Reads p s text s₁ rest xs) : Reads (.alt p q) s text s₁ rest xs := by
  intro k
  obtain ⟨k', ts, hts, hxs⟩ := hp k
  exact ⟨k', ts, .altFirst hts, hxs⟩

theorem altSecond (hp : Fails p s text) (hq : Reads q s text s₁ rest xs) :
    Reads (.alt p q) s text s₁ rest xs := by
  intro k
  obtain ⟨k', ts, hts, hxs⟩ := hq k
  exact ⟨k', ts, .altSecond (hp k) hts, hxs⟩

theorem optNone (hp : Fails p s text) : Reads (opt p) s text s text [] :=
  .altSecond hp (.lit [])

theorem starNone (hp : Fails p s text) : Reads (.star p) s text s text [] := by
  intro k
  exact ⟨k, [], .starNone (hp k), .nil⟩

theorem starSome (hp : Reads p s text s₁ rest₁ xs) (hmore : Reads (.more p) s₁ rest₁ s₂ rest ys) :
    Reads (.star p) s text s₂ rest (xs ++ ys) := by
  intro k
  obtain ⟨k₁, ts, hts, hxs⟩ := hp k
  obtain ⟨k₂, us, hus, hys⟩ := hmore k₁
  exact ⟨k₂, ts ++ us, .starSome hts hus, List.rel_append hxs hys⟩

theorem moreNone (hgap : GapTo text text₁) (hp : Fails p s text₁) :
    Reads (.more p) s text s text [] := by
  intro k
  obtain ⟨k₁, gs, hgs⟩ := hgap k s
  exact ⟨k, [], .moreNone hgs (hp k₁), .nil⟩

theorem moreSome (hgap : GapTo text text₁) (hp : Reads p s text₁ s₁ rest₁ xs)
    (hmore : Reads (.more p) s₁ rest₁ s₂ rest ys) :
    Reads (.more p) s text s₂ rest (xs ++ ys) := by
  intro k
  obtain ⟨k₁, gs, hgs⟩ := hgap k s
  obtain ⟨k₂, ts, hts, hxs⟩ := hp k₁
  obtain ⟨k₃, us, hus, hys⟩ := hmore k₂
  exact ⟨k₃, ts ++ us, .moreSome hgs hts hus, List.rel_append hxs hys⟩

/-- Rounds with gaps before them, where no gap comes first. -/
protected theorem star (hsolid : Solid text) (h : Reads (.more p) s text s₁ rest xs) :
    Reads (.star p) s text s₁ rest xs := by
  intro k
  obtain ⟨k', ts, hts, hxs⟩ := h k
  obtain ⟨_, hskips⟩ := @skips_solid ⟨k, text, s⟩ hsolid
  rcases hts.of_more with ⟨hnone, -⟩ | ⟨_, _, hgap, hround⟩
  · exact absurd hnone not_gap_fail
  · cases hskips.unique hgap
    refine ⟨k', ts, ?_, hxs⟩
    rcases hround with ⟨hnone, heq, rfl⟩ | ⟨_, _, _, hfirst, hmore, rfl⟩
    · rw [heq]
      exact .starNone hnone
    · exact .starSome hfirst hmore

protected theorem ahead (hp : Reads p s text s₁ rest xs) :
    Reads (.ahead p) s text s text [] := by
  intro k
  obtain ⟨k', ts, hts, -⟩ := hp k
  exact ⟨k, [], .ahead hts, .nil⟩

protected theorem notAhead (hp : Fails p s text) : Reads (.notAhead p) s text s text [] := by
  intro k
  exact ⟨k, [], .notAhead (hp k), .nil⟩

/-- The text of a literal goes on the stack. -/
theorem push (chars : List Char) :
    Reads (.push (.lit chars)) s (chars ++ rest) (chars :: s) rest [] := by
  intro k
  have hspans : Cursor.Spans ⟨k, chars ++ rest, s⟩ chars ⟨k + chars.length, rest, s⟩ := ⟨rfl, rfl⟩
  have hlit : Derives grammar false (.lit chars) _ _ := .lit hspans rfl
  have hpush := Derives.push hlit
  rw [hspans.textTo] at hpush
  exact ⟨k + chars.length, [], hpush, .nil⟩

theorem pushLit (chars : List Char) : Reads (.pushLit chars) s text (chars :: s) text [] := by
  intro k
  have hstep : Derives grammar false (.pushLit chars) ⟨k, text, s⟩ _ := .step rfl
  exact ⟨k, [], hstep, .nil⟩

theorem drop (top : List Char) : Reads .drop (top :: s) text s text [] := by
  intro k
  have hstep : Derives grammar false .drop ⟨k, text, top :: s⟩ _ := .step rfl
  exact ⟨k, [], hstep, .nil⟩

theorem peek (top : List Char) : Reads .peek (top :: s) (top ++ rest) (top :: s) rest [] := by
  intro k
  have hstep : Derives grammar false .peek ⟨k, top ++ rest, top :: s⟩ _ := .step rfl
  have haccept : (⟨k, top ++ rest, top :: s⟩ : Cursor).accept? top =
      some ⟨k + top.length, rest, top :: s⟩ := Cursor.accept?_of_spans ⟨rfl, rfl⟩ rfl
  rw [Cursor.acceptTop?] at hstep
  dsimp only at hstep
  rw [haccept] at hstep
  exact ⟨_, [], hstep, .nil⟩

end Reads

/-! ## Rules that match -/

section

variable {r : Rule}

theorem Reads.silent (hs : r.isSilent = true) (ha : r.isAtomic = false)
    (h : Reads (pattern r) s text s₁ rest xs) : Reads (.rule r) s text s₁ rest xs := by
  intro k
  obtain ⟨k', ts, hts, hxs⟩ := h k
  refine ⟨k', ts, .silent hs ?_, hxs⟩
  have : grammar.isAtomic r = false := ha
  rwa [this]

private theorem reads_wrapped {item : Item} (hs : r.isSilent = false) (ha : r.isAtomic = false)
    (h : Reads (pattern r) s text s₁ rest xs)
    (hitem : ∀ text ts, List.Forall₂ Shows ts xs → Shows ⟨r, text, ts⟩ item) :
    Reads (.rule r) s text s₁ rest [item] := by
  intro k
  obtain ⟨k', ts, hts, hxs⟩ := h k
  have hts' : Derives grammar (false || grammar.isAtomic r) (grammar.pattern r) ⟨k, text, s⟩
      (some (⟨k', rest, s₁⟩, ts)) := by
    have : grammar.isAtomic r = false := ha
    rwa [this]
  exact ⟨k', _, .node hs hts', .cons (hitem _ _ hxs) .nil⟩

/-- A rule with a kind shows the node that the items inside it make up. -/
theorem Reads.node {kind : Kind} {node : Node} (hr : r.kind? = some kind)
    (hb : build kind xs = some node) (hs : r.isSilent = false) (ha : r.isAtomic = false)
    (h : Reads (pattern r) s text s₁ rest xs) :
    Reads (.rule r) s text s₁ rest [.single r (.node node)] :=
  reads_wrapped hs ha h fun _ _ hxs => .node hxs hr hb

/-- A rule without a kind stands for the only item inside it. -/
theorem Reads.pass {r' : Rule} {element : Element} (hr : r.kind? = none) (hs : r.isSilent = false)
    (ha : r.isAtomic = false)
    (h : Reads (pattern r) s text s₁ rest [.single r' element]) :
    Reads (.rule r) s text s₁ rest [.single r element] := by
  refine reads_wrapped hs ha h fun _ _ hxs => ?_
  cases hxs with
  | cons hshow hnil =>
    cases hnil
    exact .pass hr hshow

/-- A rule shows the elements of single items inside it as a group. -/
theorem Reads.group {items : List (Rule × Element)} (hs : r.isSilent = false)
    (ha : r.isAtomic = false)
    (h : Reads (pattern r) s text s₁ rest (items.map fun item => .single item.1 item.2)) :
    Reads (.rule r) s text s₁ rest [.group r (items.map Prod.snd)] := by
  refine reads_wrapped hs ha h fun _ _ hxs => .group ?_
  rw [List.forall₂_map_right_iff] at hxs ⊢
  exact hxs.imp fun _ item hshow => ⟨item.1, hshow⟩

/-- The items of nodes, each with the rule that it is read by. -/
def nodeItems (nodes : List (Rule × Node)) : List Item :=
  nodes.map fun item => .single item.1 (.node item.2)

/-- A rule around nodes shows them as a group. -/
theorem Reads.groupNodes {items : List (Rule × Node)} (hs : r.isSilent = false)
    (ha : r.isAtomic = false) (h : Reads (pattern r) s text s₁ rest (nodeItems items)) :
    Reads (.rule r) s text s₁ rest [.group r ((items.map Prod.snd).map .node)] := by
  have hgroup := @Reads.group s s₁ text rest r
    (items.map fun item => (item.1, Element.node item.2)) hs ha
  rw [List.map_map, List.map_map] at hgroup
  rw [List.map_map]
  exact hgroup h

/-- A rule that is atomic leaves a node with the text that the function says. -/
theorem derives_leaf {take? : List Char → Option (List Char)} {chars : List Char}
    (hscans : Scans grammar (.rule r) take?) (hs : r.isSilent = false) (ha : r.isAtomic = true)
    (htake : take? (chars ++ rest) = some chars) (k : Nat) :
    Derives grammar false (.rule r) ⟨k, chars ++ rest, s⟩
      (some (⟨k + chars.length, rest, s⟩, [⟨r, String.ofList chars, []⟩])) := by
  have hspans : Cursor.Spans ⟨k, chars ++ rest, s⟩ chars ⟨k + chars.length, rest, s⟩ := ⟨rfl, rfl⟩
  have hd := @Scans.derives_some _ _ _ _ hscans ⟨k, chars ++ rest, s⟩ chars htake
  obtain ⟨us, hus, -⟩ := hd.of_node hs
  rw [Bool.true_or, Cursor.advance, List.drop_left] at hus
  cases hus.trees_eq_nil
  have hus' : Derives grammar (false || grammar.isAtomic r) (grammar.pattern r)
      ⟨k, chars ++ rest, s⟩ (some (⟨k + chars.length, rest, s⟩, [])) := by
    have : grammar.isAtomic r = true := ha
    rwa [this]
  have hnode := Derives.node hs hus'
  rwa [ParseTree.wrap, if_neg Bool.false_ne_true, hspans.textTo] at hnode

/-- Inside a rule that is atomic its text is what the function says. -/
theorem Reads.leaf {take? : List Char → Option (List Char)} {chars : List Char}
    (hscans : Scans grammar (.rule r) take?) (hr : r.kind? = none) (hs : r.isSilent = false)
    (ha : r.isAtomic = true) (htake : take? (chars ++ rest) = some chars) :
    Reads (.rule r) s (chars ++ rest) s rest [.single r (.text (String.ofList chars))] :=
  fun k => ⟨_, _, derives_leaf hscans hs ha htake k, .cons (.leaf hr) .nil⟩

end

/-! ## Patterns that fail -/

namespace Fails

protected theorem lit {chars : List Char} (h : chars.isPrefixOf text = false) :
    Fails (.lit chars) s text := by
  intro k
  have hstep : Derives grammar false (.lit chars) ⟨k, text, s⟩ _ := .step rfl
  rwa [Cursor.accept?, if_neg (by rw [h]; exact Bool.false_ne_true)] at hstep

theorem word {word : String} (h : word.toList.isPrefixOf text = false) :
    Fails (.word word) s text :=
  .lit h

/-- The top of the stack is not at the head of the text. -/
protected theorem peek (h : ∀ top, s.head? = some top → top.isPrefixOf text = false) :
    Fails .peek s text := by
  intro k
  have hstep : Derives grammar false .peek ⟨k, text, s⟩ _ := .step rfl
  cases s with
  | nil => exact hstep
  | cons top below =>
    rw [Cursor.acceptTop?] at hstep
    dsimp only at hstep
    rwa [Cursor.accept?, if_neg (by rw [h top rfl]; exact Bool.false_ne_true)] at hstep

theorem seqFirst (hp : Fails p s text) : Fails (.seq p q) s text :=
  fun k => .seqFirst (hp k)

theorem seqSecond (hp : Reads p s text s₁ rest₁ xs) (hgap : GapTo rest₁ text₁)
    (hq : Fails q s₁ text₁) : Fails (.seq p q) s text := by
  intro k
  obtain ⟨k₁, ts, hts, -⟩ := hp k
  obtain ⟨k₂, gs, hgs⟩ := hgap k₁ s₁
  exact .seqSecond hts hgs (hq k₂)

/-- The second part fails directly after the first. -/
theorem next (hp : Reads p s text s₁ rest₁ xs) (hsolid : Solid rest₁) (hq : Fails q s₁ rest₁) :
    Fails (.seq p q) s text :=
  seqSecond hp hsolid.gapTo hq

protected theorem alt (hp : Fails p s text) (hq : Fails q s text) : Fails (.alt p q) s text :=
  fun k => .altSecond (hp k) (hq k)

protected theorem ahead (hp : Fails p s text) : Fails (.ahead p) s text :=
  fun k => .aheadFail (hp k)

protected theorem notAhead (hp : Reads p s text s₁ rest xs) : Fails (.notAhead p) s text := by
  intro k
  obtain ⟨_, _, hts, -⟩ := hp k
  exact .notAheadFail hts

protected theorem push (hp : Fails p s text) : Fails (.push p) s text :=
  fun k => .pushFail (hp k)

/-- What comes after a lookahead fails, whatever the lookahead comes to. -/
theorem afterNotAhead {r : Rule} (hsolid : Solid text) (hq : Fails q s text) :
    Fails (.seq (.notAhead (.rule r)) q) s text := by
  intro k
  obtain ⟨result, hresult⟩ := exists_derives false r ⟨k, text, s⟩
  cases result with
  | none =>
    obtain ⟨k', gs, hgap⟩ := hsolid.gapTo k s
    exact .seqSecond (.notAhead hresult) hgap (hq k')
  | some result => exact .seqFirst (.notAheadFail hresult)

protected theorem rule {r : Rule} (ha : r.isAtomic = false) (hp : Fails (pattern r) s text) :
    Fails (.rule r) s text := by
  intro k
  have hatomic : grammar.isAtomic r = false := ha
  have hp' : Derives grammar (false || grammar.isAtomic r) (grammar.pattern r) ⟨k, text, s⟩
      none := by
    rw [hatomic]
    exact hp k
  cases hs : grammar.isSilent r with
  | true => exact .silent hs hp'
  | false => exact .nodeFail hs hp'

/-- A rule fails where none of its first characters comes next. -/
theorem of_starts {r : Rule} (hr : r.matchesNothing = false) (h : Stops r.starts text) :
    Fails (.rule r) s text :=
  fun _ => fails_of_starts hr h

theorem of_scans {r : Rule} {take? : List Char → Option (List Char)}
    (hscans : Scans grammar (.rule r) take?) (hs : r.isSilent = false) (ha : r.isAtomic = true)
    (htake : take? text = none) : Fails (.rule r) s text := by
  intro k
  have hd := @Scans.derives_none _ _ _ _ hscans ⟨k, text, s⟩ htake
  generalize hres : (none : Result Rule) = res at hd
  generalize hp : Pattern.rule r = p at hd
  cases hd with
  | step hf => subst hp; cases hf
  | silent hsilent =>
    cases hp
    cases hs.symm.trans hsilent
  | node => cases hres
  | nodeFail _ hfail =>
    cases hp
    refine .nodeFail hs ?_
    have : grammar.isAtomic r = true := ha
    rwa [this]
  | _ => cases hp

end Fails

/-- What a pattern reads is what it reads in any derivation. -/
theorem Reads.unique {k : Nat} {c : Cursor} {ts : List (ParseTree Rule)}
    (h : Reads p s text s₁ rest xs)
    (hd : Derives grammar false p ⟨k, text, s⟩ (some (c, ts))) :
    c.stack = s₁ ∧ c.rest = rest := by
  obtain ⟨k', us, hus, -⟩ := h k
  cases hus.unique hd
  exact ⟨rfl, rfl⟩

/-- What a rule reads starts with one of its first characters. -/
theorem Reads.starts {r : Rule} (h : Reads (.rule r) s text s₁ rest xs)
    (hr : r.matchesNothing = false) : ∃ x tail, text = x :: tail ∧ Rule.starts r x = true := by
  obtain ⟨_, _, hts, -⟩ := h 0
  exact starts_of_derives hr hts

theorem solid_of_startsOperand {x : Char} (h : startsOperand x = true) : Solid (x :: rest) := by
  refine solid_cons ?_
  rw [Bool.eq_false_iff]
  intro hgap
  simp only [startsGap, Bool.or_eq_true, beq_iff_eq] at hgap
  rcases hgap with (((rfl | rfl) | rfl) | rfl) | rfl <;> cases h

theorem GapTo.unique {k : Nat} {c : Cursor} (h : GapTo text rest)
    (hskips : grammar.Skips ⟨k, text, s⟩ c) : c.stack = s ∧ c.rest = rest := by
  obtain ⟨k', hk⟩ := h k s
  cases hk.unique hskips
  exact ⟨rfl, rfl⟩

end

end Lsl.Rule
