import Lsl.Proofs.Grammar.Beside
import Lsl.Proofs.Grammar.Restack
/-!
# Literals in front of other text

A vector or rotation has commas between its components that no bracket holds.  So in front of a comma
it may go on where it would fail at the end of a text, and then it goes beyond that comma.  A value in
which no literal that is tried does so is read as if the text ended there.
-/

namespace Lsl.Rule

open Peg Pattern Lexeme

/-- Vectors and rotations. -/
def isLiteral (r : Rule) : Bool :=
  r == .quaternion || r == .vector

/-- How many entries of its own a chain of angles, commas, values and changes of the stack leaves, if
every value in it is read under one. -/
def chain : Pattern Rule → Nat → Option Nat
  | .lit chars, n => if [['<'], [','], ['>']].contains chars then some n else none
  | .rule r, n => if r = .value ∧ n ≠ 0 then some n else none
  | .seq p q, n => (chain p n).bind (chain q)
  | .pushLit chars, n => if brackets.contains chars then some (n + 1) else none
  | .drop, n => if n = 0 then none else some (n - 1)
  | _, _ => none

theorem pattern_of_isLiteral {r : Rule} (hr : isLiteral r = true) :
    ∃ q, r.pattern = .seq (word "<") q ∧ chain q 0 = some 0 := by
  cases r <;> first | (cases hr; done) | exact ⟨_, rfl, rfl⟩

theorem visible_of_isLiteral {r : Rule} (hr : isLiteral r = true) :
    r.isSilent = false ∧ r.isAtomic = false := by
  cases r <;> first | (cases hr; done) | exact ⟨rfl, rfl⟩

theorem head_of_isLiteral {r : Rule} (hr : isLiteral r = true) {c c' : Cursor}
    {ts : List (ParseTree Rule)} (h : Derives grammar false (.rule r) c (some (c', ts))) :
    ∃ rest, c.rest = '<' :: rest := by
  obtain ⟨x, rest, hrest, hx⟩ : ∃ x rest, c.rest = x :: rest ∧ (x == '<') = true := by
    cases r
    case quaternion | vector => exact starts_of_derives rfl h
    all_goals cases hr
  obtain rfl := beq_iff_eq.1 hx
  exact ⟨rest, hrest⟩

/-! ## Other stacks -/

section

variable {p : Pattern Rule} {c c' : Cursor} {ts : List (ParseTree Rule)} {s own : List (List Char)}
  {n n' : Nat}

/-- A gap does not look at the stack. -/
theorem derives_gap (s' : List (List Char))
    (h : Derives grammar true grammar.gap c (some (c', ts))) :
    c'.stack = c.stack ∧ Derives grammar true grammar.gap ⟨c.position, c.rest, s'⟩
      (some (⟨c'.position, c'.rest, s'⟩, ts)) := by
  cases (scans_gap.derives c).unique h
  exact ⟨rfl, scans_gap.derives ⟨c.position, c.rest, s'⟩⟩

theorem derives_of_chain (h : Derives grammar false p c (some (c', ts))) (hp : chain p n = some n')
    (hc : c.stack = own ++ s) (hn : own.length = n) (s' : List (List Char)) :
    ∃ own' : List (List Char), own'.length = n' ∧ c'.stack = own' ++ s ∧
      Derives grammar false p ⟨c.position, c.rest, own ++ s'⟩
        (some (⟨c'.position, c'.rest, own' ++ s'⟩, ts)) := by
  induction p generalizing c c' ts n n' own with
  | lit chars =>
    cases (Option.ite_none_right_eq_some.1 hp).2
    obtain ⟨hspans, hstack⟩ := Cursor.accept?_eq_some h.of_lit
    cases h.unique (.lit hspans hstack)
    exact ⟨own, hn, hstack.trans hc, .lit hspans rfl⟩
  | rule r =>
    obtain ⟨⟨rfl, hpos⟩, hn'⟩ := Option.ite_none_right_eq_some.1 hp
    cases hn'
    -- The entry below those of the match is one of the chain.
    have hown : own ≠ [] := by
      rintro rfl
      exact hpos hn.symm
    have hsame : SeemsSame (.rule .value) c.rest (own ++ s) (own ++ s') :=
      .under own rfl fun hnil => absurd hnil hown
    obtain ⟨hstack, hd⟩ := (restacks_of_derives h (show _ = [] ++ _ from hc) rfl rfl hsame).same
    exact ⟨own, hn, hstack, hd⟩
  | seq p q ihp ihq =>
    obtain ⟨n₁, hp, hq⟩ := Option.bind_eq_some_iff.1 hp
    obtain ⟨c₁, c₂, _, _, _, hfirst, hgap, hsecond, rfl⟩ := h.of_seq
    obtain ⟨own₁, hn₁, hc₁, hd₁⟩ := ihp hfirst hp hc hn
    obtain ⟨hstack, hd₂⟩ := derives_gap (own₁ ++ s') hgap
    obtain ⟨own₂, hn₂, hc₂, hd₃⟩ := ihq hsecond hq (hstack.trans hc₁) hn₁
    exact ⟨own₂, hn₂, hc₂, .seq hd₁ hd₂ hd₃⟩
  | pushLit chars =>
    cases (Option.ite_none_right_eq_some.1 hp).2
    have hstep : Derives grammar false (.pushLit chars) c _ := .step rfl
    cases hstep.unique h
    have hstep' : Derives grammar false (.pushLit chars) ⟨c.position, c.rest, own ++ s'⟩ _ :=
      .step rfl
    exact ⟨chars :: own, by rw [List.length_cons, hn], congrArg (chars :: ·) hc, hstep'⟩
  | drop =>
    rw [chain] at hp
    split at hp <;> cases hp
    obtain ⟨k, rest, stack⟩ := c
    subst hc
    cases own with
    | nil => exact absurd hn.symm ‹n ≠ 0›
    | cons entry own =>
      have hstep : Derives grammar false .drop ⟨k, rest, entry :: own ++ s⟩ _ := .step rfl
      cases hstep.unique h
      have hstep' : Derives grammar false .drop ⟨k, rest, entry :: (own ++ s')⟩ _ := .step rfl
      exact ⟨own, by rw [← hn]; rfl, rfl, hstep'⟩
  | _ => cases hp

/-- A literal does not look at the stack. -/
theorem derives_literal {r : Rule} (hr : isLiteral r = true)
    (h : Derives grammar false (.rule r) c (some (c', ts))) (s' : List (List Char)) :
    Derives grammar false (.rule r) ⟨c.position, c.rest, s'⟩
      (some (⟨c'.position, c'.rest, s'⟩, ts)) := by
  obtain ⟨hs, ha⟩ := visible_of_isLiteral hr
  obtain ⟨q, hpattern, hq⟩ := pattern_of_isLiteral hr
  have ha' : (false || grammar.isAtomic r) = false := ha
  obtain ⟨us, hd, rfl⟩ := h.of_node hs
  have hchain : chain (grammar.pattern r) 0 = some 0 := by
    rw [show grammar.pattern r = _ from hpattern]
    exact hq
  rw [ha'] at hd
  obtain ⟨own', hlength, -, hd'⟩ := derives_of_chain hd hchain (show _ = [] ++ _ from rfl) rfl s'
  obtain rfl := List.length_eq_zero_iff.1 hlength
  refine .node (c := ⟨c.position, c.rest, s'⟩) hs ?_
  rw [ha']
  exact hd'

end

/-- A literal is read in the same way wherever it starts, under any entries. -/
theorem derives_literal_at {r : Rule} (hr : isLiteral r = true) {c c' : Cursor}
    {ts : List (ParseTree Rule)} (h : Derives grammar false (.rule r) c (some (c', ts))) (k : Nat) :
    ∃ k' us, Derives grammar false (.rule r) ⟨k, c.rest, []⟩ (some (⟨k', c'.rest, []⟩, us)) := by
  have hd := derives_literal hr h []
  have hpart : r.isPart = true := by cases r <;> first | (cases hr; done) | rfl
  obtain ⟨rest, hrest⟩ := head_of_isLiteral hr h
  have hstill : takePiece? c.rest = none := hrest ▸ takePiece?_of_solid (solid_cons rfl)
  obtain ⟨k', us, hus, -⟩ := echoes_self hpart hd hstill nofun k
  exact ⟨k', us, hus⟩

/-! ## Beyond the comma -/

/-- Every match goes beyond the character in front of the tail. -/
def Strays (tail : List Char) (p : Pattern Rule) (stack : List (List Char)) (text : List Char) :
    Prop :=
  ∀ k c' ts, Derives grammar false p ⟨k, text, stack⟩ (some (c', ts)) →
    c'.rest.length ≤ tail.length

theorem Fails.strays {p : Pattern Rule} {s : List (List Char)} {text tail : List Char}
    (h : Fails p s text) : Strays tail p s text :=
  fun k _ _ hd => nomatch hd.unique (h k)

/-- What a match comes to where the text goes on: a failure may become a match that goes too far. -/
def MirrorsOrStrays (R : List Char → List Char → Prop) (tail : List Char) (p : Pattern Rule)
    (stack : List (List Char)) (text : List Char) : Result Rule → Prop
  | none => Strays tail p stack text
  | some result => Mirrors R p stack text (some result)

theorem Mirrors.orStrays {R : List Char → List Char → Prop} {tail : List Char} {p : Pattern Rule}
    {s : List (List Char)} {text : List Char} {res : Result Rule} (h : Mirrors R p s text res) :
    MirrorsOrStrays R tail p s text res := by
  cases res with
  | none => exact Fails.strays h
  | some result => exact h

theorem MirrorsOrStrays.mirrors {R : List Char → List Char → Prop} {tail : List Char}
    {p : Pattern Rule} {s : List (List Char)} {text : List Char}
    {result : Cursor × List (ParseTree Rule)}
    (h : MirrorsOrStrays R tail p s text (some result)) : Mirrors R p s text (some result) :=
  h

theorem mirrorsOrStrays_seq {goals : Goal Rule → Prop} (hcalls : grammar.Closed goals)
    (R₁ : List Char → List Char → Prop) {R' : List Char → List Char → Prop} {tail : List Char}
    {p q : Pattern Rule} {c : Cursor} {text : List Char} {res : Result Rule}
    (hgoal : goals ⟨false, .seq p q, c⟩)
    (hgap : ∀ rest rest', R₁ rest rest' → R₁ (afterGap rest) (afterGap rest'))
    (hp : ∀ {res}, goals ⟨false, p, c⟩ → Derives grammar false p c res →
      MirrorsOrStrays R₁ tail p c.stack text res)
    (hq : ∀ {c₂ : Cursor} {text₂ res}, goals ⟨false, q, c₂⟩ → R₁ c₂.rest text₂ →
      takePiece? c₂.rest = none → takePiece? text₂ = none →
      (∀ entry ∈ c₂.stack, entry ∈ brackets) → Derives grammar false q c₂ res →
      MirrorsOrStrays R' tail q c₂.stack text₂ res)
    (h : Derives grammar false (.seq p q) c res) :
    MirrorsOrStrays R' tail (.seq p q) c.stack text res := by
  cases res with
  | none =>
    intro k c' ts hd
    obtain ⟨c₁', c₂', _, _, _, hfirst', hskip', hlast', rfl⟩ := hd.of_seq
    rcases h.of_seq_fail with hfirst | ⟨c₁, _, hfirst, hskip | ⟨c₂, _, hskip, hlast⟩⟩
    · -- What goes too far in its first part does not come back.
      have hstrays := hp (hcalls hgoal .seqFirst) hfirst k _ _ hfirst'
      exact (hlast'.length_le.trans hskip'.length_le).trans hstrays
    · exact absurd hskip not_gap_fail
    · obtain ⟨rest, hechoes, hrest, hstill, hstack⟩ :=
        (hp (hcalls hgoal .seqFirst) hfirst).mirrors.skip (hgap _ _) hskip
      have hstrays := hq (hcalls hgoal (.seqSecond hfirst hskip)) hrest hstill
        (takePiece?_afterGap rest) hstack hlast
      obtain ⟨k₁, us, hus, -⟩ := hechoes k
      cases hus.unique hfirst'
      obtain ⟨hrest₂, hstack₂⟩ := afterGap_of_derives hskip'
      obtain ⟨k₂, rest₂, stack₂⟩ := c₂'
      dsimp only at hrest₂ hstack₂
      subst hrest₂ hstack₂
      exact hstrays k₂ _ _ hlast'
  | some result =>
    obtain ⟨c', ts⟩ := result
    obtain ⟨c₁, c₂, _, _, _, hfirst, hskip, hlast, rfl⟩ := h.of_seq
    obtain ⟨rest, hechoes, hrest, hstill, hstack⟩ :=
      (hp (hcalls hgoal .seqFirst) hfirst).mirrors.skip (hgap _ _) hskip
    obtain ⟨hstack', rest', hrest', hechoes'⟩ := hq (hcalls hgoal (.seqSecond hfirst hskip)) hrest
      hstill (takePiece?_afterGap rest) hstack hlast
    exact ⟨hstack', rest', hrest', hechoes.seq hechoes'⟩

section

variable {P : List Char → Prop} {x : Char} {tail : List Char} (hx : x = ',' ∨ x = ')')
  (hP : ∀ text k, P text → P (text.drop k))

include hP

theorem mirrorsOrStrays_lit {chars text : List Char} {c : Cursor} {n : Nat} {res : Result Rule}
    (hchars : chars ∈ [['<'], [','], ['>']]) (htext : Beside P (x :: tail) n c.rest text)
    (hstack : ∀ entry ∈ c.stack, entry ∈ brackets) (h : Derives grammar false (.lit chars) c res) :
    MirrorsOrStrays (Beside P (x :: tail) n) tail (.lit chars) c.stack text res := by
  obtain ⟨⟨head, code, hcode, hnested, hrest, rfl⟩, hP'⟩ := htext
  obtain ⟨hpair, y, rfl⟩ : pair true chars n = some n ∧ ∃ y, chars = [y] := by
    simp only [List.mem_cons, List.not_mem_nil, or_false] at hchars
    rcases hchars with rfl | rfl | rfl <;> exact ⟨rfl, _, rfl⟩
  have hstep : Derives grammar false (.lit [y]) c _ := .step rfl
  rw [h.unique hstep]
  by_cases hhead : head = []
  · -- The text is at its end, where the other goes on with the comma or parenthesis.
    subst hhead
    rw [Cursor.accept?, hrest]
    intro k c' ts hd
    have hspans := (Cursor.accept?_eq_some hd.of_lit).1.1
    dsimp only [List.nil_append, List.cons_append] at hspans
    rw [(List.cons.inj hspans).2]
  rcases alongside_lit (clear_of_pair hpair) (by simpa using nested_of_pair hpair 0) hcode hnested
    (isPrefixOf_single hhead []) (isPrefixOf_single hhead (x :: tail)) with
    ⟨rest, rest', hleft, hleft', halong⟩ | ⟨hnone, hnone'⟩
  · have hspans : c.Spans [y] ⟨c.position + 1, rest, c.stack⟩ := ⟨hrest.trans hleft, rfl⟩
    rw [Cursor.accept?_of_spans hspans rfl, hleft']
    have hdrop := hP _ 1 hP'
    rw [hrest, hleft] at hdrop
    exact ⟨hstack, rest', ⟨halong, hdrop⟩, .lit [y]⟩
  · rw [Cursor.accept?, hrest, hnone]
    exact (Fails.lit hnone').strays

include hx

/-- What a chain comes to beside other text, if its values are read there as by themselves. -/
theorem mirrorsOrStrays_of_chain {goals : Goal Rule → Prop} (hcalls : grammar.Closed goals)
    {p : Pattern Rule} {c : Cursor} {text : List Char} {n k k' : Nat} {res : Result Rule}
    (hvalue : InStep goals (Beside P (x :: tail) n) (.rule .value) (Beside P (x :: tail) n))
    (hp : chain p k = some k') (hgoal : goals ⟨false, p, c⟩)
    (htext : Beside P (x :: tail) n c.rest text)
    (hstill : takePiece? c.rest = none) (hstill' : takePiece? text = none)
    (hstack : ∀ entry ∈ c.stack, entry ∈ brackets) (h : Derives grammar false p c res) :
    MirrorsOrStrays (Beside P (x :: tail) n) tail p c.stack text res := by
  induction p generalizing c text k k' res with
  | lit chars =>
    have hchars := List.contains_iff_mem.1 (Option.ite_none_right_eq_some.1 hp).1
    exact mirrorsOrStrays_lit hP hchars htext hstack h
  | rule r =>
    obtain ⟨⟨rfl, -⟩, -⟩ := Option.ite_none_right_eq_some.1 hp
    exact (hvalue hgoal htext hstill hstill' hstack h).orStrays
  | seq p q ihp ihq =>
    obtain ⟨k₁, hp, hq⟩ := Option.bind_eq_some_iff.1 hp
    exact mirrorsOrStrays_seq hcalls (Beside P (x :: tail) n) hgoal (fun _ _ => .gap hx hP)
      (fun hgoal h => ihp hp hgoal htext hstill hstill' hstack h)
      (fun hgoal htext hstill hstill' hstack h => ihq hq hgoal htext hstill hstill' hstack h) h
  | pushLit chars =>
    have hchars := List.contains_iff_mem.1 (Option.ite_none_right_eq_some.1 hp).1
    have hstep : Derives grammar false (.pushLit chars) c _ := .step rfl
    rw [h.unique hstep]
    refine ⟨?_, text, htext, .pushLit chars⟩
    rintro entry (_ | ⟨_, hentry⟩)
    · exact hchars
    · exact hstack entry hentry
  | drop =>
    obtain ⟨k, rest, _ | ⟨top, below⟩⟩ := c
    · have hfails {text : List Char} : Fails .drop [] text := by
        intro k
        have hstep : Derives grammar false .drop ⟨k, text, []⟩ _ := .step rfl
        exact hstep
      rw [h.unique (hfails k)]
      exact hfails.strays
    · have hstep : Derives grammar false .drop ⟨k, rest, top :: below⟩ _ := .step rfl
      rw [h.unique hstep]
      exact ⟨fun entry hentry => hstack entry (List.mem_cons_of_mem _ hentry), text, htext, .drop top⟩
  | _ => cases hp

end

/-! ## Values without such literals -/

/-- No literal among the goals goes on into what comes after the text. -/
def KeepsLiterals (goals : Goal Rule → Prop) (later : List Char) : Prop :=
  ∀ (r : Rule) (c c' c₁ : Cursor) (ts : List (ParseTree Rule)), isLiteral r = true →
    goals ⟨false, .rule r, c⟩ → c'.rest = c.rest ++ later →
    Derives grammar false (.rule r) c' (some (c₁, ts)) → later.length ≤ c₁.rest.length

/-- Texts below a length. -/
def Below (length : Nat) (text : List Char) : Prop :=
  text.length < length

theorem Below.drop {length : Nat} (text : List Char) (k : Nat) (h : Below length text) :
    Below length (text.drop k) := by
  rw [Below, List.length_drop] at *
  omega

section

variable {goals : Goal Rule → Prop} {x : Char} {tail : List Char}

/-- What comes after the opening angle is shorter. -/
theorem mirrorsOrStrays_open {c : Cursor} {text' : List Char} {length n : Nat} {res : Result Rule}
    (htext : Beside (Below (length + 1)) (x :: tail) n c.rest text')
    (hstack : ∀ entry ∈ c.stack, entry ∈ brackets) (h : Derives grammar false (word "<") c res) :
    MirrorsOrStrays (Beside (Below length) (x :: tail) n) tail (word "<") c.stack text' res := by
  have hlit := mirrorsOrStrays_lit Below.drop (by decide) htext hstack h
  cases res with
  | none => exact hlit
  | some result =>
    obtain ⟨hstack', rest, ⟨halong, -⟩, hechoes⟩ := hlit
    refine ⟨hstack', rest, ⟨halong, ?_⟩, hechoes⟩
    have hrest : c.rest = '<' :: result.1.rest := (Cursor.accept?_eq_some h.of_lit).1.1
    have hlength := htext.2
    rw [Below, hrest, List.length_cons] at hlength
    exact Nat.lt_of_succ_lt_succ hlength

variable (hcalls : grammar.Closed goals) (hx : x = ',' ∨ x = ')')
  (hkeeps : KeepsLiterals goals (x :: tail))

include hcalls hx hkeeps

/-- A literal is read beside other text as by itself, if shorter values are. -/
theorem inStep_literal {r : Rule} (hr : isLiteral r = true) {length : Nat} (n : Nat)
    (hvalue : InStep goals (Beside (Below length) (x :: tail) n) (.rule .value)
      (Beside (Below length) (x :: tail) n)) :
    InStep goals (Beside (Below (length + 1)) (x :: tail) n) (.rule r)
      (Beside (Below (length + 1)) (x :: tail) n) := by
  intro c text' res hgoal htext hstill hstill' hstack h
  obtain ⟨hs, ha⟩ := visible_of_isLiteral hr
  obtain ⟨q, hpattern, hq⟩ := pattern_of_isLiteral hr
  have hatomic : (false || grammar.isAtomic r) = false := ha
  have hpart {res : Result Rule} (h : Derives grammar false r.pattern c res) :
      MirrorsOrStrays (Beside (Below length) (x :: tail) n) tail r.pattern c.stack text' res := by
    have hparts := hcalls hgoal (calls_pattern ha c)
    rw [hpattern] at h hparts ⊢
    exact mirrorsOrStrays_seq hcalls (Beside (Below length) (x :: tail) n) hparts
      (fun _ _ => .gap hx Below.drop) (fun _ h => mirrorsOrStrays_open htext hstack h)
      (fun hgoal htext hstill hstill' hstack h =>
        mirrorsOrStrays_of_chain hx Below.drop hcalls hvalue hq hgoal htext hstill hstill' hstack h) h
  cases res with
  | none =>
    have hnone := h.of_node_fail hs
    rw [hatomic] at hnone
    intro k
    obtain ⟨_ | ⟨c', ts⟩, hd⟩ := exists_derives false r ⟨k, text', c.stack⟩
    · exact hd
    obtain ⟨us, hus, -⟩ := hd.of_node hs
    rw [hatomic] at hus
    have hfar := hpart hnone k c' us hus
    obtain ⟨⟨head, -, -, -, hhead, rfl⟩, -⟩ := htext
    rw [List.append_nil] at hhead
    have hnear := hkeeps r c _ c' _ hr hgoal (by rw [hhead]) hd
    rw [List.length_cons] at hnear
    omega
  | some result =>
    obtain ⟨c', ts⟩ := result
    obtain ⟨us, hus, rfl⟩ := h.of_node hs
    rw [hatomic] at hus
    obtain ⟨hstack', rest, hrest, hechoes⟩ := hpart hus
    exact ⟨hstack', rest, ⟨hrest.1, Nat.lt_succ_of_lt hrest.2⟩, .node hs ha hus hechoes⟩

/-- A value without literals that go beyond it is read beside other text as by itself. -/
theorem inStep_value_of_keepsLiterals (length n : Nat) :
    InStep goals (Beside (Below length) (x :: tail) n) (.rule .value)
      (Beside (Below length) (x :: tail) n) := by
  induction length generalizing n with
  | zero => exact fun _ htext => absurd htext.2 (Nat.not_lt_zero _)
  | succ length ih =>
    intro c text' res hgoal htext hstill hstill' hstack h
    have htracks : Tracks goals (pair false) isTerm (Beside (Below (length + 1)) (x :: tail)) := by
      refine tracks_beside hx Below.drop (.inl rfl) hcalls visible_of_isTerm (fun {r n} hr ha => ?_)
      cases r
      case binaryOperator => exact .inr fun m => inStep_binaryOperator hx Below.drop goals _
      case quaternion => exact .inr fun m => inStep_literal hcalls hx hkeeps rfl _ (ih _)
      case vector => exact .inr fun m => inStep_literal hcalls hx hkeeps rfl _ (ih _)
      case arguments | params =>
        refine .inl ⟨1, Nat.pos_of_ne_zero ?_, by decide⟩
        rintro rfl
        cases hr
      all_goals
        first
        | cases hr
        | exact .inl ⟨0, Nat.zero_le n, by decide⟩
        | cases ha
    exact mirrors_of_derives htracks h (m := n) (n := 0) hgoal rfl htext (.inr ⟨hstill, hstill'⟩)
      hstack

end

section

variable {x : Char} {tail text : List Char}

/-- No literal goes beyond a closing parenthesis. -/
theorem inStep_value_of_close (n : Nat) :
    InStep (fun _ => True) (Beside (fun _ => True) (')' :: tail) n) (.rule .value)
      (Beside (fun _ => True) (')' :: tail) n) := by
  intro c text' res hgoal htext hstill hstill' hstack h
  have htracks : Tracks (fun _ => True) (pair true) isTerm
      (Beside (fun _ => True) (')' :: tail)) := by
    refine tracks_beside (.inr rfl) (fun _ _ => id) (.inr rfl) grammar.closed_true
      visible_of_isTerm (fun {r n} hr ha => ?_)
    cases r
    case binaryOperator =>
      exact .inr fun m => inStep_binaryOperator (.inr rfl) (fun _ _ => id) (fun _ => True) _
    all_goals
      first
      | cases hr
      | exact .inl ⟨0, Nat.zero_le n, by decide⟩
      | cases ha
  exact mirrors_of_derives htracks h (m := n) (n := 0) hgoal rfl htext (.inr ⟨hstill, hstill'⟩)
    hstack

/-- A text that is a value is read as that value in front of a comma or a closing parenthesis, inside of
parentheses, if values beside it are. -/
theorem echoes_value {goals : Goal Rule → Prop} {P : List Char → Prop} (hP : P text)
    (hvalue : InStep goals (Beside P (x :: tail) 0) (.rule .value) (Beside P (x :: tail) 0))
    {c c' : Cursor} {ts : List (ParseTree Rule)}
    (hgoal : goals ⟨false, .rule .value, ⟨c.position, c.rest, [['(']]⟩⟩) (hc : c.rest = text)
    (hslash : '/' ∉ text)
    (hstack : c.stack = []) (h : Derives grammar false (.rule .value) c (some (c', ts)))
    (hend : c'.rest = []) :
    Echoes (.rule .value) [['(']] (text ++ x :: tail) [['(']] (x :: tail) ts := by
  subst hc
  obtain ⟨head, code, hcode, hnested, hhead⟩ := shut_of_value h hend hslash
  rw [List.append_nil] at hhead
  obtain ⟨y, rest, hrest, hy⟩ := starts_of_derives rfl h
  have hstill (rest : List Char) : takePiece? (y :: rest) = none :=
    takePiece?_of_solid (solid_of_startsOperand hy)
  -- The parenthesis is below the entries of the value.
  have hsame : SeemsSame (.rule .value) c.rest [] [['(']] := ⟨rfl, .inr ⟨rfl, rfl, .inl rfl⟩⟩
  obtain ⟨-, hinside⟩ := (restacks_of_derives h (show _ = [] ++ _ from hstack) rfl rfl hsame).same
  have hbeside : Beside P (x :: tail) 0 c.rest (c.rest ++ x :: tail) :=
    ⟨⟨head, code, hcode, hnested, by rw [hhead, List.append_nil], by rw [hhead]⟩, hP⟩
  have hentries : ∀ entry ∈ [['(']], entry ∈ brackets := by decide
  obtain ⟨-, left, ⟨⟨head', -, -, -, hhead', rfl⟩, -⟩, hechoes⟩ :=
    hvalue (c := ⟨c.position, c.rest, [['(']]⟩) hgoal hbeside (by rw [hrest]; exact hstill _)
      (by rw [hrest]; exact hstill _) hentries hinside
  dsimp only at hhead'
  rw [hend, List.append_nil] at hhead'
  obtain rfl := hhead'
  exact hechoes

end

end Lsl.Rule
