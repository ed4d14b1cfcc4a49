import Lsl.Proofs.Grammar.Comment
import Lsl.Proofs.Grammar.Termination
/-!
# What a match sees of the stack

A match looks no deeper into the stack than at the entry below its own.  So all below that may be
exchanged, and an opening parenthesis may take the place of no entry at all: it only tells where an
operator ends, and none starts with it.
-/

namespace Lsl.Rule

open Peg Pattern Lexeme

/-- Patterns that do not look at the entry below their own, but for operators. -/
def peekless : Pattern Rule → Bool
  | .peek => false
  | .rule r => r != .closingAngle
  | .seq p q | .alt p q => peekless p && peekless q
  | .star p | .more p | .ahead p | .notAhead p | .push p => peekless p
  | _ => true

/-- Patterns that look at the entry below their own only where they start. -/
def peeksFirst : Pattern Rule → Bool
  | .seq p q => peeksFirst p && peekless q
  | .alt p q => peeksFirst p && peeksFirst q
  | .star p | .more p => peekless p
  | .ahead p | .notAhead p | .push p => peeksFirst p
  | _ => true

theorem peekless_pattern {r : Rule} (hangle : r ≠ .closingAngle) (hoperator : r ≠ .binaryOperator) :
    peekless r.pattern = true := by
  cases r <;> first | rfl | contradiction

theorem peeksFirst_pattern (r : Rule) : peeksFirst r.pattern = true := by
  cases r <;> rfl

/-- Patterns that leave the stack as it is in every lookahead. -/
def calm : Pattern Rule → Bool
  | .seq p q | .alt p q => calm p && calm q
  | .star p | .more p | .push p => calm p
  | .ahead p | .notAhead p => calm p && p.pending 0 == some 0
  | _ => true

theorem calm_pattern (r : Rule) : calm r.pattern = true := by
  cases r <;> rfl

/-- Two stacks that the pattern does not tell apart on the text. -/
structure SeemsSame (p : Pattern Rule) (text : List Char) (s s' : List (List Char)) : Prop where
  calm : calm p = true
  top : s.head? = s'.head? ∨ s = [] ∧ s'.head? = some ['('] ∧
    (peekless p = true ∨ peeksFirst p = true ∧ text.head? ≠ some '(')

/-- What a match with some entries of its own comes to on another stack below them. -/
def Restacks (atomic : Bool) (p : Pattern Rule) (c : Cursor) (own s s' : List (List Char))
    (count : Nat) : Result Rule → Prop
  | none => Derives grammar atomic p ⟨c.position, c.rest, own ++ s'⟩ none
  | some (c', ts) => ∃ own' : List (List Char), own'.length = count ∧ c'.stack = own' ++ s ∧
      Derives grammar atomic p ⟨c.position, c.rest, own ++ s'⟩
        (some (⟨c'.position, c'.rest, own' ++ s'⟩, ts))

section

variable {p q : Pattern Rule} {text text' : List Char} {s s' : List (List Char)} {atomic : Bool}
  {c : Cursor} {own : List (List Char)} {n n' : Nat}

/-- Under entries of its own a pattern looks at no others. -/
theorem SeemsSame.under (own : List (List Char)) (hq : Rule.calm q = true)
    (h : own = [] → SeemsSame q text' s s') : SeemsSame q text' (own ++ s) (own ++ s') := by
  cases own with
  | nil => exact h rfl
  | cons entry own => exact ⟨hq, .inl rfl⟩

theorem SeemsSame.part (h : SeemsSame p text s s') (hcalm : Rule.calm q = true)
    (hpeek : peekless p = true → peekless q = true)
    (hfirst : peeksFirst p = true → peeksFirst q = true) : SeemsSame q text s s' :=
  ⟨hcalm, h.top.imp_right fun ⟨hs, hs', hp⟩ => ⟨hs, hs', hp.imp hpeek (And.imp_left hfirst)⟩⟩

theorem SeemsSame.later (h : SeemsSame p text s s') (hcalm : Rule.calm q = true)
    (hpeek : peekless p = true ∨ peeksFirst p = true → peekless q = true) :
    SeemsSame q text' s s' :=
  ⟨hcalm, h.top.imp_right fun ⟨hs, hs', hp⟩ => ⟨hs, hs', .inl (hpeek (hp.imp_right And.left))⟩⟩

/-! ### The parts of a pattern -/

namespace SeemsSame

theorem first (h : SeemsSame (.seq p q) text s s') : SeemsSame p text s s' := by
  have hcalm := h.calm
  exact h.part (by simp_all [Rule.calm]) (by simp_all [peekless]) (by simp_all [peeksFirst])

theorem second (h : SeemsSame (.seq p q) text s s') : SeemsSame q text' s s' := by
  have hcalm := h.calm
  exact h.later (by simp_all [Rule.calm]) (by simp_all [peekless, peeksFirst]; tauto)

theorem altFirst (h : SeemsSame (.alt p q) text s s') : SeemsSame p text s s' := by
  have hcalm := h.calm
  exact h.part (by simp_all [Rule.calm]) (by simp_all [peekless]) (by simp_all [peeksFirst])

theorem altSecond (h : SeemsSame (.alt p q) text s s') : SeemsSame q text s s' := by
  have hcalm := h.calm
  exact h.part (by simp_all [Rule.calm]) (by simp_all [peekless]) (by simp_all [peeksFirst])

theorem star (h : SeemsSame (.star p) text s s') :
    SeemsSame p text' s s' ∧ SeemsSame (.more p) text' s s' :=
  ⟨h.later h.calm (by simp [peekless, peeksFirst]), h.later h.calm (by simp [peekless, peeksFirst])⟩

theorem more (h : SeemsSame (.more p) text s s') :
    SeemsSame p text' s s' ∧ SeemsSame (.more p) text' s s' :=
  ⟨h.later h.calm (by simp [peekless, peeksFirst]), h.later h.calm (by simp [peekless, peeksFirst])⟩

end SeemsSame

/-! ### Exchanging what is below -/

/-- A step that does not touch the stack. -/
theorem restacks_of_aside {f : Cursor → Option Cursor} (hf : p.step? = some f)
    (haside : ∀ k text stack, f ⟨k, text, stack⟩ =
      (f ⟨k, text, []⟩).map fun c => { c with stack := stack })
    (hc : c.stack = own ++ s) (hn : own.length = n) :
    Restacks atomic p c own s s' n ((f c).map (·, [])) := by
  obtain ⟨k, rest, stack⟩ := c
  subst hc
  have hstep : Derives grammar atomic p ⟨k, rest, own ++ s'⟩ _ := .step hf
  rw [haside] at hstep ⊢
  cases hres : f ⟨k, rest, []⟩ with
  | none =>
    rw [hres] at hstep
    exact hstep
  | some c' =>
    rw [hres] at hstep
    exact ⟨own, hn, rfl, hstep⟩

private theorem restacks_peek {k : Nat} {rest : List Char}
    (htop : (own ++ s).head? = (own ++ s').head?) (hn : own.length = n) :
    Restacks atomic .peek ⟨k, rest, own ++ s⟩ own s s' n
      ((Cursor.acceptTop? ⟨k, rest, own ++ s⟩).map (·, [])) := by
  have hstep : Derives grammar atomic .peek ⟨k, rest, own ++ s'⟩ _ := .step rfl
  have hlook (stack : List (List Char)) : Cursor.acceptTop? ⟨k, rest, stack⟩ =
      stack.head?.bind fun top => Cursor.accept? ⟨k, rest, stack⟩ top := by
    cases stack <;> rfl
  rw [hlook, ← htop] at hstep
  rw [hlook]
  cases hlook : (own ++ s).head? with
  | none =>
    rw [hlook] at hstep
    exact hstep
  | some top =>
    simp only [hlook, Option.bind_some, Cursor.accept?] at hstep ⊢
    split <;> rename_i hpre
    · rw [if_pos hpre] at hstep
      exact ⟨own, hn, rfl, hstep⟩
    · rw [if_neg hpre] at hstep
      exact hstep

theorem restacks_step {f : Cursor → Option Cursor} (hf : p.step? = some f)
    (hc : c.stack = own ++ s) (hn : own.length = n) (hp : p.pending n = some n')
    (hs : SeemsSame p c.rest s s') : Restacks atomic p c own s s' n' ((f c).map (·, [])) := by
  have aside (haside : ∀ k text stack, f ⟨k, text, stack⟩ =
      (f ⟨k, text, []⟩).map fun c => { c with stack := stack }) (hcount : n' = n) :
      Restacks atomic p c own s s' n' ((f c).map (·, [])) :=
    hcount ▸ restacks_of_aside hf haside hc hn
  cases p <;> simp only [Pattern.step?, Option.some.injEq, reduceCtorEq] at hf <;> subst hf
  case lit chars =>
    refine aside (fun k text stack => ?_) (Option.some.inj hp).symm
    simp only [Cursor.accept?]
    split <;> rfl
  case caseless chars =>
    refine aside (fun k text stack => ?_) (Option.some.inj hp).symm
    simp only [Cursor.acceptCaseless?]
    split <;> rfl
  case one cls =>
    refine aside (fun k text stack => ?_) (Option.some.inj hp).symm
    cases text with
    | nil => rfl
    | cons x text =>
      simp only [Cursor.acceptOne?]
      split <;> rfl
  case startOfInput =>
    refine aside (fun k text stack => ?_) (Option.some.inj hp).symm
    dsimp only
    split <;> rfl
  case endOfInput =>
    refine aside (fun k text stack => ?_) (Option.some.inj hp).symm
    dsimp only
    split <;> rfl
  case pushLit chars =>
    cases hp
    have hstep : Derives grammar atomic (.pushLit chars) ⟨c.position, c.rest, own ++ s'⟩ _ :=
      .step rfl
    exact ⟨chars :: own, by rw [List.length_cons, hn], congrArg (chars :: ·) hc, hstep⟩
  case drop =>
    obtain ⟨k, rest, stack⟩ := c
    subst hc
    rw [Pattern.pending] at hp
    split at hp <;> cases hp
    cases own with
    | nil => exact absurd hn.symm ‹n ≠ 0›
    | cons entry own =>
      have hstep : Derives grammar atomic .drop ⟨k, rest, entry :: (own ++ s')⟩ _ := .step rfl
      exact ⟨own, by rw [← hn]; rfl, rfl, hstep⟩
  case peek =>
    cases hp
    obtain ⟨k, rest, stack⟩ := c
    subst hc
    rcases hs.top with htop | ⟨rfl, htop, hfirst⟩
    · exact restacks_peek (by rw [List.head?_append, htop, ← List.head?_append]) hn
    obtain ⟨below, rfl⟩ := List.head?_eq_some_iff.1 htop
    cases own with
    | cons entry own => exact restacks_peek rfl hn
    | nil =>
      have hrest : rest.head? ≠ some '(' := (hfirst.resolve_left Bool.false_ne_true).2
      have hpre : ['('].isPrefixOf rest = false := by
        cases rest with
        | nil => rfl
        | cons x rest =>
          have hne : x ≠ '(' := by simpa using hrest
          simp [List.isPrefixOf, hne.symm]
      have hstep : Derives grammar atomic .peek ⟨k, rest, ['('] :: below⟩ _ := .step rfl
      simp only [Cursor.acceptTop?, Cursor.accept?, hpre] at hstep
      exact hstep

/-- No operator starts with a parenthesis. -/
theorem binaryOperator_fails_open {rest : List Char} (hrest : c.rest = '(' :: rest) :
    Derives grammar atomic (.rule .binaryOperator) c none := by
  obtain ⟨res, hres⟩ := exists_derives atomic .binaryOperator c
  cases res with
  | none => exact hres
  | some result =>
    have hskip {c' : Cursor} {gs : List (ParseTree Rule)}
        (h : Derives grammar true (grammar.between atomic) c (some (c', gs))) : c' = c := by
      cases atomic with
      | true =>
        cases h.unique (Derives.between_true c)
        rfl
      | false =>
        have hsolid : Solid c.rest := hrest ▸ solid_cons rfl
        exact Grammar.Skips.unique ⟨_, h⟩ (skips_solid hsolid)
    have hinner := hres.of_silent rfl
    rw [show (atomic || grammar.isAtomic .binaryOperator) = atomic from atomic.or_false] at hinner
    obtain ⟨c₁, c₂, _, _, _, hangle, hgap, h, -⟩ := hinner.of_seq
    obtain rfl := hangle.of_notAhead.2.1
    obtain rfl := hskip hgap
    obtain ⟨c₃, c₄, _, _, _, hunary, hgap', hoperator, -⟩ := h.of_seq
    obtain rfl := hunary.of_notAhead.2.1
    obtain rfl := hskip hgap'
    obtain ⟨us, hwords, -⟩ := hoperator.of_node rfl
    obtain ⟨word, hword, hspans, -⟩ := hwords.of_words
    have hne : ∀ word ∈ operators, word.toList.head? ≠ some '(' ∧ word.toList ≠ [] := by decide
    obtain ⟨x, tail, htail⟩ := List.exists_cons_of_ne_nil (hne word hword).2
    have hspans := hspans.1
    rw [hrest, htail] at hspans
    cases hspans
    exact absurd (by rw [htail]; rfl) (hne word hword).1

theorem SeemsSame.rule {r : Rule} (hs : SeemsSame (.rule r) text s s')
    (hr : r = .binaryOperator → text.head? ≠ some '(') : SeemsSame r.pattern text s s' := by
  refine ⟨calm_pattern r, hs.top.imp_right fun ⟨hs, hs', hp⟩ => ⟨hs, hs', ?_⟩⟩
  by_cases hangle : r = .closingAngle
  · subst hangle
    exact .inr ⟨rfl, (hp.resolve_left nofun).2⟩
  by_cases hoperator : r = .binaryOperator
  · exact .inr ⟨peeksFirst_pattern r, hr hoperator⟩
  · exact .inl (peekless_pattern hangle hoperator)

/-- A match without entries of its own leaves the other stack as it is, too. -/
theorem Restacks.same {c' : Cursor} {ts : List (ParseTree Rule)}
    (h : Restacks atomic p c [] s s' 0 (some (c', ts))) :
    c'.stack = s ∧ Derives grammar atomic p ⟨c.position, c.rest, s'⟩
      (some (⟨c'.position, c'.rest, s'⟩, ts)) := by
  obtain ⟨own', hlength, hstack, hd⟩ := h
  obtain rfl := List.length_eq_zero_iff.1 hlength
  exact ⟨hstack, hd⟩

/-- A match does not look deeper into the stack than at the entry below its own. -/
theorem restacks_of_derives {res : Result Rule} (h : Derives grammar atomic p c res)
    (hc : c.stack = own ++ s) (hn : own.length = n) (hp : p.pending n = some n')
    (hs : SeemsSame p c.rest s s') : Restacks atomic p c own s s' n' res := by
  -- The pattern of a rule, a gap and a lookahead start without entries of their own.
  have inner {r : Rule} {c : Cursor} {own s s' : List (List Char)}
      (hs : SeemsSame (.rule r) c.rest s s')
      (hr : r = .binaryOperator → c.rest.head? ≠ some '(') :
      SeemsSame (grammar.pattern r) c.rest (own ++ s) (own ++ s') :=
    .under own (calm_pattern r) fun _ => hs.rule hr
  have hpending (atomic : Bool) : (grammar.between atomic).pending 0 = some 0 := by
    cases atomic <;> rfl
  have between {atomic : Bool} {p : Pattern Rule} {text text' : List Char}
      {own s s' : List (List Char)} (hs : SeemsSame p text s s') :
      SeemsSame (grammar.between atomic) text' (own ++ s) (own ++ s') := by
    have hcalm : calm (grammar.between atomic) = true := by cases atomic <;> rfl
    exact .under own hcalm fun _ => hs.later hcalm fun _ => by cases atomic <;> rfl
  have look {p q : Pattern Rule} {text : List Char} {own s s' : List (List Char)}
      (hs : SeemsSame p text s s') (hcalm : calm q = true)
      (hpeek : peekless p = true → peekless q = true)
      (hfirst : peeksFirst p = true → peeksFirst q = true) :
      SeemsSame q text (own ++ s) (own ++ s') :=
    .under own hcalm fun _ => hs.part hcalm hpeek hfirst
  induction h generalizing n n' own s s' with
  | step hf => exact restacks_step hf hc hn hp hs
  | @silent atomic r c res hsilent hd ih =>
    cases hp
    by_cases hopen : r = .binaryOperator ∧ c.rest.head? = some '('
    · obtain ⟨rfl, hhead⟩ := hopen
      obtain ⟨rest, hrest⟩ := List.head?_eq_some_iff.1 hhead
      cases Derives.unique (.silent hsilent hd) (binaryOperator_fails_open hrest)
      exact binaryOperator_fails_open hrest
    have hinner := @ih _ _ [] _ _ hc rfl (grammar_balanced.pattern r)
      (inner hs fun hr hhead => hopen ⟨hr, hhead⟩)
    cases res with
    | none => exact .silent hsilent hinner
    | some result =>
      obtain ⟨hstack, hd'⟩ := hinner.same
      exact ⟨own, hn, hstack, .silent hsilent hd'⟩
  | @node atomic r c c' ts hs' hd ih =>
    cases hp
    have hr : r = .binaryOperator → c.rest.head? ≠ some '(' := by
      rintro rfl
      cases hs'
    obtain ⟨hstack, hd'⟩ := (@ih _ _ [] _ _ hc rfl (grammar_balanced.pattern r) (inner hs hr)).same
    exact ⟨own, hn, hstack, .node hs' hd'⟩
  | @nodeFail atomic r c hs' hd ih =>
    cases hp
    have hr : r = .binaryOperator → c.rest.head? ≠ some '(' := by
      rintro rfl
      cases hs'
    exact .nodeFail hs' (@ih _ _ [] _ _ hc rfl (grammar_balanced.pattern r) (inner hs hr))
  | seq hfirst hgap hsecond ih₁ ih₂ ih₃ =>
    obtain ⟨n₁, hp, hq⟩ := Option.bind_eq_some_iff.1 hp
    obtain ⟨own₁, hn₁, hc₁, hd₁⟩ := ih₁ hc hn hp hs.first
    obtain ⟨hc₂, hd₂⟩ := (@ih₂ _ _ [] _ _ hc₁ rfl (hpending _) (between hs)).same
    obtain ⟨own₃, hn₃, hc₃, hd₃⟩ := ih₃ hc₂ hn₁ hq hs.second
    exact ⟨own₃, hn₃, hc₃, .seq hd₁ hd₂ hd₃⟩
  | seqFirst hfirst ih =>
    obtain ⟨n₁, hp, -⟩ := Option.bind_eq_some_iff.1 hp
    exact .seqFirst (ih hc hn hp hs.first)
  | seqBetween hfirst hgap ih₁ ih₂ =>
    obtain ⟨n₁, hp, -⟩ := Option.bind_eq_some_iff.1 hp
    obtain ⟨own₁, hn₁, hc₁, hd₁⟩ := ih₁ hc hn hp hs.first
    exact .seqBetween hd₁ (@ih₂ _ _ [] _ _ hc₁ rfl (hpending _) (between hs))
  | seqSecond hfirst hgap hsecond ih₁ ih₂ ih₃ =>
    obtain ⟨n₁, hp, hq⟩ := Option.bind_eq_some_iff.1 hp
    obtain ⟨own₁, hn₁, hc₁, hd₁⟩ := ih₁ hc hn hp hs.first
    obtain ⟨hc₂, hd₂⟩ := (@ih₂ _ _ [] _ _ hc₁ rfl (hpending _) (between hs)).same
    exact .seqSecond hd₁ hd₂ (ih₃ hc₂ hn₁ hq hs.second)
  | altFirst hd ih =>
    rw [Pattern.pending] at hp
    split at hp
    · obtain ⟨own', hn', hc', hd'⟩ := ih hc hn hp hs.altFirst
      exact ⟨own', hn', hc', .altFirst hd'⟩
    · cases hp
  | @altSecond _ _ _ _ res hfirst hd ih₁ ih₂ =>
    rw [Pattern.pending] at hp
    split at hp
    · next heq =>
      have hfail := ih₁ hc hn hp hs.altFirst
      have hsecond := ih₂ hc hn (heq ▸ hp) hs.altSecond
      cases res with
      | none => exact .altSecond hfail hsecond
      | some result =>
        obtain ⟨own', hn', hc', hd'⟩ := hsecond
        exact ⟨own', hn', hc', .altSecond hfail hd'⟩
    · cases hp
  | starNone hd ih =>
    rw [Pattern.pending] at hp
    split at hp <;> cases hp
    exact ⟨own, hn, hc, .starNone (ih hc hn ‹_› hs.star.1)⟩
  | starSome hfirst hmore ih₁ ih₂ =>
    have hmore := hp
    rw [Pattern.pending] at hp
    split at hp
    · next hround =>
      cases hp
      obtain ⟨own₁, hn₁, hc₁, hd₁⟩ := ih₁ hc hn hround hs.star.1
      obtain ⟨own₂, hn₂, hc₂, hd₂⟩ := ih₂ hc₁ hn₁ hmore hs.star.2
      exact ⟨own₂, hn₂, hc₂, .starSome hd₁ hd₂⟩
    · cases hp
  | moreBetween hgap ih =>
    rw [Pattern.pending] at hp
    split at hp <;> cases hp
    exact ⟨own, hn, hc, .moreBetween (@ih _ _ [] _ _ hc rfl (hpending _) (between hs))⟩
  | moreNone hgap hd ih₁ ih₂ =>
    rw [Pattern.pending] at hp
    split at hp <;> cases hp
    obtain ⟨hc₁, hd₁⟩ := (@ih₁ _ _ [] _ _ hc rfl (hpending _) (between hs)).same
    exact ⟨own, hn, hc, .moreNone hd₁ (ih₂ hc₁ hn ‹_› hs.more.1)⟩
  | moreSome hgap hfirst hmore ih₁ ih₂ ih₃ =>
    have hmore := hp
    rw [Pattern.pending] at hp
    split at hp
    · next hround =>
      cases hp
      obtain ⟨hc₁, hd₁⟩ := (@ih₁ _ _ [] _ _ hc rfl (hpending _) (between hs)).same
      obtain ⟨own₂, hn₂, hc₂, hd₂⟩ := ih₂ hc₁ hn hround hs.more.1
      obtain ⟨own₃, hn₃, hc₃, hd₃⟩ := ih₃ hc₂ hn₂ hmore hs.more.2
      exact ⟨own₃, hn₃, hc₃, .moreSome hd₁ hd₂ hd₃⟩
    · cases hp
  | ahead hd ih =>
    cases hp
    obtain ⟨hcalm, hpending⟩ := Bool.and_eq_true_iff.1 hs.calm
    obtain ⟨own', -, -, hd'⟩ :=
      @ih _ _ [] _ _ hc rfl (beq_iff_eq.1 hpending) (look hs hcalm id id)
    exact ⟨own, hn, hc, .ahead hd'⟩
  | aheadFail hd ih =>
    cases hp
    obtain ⟨hcalm, hpending⟩ := Bool.and_eq_true_iff.1 hs.calm
    exact .aheadFail (@ih _ _ [] _ _ hc rfl (beq_iff_eq.1 hpending) (look hs hcalm id id))
  | notAhead hd ih =>
    cases hp
    obtain ⟨hcalm, hpending⟩ := Bool.and_eq_true_iff.1 hs.calm
    have hfail := @ih _ _ [] _ _ hc rfl (beq_iff_eq.1 hpending) (look hs hcalm id id)
    exact ⟨own, hn, hc, .notAhead hfail⟩
  | notAheadFail hd ih =>
    cases hp
    obtain ⟨hcalm, hpending⟩ := Bool.and_eq_true_iff.1 hs.calm
    obtain ⟨own', -, -, hd'⟩ :=
      @ih _ _ [] _ _ hc rfl (beq_iff_eq.1 hpending) (look hs hcalm id id)
    exact .notAheadFail hd'
  | push hd ih =>
    obtain ⟨n₁, hp', rfl⟩ := Option.map_eq_some_iff.1 hp
    obtain ⟨own₁, hn₁, hc₁, hd₁⟩ := ih hc hn hp' (hs.part hs.calm id id)
    exact ⟨_ :: own₁, by rw [List.length_cons, hn₁], congrArg (_ :: ·) hc₁, .push hd₁⟩
  | pushFail hd ih =>
    obtain ⟨n₁, hp', -⟩ := Option.map_eq_some_iff.1 hp
    exact .pushFail (ih hc hn hp' (hs.part hs.calm id id))

end

end Lsl.Rule
