import Lsl.Proofs.Convert.Alike
import Lsl.Proofs.Grammar.Code
/-!
# Reading two texts in step

A relation between what remains of two texts that gaps, literals and words keep is kept by every rule:
what matches on the first text matches on the second, with a tree that is alike, and what fails on the
first fails on the second.  The relation may depend on a count that some literals move, such as the
number of open brackets.
-/

namespace Lsl.Rule

open Peg Pattern Lexeme

/-! ## Nodes without parts -/

/-- Patterns that leave a node in every match. -/
def marked : Pattern Rule → Bool
  | .rule r => !r.isSilent
  | .seq p q => marked p || marked q
  | .alt p q => marked p && marked q
  | _ => false

/-- Patterns that leave no node only where they take nothing. -/
def bare : Pattern Rule → Bool
  | .endOfInput => true
  | .star p => marked p
  | .alt p (.lit []) => marked p
  | p => marked p

section

variable {p : Pattern Rule} {c c' : Cursor} {ts : List (ParseTree Rule)}

theorem ne_nil_of_marked (hp : marked p = true)
    (h : Derives grammar false p c (some (c', ts))) : ts ≠ [] := by
  induction p generalizing c c' ts with
  | rule r =>
    have hsilent : r.isSilent = false := by simpa [marked] using hp
    obtain ⟨us, -, rfl⟩ := h.of_node hsilent
    exact List.cons_ne_nil _ _
  | seq p q ihp ihq =>
    obtain ⟨_, _, us, _, vs, hfirst, -, hsecond, rfl⟩ := h.of_seq
    rw [marked, Bool.or_eq_true] at hp
    rcases hp with hp | hq
    · exact List.append_ne_nil_of_left_ne_nil (ihp hp hfirst) vs
    · exact List.append_ne_nil_of_right_ne_nil us (ihq hq hsecond)
  | alt p q ihp ihq =>
    rw [marked, Bool.and_eq_true] at hp
    rcases h.of_alt with h | h
    · exact ihp hp.1 h
    · exact ihq hp.2 h
  | _ => cases hp

theorem eq_of_bare (hp : bare p = true) (h : Derives grammar false p c (some (c', []))) :
    c' = c := by
  have hmarked (hp : marked p = true) : c' = c := absurd rfl (ne_nil_of_marked hp h)
  fun_cases bare p with
  | case1 =>
    have hstep : Derives grammar false .endOfInput c _ := .step rfl
    have heq := h.unique hstep
    split at heq
    · cases heq
      rfl
    · cases heq
  | case2 p =>
    rcases h.of_star with ⟨-, rfl, -⟩ | ⟨_, us, vs, hround, -, hnil⟩
    · rfl
    · have hus := (List.append_eq_nil_iff.1 hnil.symm).1
      exact absurd hus (ne_nil_of_marked hp hround)
  | case3 p =>
    rcases h.of_alt with h | h
    · exact absurd rfl (ne_nil_of_marked hp h)
    · have hspans := Cursor.accept?_eq_some h.of_lit
      exact Cursor.Spans.unique hspans.1 (.refl c) hspans.2
  | case4 => exact hmarked (by simpa [bare] using hp)

/-- A node that is neither a text nor of a kind has no text if it has no parts. -/
theorem textTo_of_bare {r : Rule} (hkind : r.kind? = none) (hsilent : r.isSilent = false)
    (hatomic : r.isAtomic = false) (h : Derives grammar false r.pattern c (some (c', []))) :
    c.textTo c' = [] := by
  have hbare : bare r.pattern = true := by
    cases r <;> first | (cases hkind; done) | (cases hsilent; done) | (cases hatomic; done) | rfl
  rw [eq_of_bare hbare h, (Cursor.Spans.refl c).textTo]

end

/-! ## Gaps -/

/-- A gap ends where its function says. -/
theorem afterGap_of_derives {c c' : Cursor} {gs : List (ParseTree Rule)}
    (h : Derives grammar true grammar.gap c (some (c', gs))) :
    c'.rest = afterGap c.rest ∧ c'.stack = c.stack := by
  refine ⟨?_, skips_stack ⟨_, h⟩⟩
  obtain ⟨text, htext, hspans, -⟩ := scans_gap.eq_some h
  cases htext
  have hdrop := congrArg (List.drop (takeGap c.rest).length) hspans
  rw [List.drop_left] at hdrop
  exact hdrop.symm

theorem takePiece?_afterGap (text : List Char) : takePiece? (afterGap text) = none := by
  induction hn : text.length using Nat.strongRecOn generalizing text with
  | ind n ih =>
    subst hn
    cases hpiece : takePiece? text with
    | none => rwa [afterGap_of_none hpiece]
    | some piece =>
      rw [afterGap_of_some hpiece]
      exact ih _ (length_drop_piece hpiece) _ rfl

/-! ## Relations that the grammar keeps -/

/-- The entries of the stack. -/
def brackets : List (List Char) :=
  [['('], ['['], [','], ['>']]

/-- The rules, whatever the count. -/
abbrev anywhere (rules : Rule → Bool) (r : Rule) (_ : Nat) : Bool :=
  rules r

/-- Where a match of the pattern takes a count that literals move, if all its literals and rules may
be used there. -/
def flow (move : List Char → Nat → Option Nat) (rules : Rule → Nat → Bool) :
    Pattern Rule → Nat → Option Nat
  | .lit chars, n => move chars n
  | .rule r, n => if rules r n then some n else none
  | .seq p q, n => (flow move rules p n).bind (flow move rules q)
  | .alt p q, n => if flow move rules p n = flow move rules q n then flow move rules p n else none
  | .star p, n | .more p, n => if flow move rules p n = some n then some n else none
  | .ahead p, n | .notAhead p, n => (flow move rules p n).map fun _ => n
  | .push (.lit chars), n => if brackets.contains chars then move chars n else none
  | .pushLit chars, n => if brackets.contains chars then some n else none
  | .drop, n => some n
  | .peek, n => if brackets.all (fun chars => move chars n == some n) then some n else none
  | _, _ => none

/-- The pattern leads from a stack and a text to a stack and a rest, with trees like the given
ones. -/
def Echoes (p : Pattern Rule) (stack : List (List Char)) (text : List Char)
    (stack' : List (List Char)) (rest : List Char) (ts : List (ParseTree Rule)) : Prop :=
  ∀ k, ∃ k' us, Derives grammar false p ⟨k, text, stack⟩ (some (⟨k', rest, stack'⟩, us)) ∧
    List.Forall₂ Alike ts us

/-- What a match on one text comes to on another: the rests are related as well. -/
def Mirrors (R : List Char → List Char → Prop) (p : Pattern Rule) (stack : List (List Char))
    (text : List Char) : Result Rule → Prop
  | none => Fails p stack text
  | some (c', ts) => (∀ entry ∈ c'.stack, entry ∈ brackets) ∧
      ∃ rest, R c'.rest rest ∧ Echoes p stack text c'.stack rest ts

/-- Where no gap comes first, the pattern is read in step from texts in the first relation to texts in
the second, at the goals that the match may come to. -/
def InStep (goals : Goal Rule → Prop) (R : List Char → List Char → Prop) (p : Pattern Rule)
    (R' : List Char → List Char → Prop) : Prop :=
  ∀ {c : Cursor} {text : List Char} {res : Result Rule}, goals ⟨false, p, c⟩ → R c.rest text →
    takePiece? c.rest = none → takePiece? text = none → (∀ entry ∈ c.stack, entry ∈ brackets) →
    Derives grammar false p c res → Mirrors R' p c.stack text res

/-- A relation between remaining texts, at a count, that gaps, literals and words keep. A rule is read in
step by its pattern, or because it is known to be at the goals that the match may come to. -/
structure Tracks (goals : Goal Rule → Prop) (move : List Char → Nat → Option Nat)
    (rules : Rule → Nat → Bool) (R : Nat → List Char → List Char → Prop) : Prop where
  calls : grammar.Closed goals
  pattern {r : Rule} {n : Nat} : rules r n = true → r.isAtomic = false →
    (∃ k ≤ n, flow move rules r.pattern k = some k) ∨
      ∀ m, InStep goals (R (m + n)) (.rule r) (R (m + n))
  atomic {r : Rule} {n : Nat} : rules r n = true → r.isAtomic = true → r.isSilent = false
  gap {n : Nat} {text text' : List Char} : R n text text' → R n (afterGap text) (afterGap text')
  lit {m n n' : Nat} {chars text text' : List Char} : move chars n = some n' →
    R (m + n) text text' → takePiece? text = none → takePiece? text' = none →
    (∃ rest rest', text = chars ++ rest ∧ text' = chars ++ rest' ∧ R (m + n') rest rest') ∨
      (chars.isPrefixOf text = false ∧ chars.isPrefixOf text' = false)
  word {r : Rule} {take? : List Char → Option (List Char)} {m n : Nat} {text text' : List Char} :
    rules r n = true → r.isAtomic = true → Scans grammar (.rule r) take? → R (m + n) text text' →
    takePiece? text = none → takePiece? text' = none →
    (∃ taken rest rest', take? text = some taken ∧ take? text' = some taken ∧
      text = taken ++ rest ∧ text' = taken ++ rest' ∧ R (m + n) rest rest') ∨
      (take? text = none ∧ take? text' = none)

/-- The rules that the parts of a script are made of. -/
def isPart : Rule → Bool
  | .script | .endOfInput | .whitespace | .comment | .identChar | .exponent => false
  | _ => true

section

variable {p q : Pattern Rule} {s s₁ s₂ : List (List Char)} {text text₁ rest rest₁ : List Char}
  {ts us : List (ParseTree Rule)}

namespace Echoes

protected theorem lit (chars : List Char) : Echoes (.lit chars) s (chars ++ rest) s rest [] :=
  fun _ => ⟨_, [], .lit ⟨rfl, rfl⟩ rfl, .nil⟩

protected theorem seq (hp : Echoes p s text s₁ rest₁ ts)
    (hq : Echoes q s₁ (afterGap rest₁) s₂ rest us) :
    Echoes (.seq p q) s text s₂ rest (ts ++ us) := by
  intro k
  obtain ⟨k₁, ts', hts, halike⟩ := hp k
  obtain ⟨k₂, gs, hgap⟩ := gapTo_afterGap rest₁ k₁ s₁
  obtain ⟨k₃, us', hus, halike'⟩ := hq k₂
  exact ⟨k₃, _, .seq hts hgap hus, List.rel_append halike halike'⟩

theorem altFirst (hp : Echoes p s text s₁ rest ts) : Echoes (.alt p q) s text s₁ rest ts := by
  intro k
  obtain ⟨k', us, hus, halike⟩ := hp k
  exact ⟨k', us, .altFirst hus, halike⟩

theorem altSecond (hp : Fails p s text) (hq : Echoes q s text s₁ rest ts) :
    Echoes (.alt p q) s text s₁ rest ts := by
  intro k
  obtain ⟨k', us, hus, halike⟩ := hq k
  exact ⟨k', us, .altSecond (hp k) hus, halike⟩

theorem starNone (hp : Fails p s text) : Echoes (.star p) s text s text [] :=
  fun k => ⟨k, [], .starNone (hp k), .nil⟩

theorem starSome (hp : Echoes p s text s₁ rest₁ ts)
    (hmore : Echoes (.more p) s₁ rest₁ s₂ rest us) :
    Echoes (.star p) s text s₂ rest (ts ++ us) := by
  intro k
  obtain ⟨k₁, ts', hts, halike⟩ := hp k
  obtain ⟨k₂, us', hus, halike'⟩ := hmore k₁
  exact ⟨k₂, _, .starSome hts hus, List.rel_append halike halike'⟩

theorem moreNone (hp : Fails p s (afterGap text)) : Echoes (.more p) s text s text [] := by
  intro k
  obtain ⟨k', gs, hgap⟩ := gapTo_afterGap text k s
  exact ⟨k, [], .moreNone hgap (hp k'), .nil⟩

theorem moreSome (hp : Echoes p s (afterGap text) s₁ rest₁ ts)
    (hmore : Echoes (.more p) s₁ rest₁ s₂ rest us) :
    Echoes (.more p) s text s₂ rest (ts ++ us) := by
  intro k
  obtain ⟨k', gs, hgap⟩ := gapTo_afterGap text k s
  obtain ⟨k₁, ts', hts, halike⟩ := hp k'
  obtain ⟨k₂, us', hus, halike'⟩ := hmore k₁
  exact ⟨k₂, _, .moreSome hgap hts hus, List.rel_append halike halike'⟩

protected theorem ahead (hp : Echoes p s text s₁ rest ts) : Echoes (.ahead p) s text s text [] := by
  intro k
  obtain ⟨_, _, hus, -⟩ := hp k
  exact ⟨k, [], .ahead hus, .nil⟩

protected theorem notAhead (hp : Fails p s text) : Echoes (.notAhead p) s text s text [] :=
  fun k => ⟨k, [], .notAhead (hp k), .nil⟩

theorem push (chars : List Char) :
    Echoes (.push (.lit chars)) s (chars ++ rest) (chars :: s) rest [] := by
  intro k
  have hspans : Cursor.Spans ⟨k, chars ++ rest, s⟩ chars ⟨k + chars.length, rest, s⟩ := ⟨rfl, rfl⟩
  have hpush : Derives grammar false (.push (.lit chars)) ⟨k, chars ++ rest, s⟩ _ :=
    .push (.lit hspans rfl)
  rw [hspans.textTo] at hpush
  exact ⟨_, _, hpush, .nil⟩

theorem pushLit (chars : List Char) : Echoes (.pushLit chars) s text (chars :: s) text [] := by
  intro k
  have hstep : Derives grammar false (.pushLit chars) ⟨k, text, s⟩ _ := .step rfl
  exact ⟨k, [], hstep, .nil⟩

theorem drop (top : List Char) : Echoes .drop (top :: s) text s text [] := by
  intro k
  have hstep : Derives grammar false .drop ⟨k, text, top :: s⟩ _ := .step rfl
  exact ⟨k, [], hstep, .nil⟩

theorem peek (top : List Char) : Echoes .peek (top :: s) (top ++ rest) (top :: s) rest [] := by
  intro k
  obtain ⟨k', _, hpeek, hshows⟩ := (@Reads.peek s rest top) k
  cases hshows
  exact ⟨k', [], hpeek, .nil⟩

theorem silent {r : Rule} (hs : r.isSilent = true) (ha : r.isAtomic = false)
    (h : Echoes r.pattern s text s₁ rest ts) : Echoes (.rule r) s text s₁ rest ts := by
  intro k
  obtain ⟨k', us, hus, halike⟩ := h k
  refine ⟨k', us, .silent hs ?_, halike⟩
  have : grammar.isAtomic r = false := ha
  rwa [this]

/-- The node of a rule with parts. The texts of the nodes may differ. -/
theorem node {r : Rule} (hs : r.isSilent = false) (ha : r.isAtomic = false) {c c' : Cursor}
    (hd : Derives grammar false r.pattern c (some (c', ts)))
    (h : Echoes r.pattern s text s₁ rest ts) :
    Echoes (.rule r) s text s₁ rest [⟨r, String.ofList (c.textTo c'), ts⟩] := by
  intro k
  obtain ⟨k', us, hus, halike⟩ := h k
  have hus' : Derives grammar (false || grammar.isAtomic r) (grammar.pattern r) ⟨k, text, s⟩
      (some (⟨k', rest, s₁⟩, us)) := by
    have : grammar.isAtomic r = false := ha
    rwa [this]
  refine ⟨k', _, .node hs hus', .cons (.node halike ?_) .nil⟩
  rintro rfl hkind
  cases halike
  rw [textTo_of_bare hkind hs ha hd, textTo_of_bare hkind hs ha hus]

/-- The node of a rule without parts, with its text. -/
theorem leaf {r : Rule} {take? : List Char → Option (List Char)} {taken : List Char}
    (hscans : Scans grammar (.rule r) take?) (hs : r.isSilent = false) (ha : r.isAtomic = true)
    (htake : take? (taken ++ rest) = some taken) :
    Echoes (.rule r) s (taken ++ rest) s rest [⟨r, String.ofList taken, []⟩] :=
  fun k => ⟨_, _, derives_leaf hscans hs ha htake k, .cons (fun _ => id) .nil⟩

theorem shows (h : Echoes p s text s₁ rest ts) {items : List Item}
    (hitems : List.Forall₂ Shows ts items) : Reads p s text s₁ rest items := by
  intro k
  obtain ⟨k', us, hus, halike⟩ := h k
  exact ⟨k', us, hus, Alike.shows halike hitems⟩

end Echoes

theorem Fails.of_notAhead (hp : Echoes p s text s₁ rest ts) : Fails (.notAhead p) s text := by
  intro k
  obtain ⟨_, _, hus, -⟩ := hp k
  exact .notAheadFail hus

theorem Fails.of_seqSecond (hp : Echoes p s text s₁ rest₁ ts)
    (hq : Fails q s₁ (afterGap rest₁)) : Fails (.seq p q) s text := by
  intro k
  obtain ⟨k₁, _, hts, -⟩ := hp k
  obtain ⟨k₂, _, hgap⟩ := gapTo_afterGap rest₁ k₁ s₁
  exact .seqSecond hts hgap (hq k₂)

end

/-! ## Parts in step -/

section

variable {R R₁ R' : List Char → List Char → Prop} {p q : Pattern Rule} {c : Cursor}
  {text : List Char} {res : Result Rule}

theorem Mirrors.mono (hR : ∀ {rest rest'}, R rest rest' → R' rest rest') {s : List (List Char)}
    (h : Mirrors R p s text res) : Mirrors R' p s text res := by
  cases res with
  | none => exact h
  | some result =>
    obtain ⟨hstack, rest, hrest, hechoes⟩ := h
    exact ⟨hstack, rest, hR hrest, hechoes⟩

/-- The gap after a match is skipped on both texts. -/
theorem Mirrors.skip {s : List (List Char)} {c₁ c₂ : Cursor} {ts gs : List (ParseTree Rule)}
    (h : Mirrors R p s text (some (c₁, ts)))
    (hgap : ∀ {rest rest'}, R rest rest' → R (afterGap rest) (afterGap rest'))
    (hskip : Derives grammar true grammar.gap c₁ (some (c₂, gs))) :
    ∃ rest, Echoes p s text c₂.stack rest ts ∧ R c₂.rest (afterGap rest) ∧
      takePiece? c₂.rest = none ∧ ∀ entry ∈ c₂.stack, entry ∈ brackets := by
  obtain ⟨hstack, rest, hrest, hechoes⟩ := h
  obtain ⟨hrest₂, hstack₂⟩ := afterGap_of_derives hskip
  rw [hrest₂, hstack₂]
  exact ⟨rest, hechoes, hgap hrest, takePiece?_afterGap _, hstack⟩

theorem mirrors_seq (R₁ : List Char → List Char → Prop)
    (hgap : ∀ rest rest', R₁ rest rest' → R₁ (afterGap rest) (afterGap rest'))
    (hp : ∀ {res}, Derives grammar false p c res → Mirrors R₁ p c.stack text res)
    (hq : InStep (fun _ => True) R₁ q R') (h : Derives grammar false (.seq p q) c res) :
    Mirrors R' (.seq p q) c.stack text res := by
  cases res with
  | none =>
    rcases h.of_seq_fail with hfirst | ⟨c₁, _, hfirst, hskip | ⟨c₂, _, hskip, hlast⟩⟩
    · have hfails : Fails p c.stack text := hp hfirst
      exact hfails.seqFirst
    · exact absurd hskip not_gap_fail
    · obtain ⟨rest, hechoes, hrest, hstill, hstack⟩ := (hp hfirst).skip (hgap _ _) hskip
      exact .of_seqSecond hechoes (hq trivial hrest hstill (takePiece?_afterGap rest) hstack hlast)
  | some result =>
    obtain ⟨c', ts⟩ := result
    obtain ⟨c₁, c₂, _, _, _, hfirst, hskip, hlast, rfl⟩ := h.of_seq
    obtain ⟨rest, hechoes, hrest, hstill, hstack⟩ := (hp hfirst).skip (hgap _ _) hskip
    obtain ⟨hstack', rest', hrest', hechoes'⟩ :=
      hq trivial hrest hstill (takePiece?_afterGap rest) hstack hlast
    exact ⟨hstack', rest', hrest', hechoes.seq hechoes'⟩

theorem mirrors_notAhead (htext : R' c.rest text) (hstack : ∀ entry ∈ c.stack, entry ∈ brackets)
    (hp : ∀ {res}, Derives grammar false p c res → Mirrors R p c.stack text res)
    (h : Derives grammar false (.notAhead p) c res) : Mirrors R' (.notAhead p) c.stack text res := by
  cases res with
  | none =>
    obtain ⟨_, h⟩ := h.of_notAhead_fail
    obtain ⟨-, _, -, hechoes⟩ := hp h
    exact .of_notAhead hechoes
  | some result =>
    obtain ⟨c', ts⟩ := result
    obtain ⟨hnone, rfl, rfl⟩ := h.of_notAhead
    exact ⟨hstack, text, htext, .notAhead (hp hnone)⟩

/-- The top of the stack is at the head of both texts, or of neither. -/
theorem mirrors_peek {k : Nat} {top rest : List Char} {below : List (List Char)}
    (hlit : (∃ left left', rest = top ++ left ∧ text = top ++ left' ∧ R left left') ∨
      (top.isPrefixOf rest = false ∧ top.isPrefixOf text = false))
    (hstack : ∀ entry ∈ top :: below, entry ∈ brackets) :
    Mirrors R .peek (top :: below) text
      ((Cursor.acceptTop? ⟨k, rest, top :: below⟩).map (·, [])) := by
  rcases hlit with ⟨left, left', rfl, rfl, hleft⟩ | ⟨hnone, hnone'⟩
  · have hspans : Cursor.Spans ⟨k, top ++ left, top :: below⟩ top
        ⟨k + top.length, left, top :: below⟩ := ⟨rfl, rfl⟩
    have haccept : Cursor.acceptTop? ⟨k, top ++ left, top :: below⟩ = _ :=
      Cursor.accept?_of_spans hspans rfl
    rw [haccept]
    exact ⟨hstack, left', hleft, .peek top⟩
  · have haccept : Cursor.acceptTop? ⟨k, rest, top :: below⟩ = none :=
      if_neg (by rw [hnone]; exact Bool.false_ne_true)
    rw [haccept]
    refine .peek ?_
    rintro _ ⟨⟩
    exact hnone'

theorem mirrors_silent {r : Rule} (hs : r.isSilent = true) (ha : r.isAtomic = false)
    (hr : ∀ {res}, Derives grammar false r.pattern c res → Mirrors R r.pattern c.stack text res)
    (h : Derives grammar false (.rule r) c res) : Mirrors R (.rule r) c.stack text res := by
  have h := h.of_silent hs
  rw [show (false || grammar.isAtomic r) = false from ha] at h
  cases res with
  | none => exact .rule ha (hr h)
  | some result =>
    obtain ⟨hstack, rest, hrest, hechoes⟩ := hr h
    exact ⟨hstack, rest, hrest, .silent hs ha hechoes⟩

end

/-- Every rule that is atomic takes what some function says. -/
theorem exists_scans {r : Rule} (h : r.isAtomic = true) :
    ∃ take?, Scans grammar (.rule r) take? := by
  cases r
  case whitespace => exact ⟨_, scans_whitespace⟩
  case comment => exact ⟨_, scans_comment⟩
  case keyword => exact ⟨_, scans_keyword⟩
  case typeName => exact ⟨_, scans_typeName⟩
  case name => exact ⟨_, scans_name⟩
  case ident => exact ⟨_, scans_ident⟩
  case operator => exact ⟨_, scans_operator⟩
  case member => exact ⟨_, scans_member⟩
  case float => exact ⟨_, scans_float⟩
  case integer => exact ⟨_, scans_integer⟩
  case string => exact ⟨_, scans_string⟩
  all_goals cases h

section

variable {goals : Goal Rule → Prop} {move : List Char → Nat → Option Nat}
  {rules : Rule → Nat → Bool} {R : Nat → List Char → List Char → Prop}

/-- Where a literal is found on both texts, or on neither. -/
theorem mirrors_lit (hR : Tracks goals move rules R) {m n n' : Nat} {chars text : List Char} {c : Cursor}
    (hmove : move chars n = some n') (htext : R (m + n) c.rest text)
    (hstill : takePiece? c.rest = none) (hstill' : takePiece? text = none)
    (hstack : ∀ entry ∈ c.stack, entry ∈ brackets) :
    Mirrors (R (m + n')) (.lit chars) c.stack text ((c.accept? chars).map (·, [])) := by
  rcases hR.lit hmove htext hstill hstill' with ⟨rest, rest', hrest, rfl, hrests⟩ | ⟨hnone, hnone'⟩
  · have hspans : c.Spans chars ⟨c.position + chars.length, rest, c.stack⟩ := ⟨hrest, rfl⟩
    rw [Cursor.accept?_of_spans hspans rfl]
    exact ⟨hstack, rest', hrests, .lit chars⟩
  · rw [Cursor.accept?, hnone]
    exact .lit hnone'

theorem mirrors_push (hR : Tracks goals move rules R) {m n n' : Nat} {chars text : List Char} {c : Cursor}
    (hp : flow move rules (.push (.lit chars)) n = some n') (htext : R (m + n) c.rest text)
    (hstill : takePiece? c.rest = none) (hstill' : takePiece? text = none)
    (hstack : ∀ entry ∈ c.stack, entry ∈ brackets) {res : Result Rule}
    (h : Derives grammar false (.push (.lit chars)) c res) :
    Mirrors (R (m + n')) (.push (.lit chars)) c.stack text res := by
  rw [flow] at hp
  split at hp
  · next hchars =>
    have hmem := List.contains_iff_mem.1 hchars
    obtain ⟨k, rest₀, stack⟩ := c
    rcases hR.lit hp htext hstill hstill' with
      ⟨rest, rest', rfl, rfl, hrests⟩ | ⟨hnone, hnone'⟩
    · obtain ⟨_, _, hpush, halike⟩ := (@Echoes.push stack rest chars) k
      cases halike
      rw [h.unique hpush]
      refine ⟨?_, rest', hrests, .push chars⟩
      rintro entry (_ | ⟨_, hentry⟩)
      · exact hmem
      · exact hstack entry hentry
    · have hfail : Fails (.push (.lit chars)) stack rest₀ := .push (.lit hnone)
      rw [h.unique (hfail k)]
      exact .push (.lit hnone')
  · cases hp

/-- A rule without parts takes the same from both texts, or fails on both. -/
theorem mirrors_word (hR : Tracks goals move rules R) {r : Rule} {m n : Nat} (hr : rules r n = true)
    (ha : r.isAtomic = true) : InStep goals (R (m + n)) (.rule r) (R (m + n)) := by
  intro c text res _ htext hstill hstill' hstack h
  obtain ⟨take?, hscans⟩ := exists_scans ha
  have hs := hR.atomic hr ha
  obtain ⟨k, rest₀, stack⟩ := c
  rcases hR.word hr ha hscans htext hstill hstill' with
    ⟨taken, rest, rest', htake, htake', rfl, rfl, hrests⟩ | ⟨hnone, hnone'⟩
  · rw [h.unique (derives_leaf hscans hs ha htake k)]
    exact ⟨hstack, rest', hrests, .leaf hscans hs ha htake'⟩
  · have hfail : Fails (.rule r) stack rest₀ := .of_scans hscans hs ha hnone
    rw [h.unique (hfail k)]
    exact .of_scans hscans hs ha hnone'

/-- After a gap on both texts there is no other, and the rests are still related. -/
theorem Tracks.skip (hR : Tracks goals move rules R) {n : Nat} {c c' : Cursor} {text : List Char}
    {gs : List (ParseTree Rule)} (htext : R n c.rest text)
    (h : Derives grammar true (grammar.between false) c (some (c', gs))) :
    R n c'.rest (afterGap text) ∧ c'.stack = c.stack ∧ takePiece? c'.rest = none := by
  obtain ⟨hrest, hstack⟩ := afterGap_of_derives h
  rw [hrest]
  exact ⟨hR.gap htext, hstack, takePiece?_afterGap _⟩

/-- Outside of atomic rules, a rule calls for its pattern. -/
theorem calls_pattern {r : Rule} (ha : r.isAtomic = false) (c : Cursor) :
    grammar.Calls ⟨false, .rule r, c⟩ ⟨false, r.pattern, c⟩ := by
  have h : grammar.Calls ⟨false, .rule r, c⟩ ⟨false || grammar.isAtomic r, r.pattern, c⟩ := .rule
  rwa [show (false || grammar.isAtomic r) = false from ha] at h

/-- What a relation that the grammar keeps says of a match. -/
theorem mirrors_of_derives (hR : Tracks goals move rules R) {p : Pattern Rule} {c : Cursor}
    {res : Result Rule} (h : Derives grammar false p c res) {m n n' : Nat} {text : List Char}
    (hgoal : goals ⟨false, p, c⟩) (hp : flow move rules p n = some n') (htext : R (m + n) c.rest text)
    (hready : (∃ q, p = .more q) ∨ (takePiece? c.rest = none ∧ takePiece? text = none))
    (hstack : ∀ entry ∈ c.stack, entry ∈ brackets) :
    Mirrors (R (m + n')) p c.stack text res := by
  generalize hatomic : false = atomic at h
  induction h generalizing m n n' text with
  | @step _ p c f hf =>
    obtain ⟨_, rfl⟩ | ⟨hstill, hstill'⟩ := hready
    · cases hf
    cases p <;> simp only [Pattern.step?, Option.some.injEq, reduceCtorEq] at hf <;> subst hf
    case lit chars => exact mirrors_lit hR hp htext hstill hstill' hstack
    case pushLit chars =>
      rw [flow] at hp
      split at hp
      · next hchars =>
        cases hp
        refine ⟨?_, text, htext, .pushLit chars⟩
        rintro entry (_ | ⟨_, hentry⟩)
        · exact List.contains_iff_mem.1 hchars
        · exact hstack entry hentry
      · cases hp
    case drop =>
      cases hp
      obtain ⟨k, rest, _ | ⟨top, below⟩⟩ := c
      · intro k
        have hstep : Derives grammar false .drop ⟨k, text, []⟩ _ := .step rfl
        exact hstep
      · exact ⟨fun entry hentry => hstack entry (List.mem_cons_of_mem _ hentry), text, htext,
          .drop top⟩
    case peek =>
      obtain ⟨hall, heq⟩ := Option.ite_none_right_eq_some.1 hp
      cases heq
      obtain ⟨k, rest, _ | ⟨top, below⟩⟩ := c
      · exact .peek (by rintro _ ⟨⟩)
      · have hmove := beq_iff_eq.1 (List.all_eq_true.1 hall top (hstack top List.mem_cons_self))
        exact mirrors_peek (hR.lit hmove htext hstill hstill') hstack
    all_goals cases hp
  | @silent _ r c res hs hd ih =>
    subst hatomic
    obtain ⟨_, hmore⟩ | hready := hready
    · cases hmore
    rw [flow] at hp
    split at hp
    · next hr =>
      cases hp
      have ha : r.isAtomic = false := by
        cases ha : r.isAtomic with
        | false => rfl
        | true =>
          have hvisible : grammar.isSilent r = false := hR.atomic hr ha
          rw [hs] at hvisible
          cases hvisible
      have ha' : false = (false || grammar.isAtomic r) := ha.symm
      rcases hR.pattern hr ha with ⟨k, hk, hflow⟩ | hknown
      swap
      · exact hknown m hgoal htext hready.1 hready.2 hstack (.silent hs hd)
      obtain ⟨d, rfl⟩ := Nat.exists_eq_add_of_le' hk
      rw [← Nat.add_assoc] at htext ⊢
      have hinner := ih (hR.calls hgoal (calls_pattern ha c)) hflow htext (.inr hready) hstack ha'
      cases res with
      | none => exact .rule ha hinner
      | some result =>
        obtain ⟨hentries, rest, hrests, hechoes⟩ := hinner
        exact ⟨hentries, rest, hrests, .silent hs ha hechoes⟩
    · cases hp
  | @node _ r c c' ts hs hd ih =>
    subst hatomic
    obtain ⟨_, hmore⟩ | hready := hready
    · cases hmore
    rw [flow] at hp
    split at hp
    · next hr =>
      cases hp
      cases ha : r.isAtomic with
      | true => exact mirrors_word hR hr ha hgoal htext hready.1 hready.2 hstack (.node hs hd)
      | false =>
        have ha' : false = (false || grammar.isAtomic r) := ha.symm
        rcases hR.pattern hr ha with ⟨k, hk, hflow⟩ | hknown
        swap
        · exact hknown m hgoal htext hready.1 hready.2 hstack (.node hs hd)
        obtain ⟨d, rfl⟩ := Nat.exists_eq_add_of_le' hk
        rw [← Nat.add_assoc] at htext ⊢
        obtain ⟨hentries, rest, hrests, hechoes⟩ :=
          ih (hR.calls hgoal (calls_pattern ha c)) hflow htext (.inr hready) hstack ha'
        rw [← ha'] at hd
        exact ⟨hentries, rest, hrests, .node hs ha hd hechoes⟩
    · cases hp
  | @nodeFail _ r c hs hd ih =>
    subst hatomic
    obtain ⟨_, hmore⟩ | hready := hready
    · cases hmore
    rw [flow] at hp
    split at hp
    · next hr =>
      cases hp
      cases ha : r.isAtomic with
      | true => exact mirrors_word hR hr ha hgoal htext hready.1 hready.2 hstack (.nodeFail hs hd)
      | false =>
        have ha' : false = (false || grammar.isAtomic r) := ha.symm
        rcases hR.pattern hr ha with ⟨k, hk, hflow⟩ | hknown
        swap
        · exact hknown m hgoal htext hready.1 hready.2 hstack (.nodeFail hs hd)
        obtain ⟨d, rfl⟩ := Nat.exists_eq_add_of_le' hk
        rw [← Nat.add_assoc] at htext
        exact .rule ha (ih (hR.calls hgoal (calls_pattern ha c)) hflow htext (.inr hready) hstack ha')
    · cases hp
  | seq hfirst hgap _ ih₁ _ ih₃ =>
    subst hatomic
    obtain ⟨_, hmore⟩ | hready := hready
    · cases hmore
    obtain ⟨n₁, hp, hq⟩ := Option.bind_eq_some_iff.1 hp
    obtain ⟨hentries, rest, hrests, hechoes⟩ :=
      ih₁ (hR.calls hgoal .seqFirst) hp htext (.inr hready) hstack rfl
    obtain ⟨hnext, hstack₂, hstill⟩ := hR.skip hrests hgap
    rw [← hstack₂] at hentries hechoes
    obtain ⟨hentries', rest', hrests', hechoes'⟩ :=
      ih₃ (hR.calls hgoal (.seqSecond hfirst hgap)) hq hnext
        (.inr ⟨hstill, takePiece?_afterGap rest⟩) hentries rfl
    exact ⟨hentries', rest', hrests', .seq hechoes hechoes'⟩
  | seqFirst _ ih =>
    obtain ⟨_, hmore⟩ | hready := hready
    · cases hmore
    obtain ⟨n₁, hp, -⟩ := Option.bind_eq_some_iff.1 hp
    have hfails : Fails _ _ text :=
      ih (hR.calls hgoal .seqFirst) hp htext (.inr hready) hstack hatomic
    exact hfails.seqFirst
  | seqBetween _ hgap =>
    subst hatomic
    exact absurd hgap not_gap_fail
  | seqSecond hfirst hgap _ ih₁ _ ih₃ =>
    subst hatomic
    obtain ⟨_, hmore⟩ | hready := hready
    · cases hmore
    obtain ⟨n₁, hp, hq⟩ := Option.bind_eq_some_iff.1 hp
    obtain ⟨hentries, rest, hrests, hechoes⟩ :=
      ih₁ (hR.calls hgoal .seqFirst) hp htext (.inr hready) hstack rfl
    obtain ⟨hnext, hstack₂, hstill⟩ := hR.skip hrests hgap
    rw [← hstack₂] at hentries hechoes
    exact .of_seqSecond hechoes (ih₃ (hR.calls hgoal (.seqSecond hfirst hgap)) hq hnext
      (.inr ⟨hstill, takePiece?_afterGap rest⟩) hentries rfl)
  | altFirst _ ih =>
    obtain ⟨_, hmore⟩ | hready := hready
    · cases hmore
    rw [flow] at hp
    split at hp
    · obtain ⟨hentries, rest, hrests, hechoes⟩ :=
        ih (hR.calls hgoal .altFirst) hp htext (.inr hready) hstack hatomic
      exact ⟨hentries, rest, hrests, .altFirst hechoes⟩
    · cases hp
  | @altSecond _ _ _ _ res hfirst _ ih₁ ih₂ =>
    subst hatomic
    obtain ⟨_, hmore⟩ | hready := hready
    · cases hmore
    rw [flow] at hp
    split at hp
    · next hflow =>
      have hfails : Fails _ _ text :=
        ih₁ (hR.calls hgoal .altFirst) hp htext (.inr hready) hstack rfl
      have hsecond := ih₂ (hR.calls hgoal (.altSecond hfirst)) (hflow ▸ hp) htext (.inr hready)
        hstack rfl
      cases res with
      | none => exact .alt hfails hsecond
      | some result =>
        obtain ⟨hentries, rest, hrests, hechoes⟩ := hsecond
        exact ⟨hentries, rest, hrests, .altSecond hfails hechoes⟩
    · cases hp
  | starNone _ ih =>
    obtain ⟨_, hmore⟩ | hready := hready
    · cases hmore
    rw [flow] at hp
    split at hp
    · next hflow =>
      cases hp
      have hfails : Fails _ _ text :=
        ih (hR.calls hgoal .starFirst) hflow htext (.inr hready) hstack hatomic
      exact ⟨hstack, text, htext, .starNone hfails⟩
    · cases hp
  | starSome hfirst _ ih₁ ih₂ =>
    subst hatomic
    obtain ⟨_, hmore⟩ | hready := hready
    · cases hmore
    have hmore := hp
    rw [flow] at hp
    split at hp
    · next hflow =>
      cases hp
      obtain ⟨hentries, rest, hrests, hechoes⟩ :=
        ih₁ (hR.calls hgoal .starFirst) hflow htext (.inr hready) hstack rfl
      obtain ⟨hentries', rest', hrests', hechoes'⟩ :=
        ih₂ (hR.calls hgoal (.starMore hfirst)) hmore hrests (.inl ⟨_, rfl⟩) hentries rfl
      exact ⟨hentries', rest', hrests', .starSome hechoes hechoes'⟩
    · cases hp
  | moreBetween hgap =>
    subst hatomic
    exact absurd hgap not_gap_fail
  | moreNone hgap _ _ ih =>
    subst hatomic
    rw [flow] at hp
    split at hp
    · next hflow =>
      cases hp
      obtain ⟨hnext, hstack₁, hstill⟩ := hR.skip htext hgap
      rw [← hstack₁] at hstack
      have hfails := ih (hR.calls hgoal (.moreRound hgap)) hflow hnext
        (.inr ⟨hstill, takePiece?_afterGap text⟩) hstack rfl
      rw [hstack₁] at hstack hfails
      exact ⟨hstack, text, htext, .moreNone hfails⟩
    · cases hp
  | moreSome hgap hround _ _ ih₂ ih₃ =>
    subst hatomic
    have hmore := hp
    rw [flow] at hp
    split at hp
    · next hflow =>
      cases hp
      obtain ⟨hnext, hstack₁, hstill⟩ := hR.skip htext hgap
      rw [← hstack₁] at hstack
      obtain ⟨hentries, rest, hrests, hechoes⟩ :=
        ih₂ (hR.calls hgoal (.moreRound hgap)) hflow hnext
          (.inr ⟨hstill, takePiece?_afterGap text⟩) hstack rfl
      obtain ⟨hentries', rest', hrests', hechoes'⟩ :=
        ih₃ (hR.calls hgoal (.moreMore hgap hround)) hmore hrests (.inl ⟨_, rfl⟩) hentries rfl
      rw [hstack₁] at hechoes
      exact ⟨hentries', rest', hrests', .moreSome hechoes hechoes'⟩
    · cases hp
  | ahead _ ih =>
    obtain ⟨_, hmore⟩ | hready := hready
    · cases hmore
    obtain ⟨n₁, hinner, rfl⟩ := Option.map_eq_some_iff.1 hp
    obtain ⟨-, _, -, hechoes⟩ :=
      ih (hR.calls hgoal .ahead) hinner htext (.inr hready) hstack hatomic
    exact ⟨hstack, text, htext, .ahead hechoes⟩
  | aheadFail _ ih =>
    obtain ⟨_, hmore⟩ | hready := hready
    · cases hmore
    obtain ⟨n₁, hinner, rfl⟩ := Option.map_eq_some_iff.1 hp
    have hfails : Fails _ _ text :=
      ih (hR.calls hgoal .ahead) hinner htext (.inr hready) hstack hatomic
    exact hfails.ahead
  | notAhead _ ih =>
    obtain ⟨_, hmore⟩ | hready := hready
    · cases hmore
    obtain ⟨n₁, hinner, rfl⟩ := Option.map_eq_some_iff.1 hp
    have hfails : Fails _ _ text :=
      ih (hR.calls hgoal .notAhead) hinner htext (.inr hready) hstack hatomic
    exact ⟨hstack, text, htext, .notAhead hfails⟩
  | notAheadFail _ ih =>
    obtain ⟨_, hmore⟩ | hready := hready
    · cases hmore
    obtain ⟨n₁, hinner, rfl⟩ := Option.map_eq_some_iff.1 hp
    obtain ⟨-, _, -, hechoes⟩ :=
      ih (hR.calls hgoal .notAhead) hinner htext (.inr hready) hstack hatomic
    exact .of_notAhead hechoes
  | @push _ p c c₁ ts h ih =>
    clear ih
    subst hatomic
    obtain ⟨_, hmore⟩ | hready := hready
    · cases hmore
    cases p <;> try cases hp
    case lit chars => exact mirrors_push hR hp htext hready.1 hready.2 hstack (.push h)
  | @pushFail _ p c h ih =>
    clear ih
    subst hatomic
    obtain ⟨_, hmore⟩ | hready := hready
    · cases hmore
    cases p <;> try cases hp
    case lit chars => exact mirrors_push hR hp htext hready.1 hready.2 hstack (.pushFail h)

end

/-! ## One text at two places -/

theorem tracks_self :
    Tracks (fun _ => True) (fun _ n => some n) (anywhere isPart) fun _ => Eq where
  calls := grammar.closed_true
  pattern {r n} hr ha := by
    refine .inl ⟨0, Nat.zero_le n, ?_⟩
    cases r <;> first | (cases hr; done) | (cases ha; done) | decide
  atomic {r n} hr ha := by cases r <;> first | (cases hr; done) | (cases ha; done) | rfl
  gap := congrArg afterGap
  lit := by
    rintro m n n' chars text _ - rfl - -
    cases hpre : chars.isPrefixOf text with
    | false => exact .inr ⟨rfl, rfl⟩
    | true =>
      obtain ⟨rest, rfl⟩ := List.isPrefixOf_iff_prefix.1 hpre
      exact .inl ⟨rest, rest, rfl, rfl, rfl⟩
  word := by
    rintro r take? m n text _ - - hscans rfl - -
    cases htake : take? text with
    | none => exact .inr ⟨rfl, rfl⟩
    | some taken =>
      obtain ⟨rest, rfl⟩ := hscans.taken htake
      exact .inl ⟨taken, rest, rest, rfl, rfl, rfl, rfl, rfl⟩

/-- Where a match starts makes no difference. -/
theorem echoes_self {r : Rule} (hr : isPart r = true) {c c' : Cursor} {ts : List (ParseTree Rule)}
    (h : Derives grammar false (.rule r) c (some (c', ts))) (hstill : takePiece? c.rest = none)
    (hstack : ∀ entry ∈ c.stack, entry ∈ brackets) :
    Echoes (.rule r) c.stack c.rest c'.stack c'.rest ts := by
  obtain ⟨-, rest, rfl, hechoes⟩ := mirrors_of_derives tracks_self h (m := 0) (n := 0) trivial
    (if_pos hr) rfl (.inr ⟨hstill, hstill⟩) hstack
  exact hechoes

end Lsl.Rule
