import Lsl.Proofs.Peg.Derivation
/-!
# Progress

A match only moves forward, and a pattern that has to consume a character does.
-/

namespace Lsl.Peg

variable {ρ : Type}

/-! ## The text of a match -/

/-- The second cursor lies `text` further on than the first. -/
def Cursor.Spans (c : Cursor) (text : List Char) (c' : Cursor) : Prop :=
  c.rest = text ++ c'.rest ∧ c'.position = c.position + text.length

namespace Cursor

theorem Spans.refl (c : Cursor) : c.Spans [] c :=
  ⟨rfl, rfl⟩

theorem Spans.trans {c c₁ c₂ : Cursor} {s t : List Char} (h : c.Spans s c₁) (h' : c₁.Spans t c₂) :
    c.Spans (s ++ t) c₂ := by
  refine ⟨?_, ?_⟩
  · rw [h.1, h'.1, List.append_assoc]
  · rw [h'.2, h.2, List.length_append, Nat.add_assoc]

theorem Spans.textTo {c c' : Cursor} {text : List Char} (h : c.Spans text c') :
    c.textTo c' = text := by
  rw [Cursor.textTo, h.1, h.2, Nat.add_sub_cancel_left, List.take_left]

theorem Spans.length {c c' : Cursor} {text : List Char} (h : c.Spans text c') :
    c.rest.length = text.length + c'.rest.length := by
  rw [h.1, List.length_append]

theorem Spans.pushed {c c' : Cursor} {text : List Char} (h : c.Spans text c')
    (entry : List Char) : c.Spans text (c'.pushed entry) :=
  h

theorem Spans.unique {c c₁ c₂ : Cursor} {text : List Char} (h₁ : c.Spans text c₁)
    (h₂ : c.Spans text c₂) (hstack : c₁.stack = c₂.stack) : c₁ = c₂ := by
  obtain ⟨position₁, rest₁, stack₁⟩ := c₁
  obtain ⟨position₂, rest₂, stack₂⟩ := c₂
  have hrest : rest₁ = rest₂ := List.append_cancel_left (h₁.1.symm.trans h₂.1)
  have hposition : position₁ = position₂ := h₁.2.trans h₂.2.symm
  cases hstack
  rw [hrest, hposition]

theorem spans_advance {c : Cursor} {count : Nat} (h : count ≤ c.rest.length) :
    c.Spans (c.rest.take count) (c.advance count) := by
  refine ⟨(List.take_append_drop count c.rest).symm, ?_⟩
  rw [List.length_take, Nat.min_eq_left h]
  rfl

theorem accept?_eq_some {c c' : Cursor} {chars : List Char} (h : c.accept? chars = some c') :
    c.Spans chars c' ∧ c'.stack = c.stack := by
  unfold accept? at h
  split at h
  · next hp =>
    obtain ⟨rest, hrest⟩ := List.isPrefixOf_iff_prefix.1 hp
    cases h
    refine ⟨⟨?_, rfl⟩, rfl⟩
    rw [advance, ← hrest, List.drop_left]
  · cases h

theorem accept?_of_spans {c c' : Cursor} {chars : List Char} (h : c.Spans chars c')
    (hstack : c'.stack = c.stack) : c.accept? chars = some c' := by
  rw [accept?, if_pos (List.isPrefixOf_iff_prefix.2 ⟨_, h.1.symm⟩), advance, h.1, List.drop_left,
    ← h.2, ← hstack]

theorem acceptCaseless?_eq_some {c c' : Cursor} {chars : List Char}
    (h : c.acceptCaseless? chars = some c') :
    c.Spans (c.rest.take chars.length) c' ∧ c'.stack = c.stack ∧
      (c.rest.take chars.length).map Char.toLower = chars.map Char.toLower := by
  unfold acceptCaseless? at h
  split at h
  · next ht =>
    cases h
    have hlength := congrArg List.length ht
    simp only [List.length_map, List.length_take] at hlength
    exact ⟨spans_advance (by omega), rfl, ht⟩
  · cases h

theorem acceptOne?_eq_some {c c' : Cursor} {cls : CharClass} (h : c.acceptOne? cls = some c') :
    ∃ x, cls.contains x = true ∧ c.Spans [x] c' ∧ c'.stack = c.stack := by
  unfold acceptOne? at h
  split at h
  · next x rest hrest =>
    split at h
    · next hx =>
      cases h
      refine ⟨x, hx, ⟨?_, rfl⟩, rfl⟩
      simp [advance, hrest]
    · cases h
  · cases h

theorem acceptTop?_eq_some {c c' : Cursor} (h : c.acceptTop? = some c') :
    ∃ top below, c.stack = top :: below ∧ c.Spans top c' ∧ c'.stack = c.stack := by
  unfold acceptTop? at h
  split at h
  · next top below hstack => exact ⟨top, below, hstack, accept?_eq_some h⟩
  · cases h

theorem pop?_eq_some {c c' : Cursor} (h : c.pop? = some c') :
    ∃ top, c.stack = top :: c'.stack ∧ c.Spans [] c' := by
  unfold pop? at h
  split at h
  · next top below hstack =>
    cases h
    exact ⟨top, hstack, rfl, rfl⟩
  · cases h

end Cursor

/-- A pattern without parts consumes some text or none. -/
theorem Pattern.spans_of_step? {p : Pattern ρ} {f : Cursor → Option Cursor} {c c' : Cursor}
    (hf : p.step? = some f) (h : f c = some c') : ∃ text, c.Spans text c' := by
  cases p <;> simp only [step?, Option.some.injEq, reduceCtorEq] at hf <;> subst hf
  case lit => exact ⟨_, (Cursor.accept?_eq_some h).1⟩
  case caseless => exact ⟨_, (Cursor.acceptCaseless?_eq_some h).1⟩
  case one =>
    obtain ⟨x, -, hx, -⟩ := Cursor.acceptOne?_eq_some h
    exact ⟨_, hx⟩
  case startOfInput =>
    dsimp only at h
    split at h <;> cases h
    exact ⟨_, .refl c⟩
  case endOfInput =>
    dsimp only at h
    split at h <;> cases h
    exact ⟨_, .refl c⟩
  case pushLit chars =>
    cases h
    exact ⟨_, (Cursor.Spans.refl c).pushed chars⟩
  case drop =>
    obtain ⟨_, -, hs⟩ := Cursor.pop?_eq_some h
    exact ⟨_, hs⟩
  case peek =>
    obtain ⟨_, _, -, hs, -⟩ := Cursor.acceptTop?_eq_some h
    exact ⟨_, hs⟩

/-- A match moves forward. -/
theorem Derives.spans {g : Grammar ρ} {atomic : Bool} {p : Pattern ρ} {c c' : Cursor}
    {ts : List (ParseTree ρ)} (h : Derives g atomic p c (some (c', ts))) :
    ∃ text, c.Spans text c' := by
  generalize hres : (some (c', ts) : Result ρ) = res at h
  induction h generalizing c' ts with
  | @step _ p c f hf =>
    obtain ⟨_, hc, heq⟩ := Option.map_eq_some_iff.1 hres.symm
    cases heq
    exact Pattern.spans_of_step? hf hc
  | silent _ _ ih => exact ih hres
  | node _ _ ih => cases hres; exact ih rfl
  | seq _ _ _ ih₁ ih₂ ih₃ =>
    cases hres
    obtain ⟨_, h₁⟩ := ih₁ rfl
    obtain ⟨_, h₂⟩ := ih₂ rfl
    obtain ⟨_, h₃⟩ := ih₃ rfl
    exact ⟨_, (h₁.trans h₂).trans h₃⟩
  | altFirst _ ih => exact ih hres
  | altSecond _ _ _ ih => exact ih hres
  | starNone | moreBetween | moreNone | ahead | notAhead => cases hres; exact ⟨_, .refl _⟩
  | starSome _ _ ih₁ ih₂ =>
    cases hres
    obtain ⟨_, h₁⟩ := ih₁ rfl
    obtain ⟨_, h₂⟩ := ih₂ rfl
    exact ⟨_, h₁.trans h₂⟩
  | moreSome _ _ _ ih₁ ih₂ ih₃ =>
    cases hres
    obtain ⟨_, h₁⟩ := ih₁ rfl
    obtain ⟨_, h₂⟩ := ih₂ rfl
    obtain ⟨_, h₃⟩ := ih₃ rfl
    exact ⟨_, (h₁.trans h₂).trans h₃⟩
  | push _ ih =>
    cases hres
    obtain ⟨_, h₁⟩ := ih rfl
    exact ⟨_, h₁.pushed _⟩
  | _ => cases hres

theorem Derives.lit {g : Grammar ρ} {atomic : Bool} {chars : List Char} {c c' : Cursor}
    (h : c.Spans chars c') (hstack : c'.stack = c.stack) :
    Derives g atomic (.lit chars) c (some (c', [])) := by
  have hstep : Derives g atomic (.lit chars) c _ := .step rfl
  rwa [Cursor.accept?_of_spans h hstack] at hstep

theorem Derives.of_words {g : Grammar ρ} {atomic : Bool} {texts : List String} {c c' : Cursor}
    {ts : List (ParseTree ρ)} (h : Derives g atomic (.words texts) c (some (c', ts))) :
    ∃ text ∈ texts, c.Spans text.toList c' ∧ c'.stack = c.stack := by
  induction texts with
  | nil =>
    have hfail : Derives g atomic (.notAhead (.lit [])) c none :=
      .notAheadFail (.lit (.refl c) rfl)
    cases hfail.unique h
  | cons text texts ih =>
    cases texts with
    | nil => exact ⟨text, List.mem_cons_self, Cursor.accept?_eq_some h.of_lit⟩
    | cons text' texts =>
      rcases h.of_alt with h | h
      · exact ⟨text, List.mem_cons_self, Cursor.accept?_eq_some h.of_lit⟩
      · obtain ⟨found, hfound, hspans⟩ := ih h
        exact ⟨found, List.mem_cons_of_mem _ hfound, hspans⟩

theorem Derives.length_le {g : Grammar ρ} {atomic : Bool} {p : Pattern ρ} {c c' : Cursor}
    {ts : List (ParseTree ρ)} (h : Derives g atomic p c (some (c', ts))) :
    c'.rest.length ≤ c.rest.length := by
  obtain ⟨text, hs⟩ := h.spans
  have := hs.length
  omega

/-! ## Consuming patterns -/

/-- Whether a pattern that matches has consumed a character, given the rules that have. -/
def Pattern.consumes (rules : ρ → Bool) : Pattern ρ → Bool
  | .lit chars | .caseless chars => !chars.isEmpty
  | .one _ => true
  | .rule r => rules r
  | .seq p q => p.consumes rules || q.consumes rules
  | .alt p q => p.consumes rules && q.consumes rules
  | .push p => p.consumes rules
  | _ => false

/-- The rules of a table consume because their patterns do. -/
def Grammar.Consuming (g : Grammar ρ) (rules : ρ → Bool) : Prop :=
  ∀ r, rules r = true → (g.pattern r).consumes rules = true

private theorem length_lt_of_spans {c c' : Cursor} {text : List Char} (h : c.Spans text c')
    (htext : text ≠ []) : c'.rest.length < c.rest.length := by
  have := h.length
  have := List.length_pos_iff.2 htext
  omega

private theorem length_lt_of_step? {p : Pattern ρ} {rules : ρ → Bool}
    {f : Cursor → Option Cursor} {c c' : Cursor} (hp : p.consumes rules = true)
    (hf : p.step? = some f) (h : f c = some c') : c'.rest.length < c.rest.length := by
  cases p <;> simp only [Pattern.step?, Option.some.injEq, reduceCtorEq] at hf <;> subst hf
  case lit chars =>
    refine length_lt_of_spans (Cursor.accept?_eq_some h).1 ?_
    rintro rfl
    cases hp
  case caseless chars =>
    obtain ⟨hs, -, hlower⟩ := Cursor.acceptCaseless?_eq_some h
    refine length_lt_of_spans hs ?_
    intro hnil
    rw [hnil] at hlower
    obtain rfl := List.map_eq_nil_iff.1 hlower.symm
    cases hp
  case one =>
    obtain ⟨x, -, hs, -⟩ := Cursor.acceptOne?_eq_some h
    exact length_lt_of_spans hs (by simp)
  all_goals cases hp

/-- A pattern that has to consume a character does. -/
theorem Derives.length_lt {g : Grammar ρ} {rules : ρ → Bool} (hrules : g.Consuming rules)
    {atomic : Bool} {p : Pattern ρ} {c c' : Cursor} {ts : List (ParseTree ρ)}
    (h : Derives g atomic p c (some (c', ts))) (hp : p.consumes rules = true) :
    c'.rest.length < c.rest.length := by
  generalize hres : (some (c', ts) : Result ρ) = res at h
  induction h generalizing c' ts with
  | @step _ p c f hf =>
    obtain ⟨_, hc, heq⟩ := Option.map_eq_some_iff.1 hres.symm
    cases heq
    exact length_lt_of_step? hp hf hc
  | silent _ _ ih => exact ih (hrules _ hp) hres
  | node _ _ ih => cases hres; exact ih (hrules _ hp) rfl
  | seq h₁ h₂ h₃ ih₁ _ ih₃ =>
    cases hres
    have hle₁ := h₁.length_le
    have hle₂ := h₂.length_le
    have hle₃ := h₃.length_le
    rcases Bool.or_eq_true_iff.1 hp with hp | hp
    · have := ih₁ hp rfl
      omega
    · have := ih₃ hp rfl
      omega
  | altFirst _ ih => exact ih (Bool.and_eq_true_iff.1 hp).1 hres
  | altSecond _ _ _ ih => exact ih (Bool.and_eq_true_iff.1 hp).2 hres
  | push _ ih =>
    cases hres
    have := ih hp rfl
    exact this
  | starNone | moreBetween | moreNone | ahead | notAhead | starSome | moreSome => cases hp
  | _ => cases hres

end Lsl.Peg
