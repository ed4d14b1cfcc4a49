import Lsl.Proofs.Peg.Progress
/-!
# First characters

Which characters a match can start with.  A table gives the first characters of the rules, and it is
right as soon as it holds for the pattern of every rule, one level deep.
-/

namespace Lsl.Peg

variable {ρ : Type}

/-- A table of first characters: the rules that have to consume a character, the characters that a
match of a rule can start with if it consumes any, and those that a gap can start with. -/
structure FirstTable (ρ : Type) where
  consumes : ρ → Bool
  starts : ρ → Char → Bool
  gap : Char → Bool

namespace FirstTable

variable (t : FirstTable ρ) (x : Char) (atomic : Bool)

mutual

/-- Whether a match that consumes some text can start with `x`. -/
def first : Pattern ρ → Bool
  | .lit chars => chars.head? == some x
  | .caseless chars => (chars.head?.map Char.toLower) == some x.toLower
  | .one cls => cls.contains x
  | .rule r => t.starts r x
  | .seq p q =>
    allows p && (first p || !p.consumes t.consumes && (!atomic && t.gap x || first q))
  | .alt p q => first p || first q
  | .star p => first p || !p.consumes t.consumes
  | .more p => !atomic && t.gap x || first p
  | .push p => first p
  | .peek => true
  | _ => false

/-- Whether a match, of some text or none, is possible where `x` comes next. -/
def allows : Pattern ρ → Bool
  | .lit chars => chars.isEmpty || chars.head? == some x
  | .caseless chars => chars.isEmpty || (chars.head?.map Char.toLower) == some x.toLower
  | .one cls => cls.contains x
  | .rule r => !t.consumes r || t.starts r x
  | .seq p q =>
    allows p && (first p || !p.consumes t.consumes && (!atomic && t.gap x || allows q))
  | .alt p q => allows p || allows q
  | .ahead p | .push p => allows p
  | .endOfInput => false
  | _ => true

end

/-- A choice of texts starts with the first characters of its texts. -/
theorem first_words (texts : List String) :
    t.first x atomic (.words texts) = texts.any fun text => text.toList.head? == some x := by
  induction texts with
  | nil => rfl
  | cons text texts ih =>
    cases texts with
    | nil => simp [Pattern.words, Pattern.oneOf, Pattern.word, first]
    | cons text' texts =>
      rw [List.any_cons, ← ih]
      rfl

/-- The table is right for a grammar. -/
structure Fits (g : Grammar ρ) : Prop where
  consuming : g.Consuming t.consumes
  starts (atomic : Bool) (r : ρ) (x : Char) :
    t.first x (atomic || g.isAtomic r) (g.pattern r) = true → t.starts r x = true
  gap (x : Char) : t.first x true g.gap = true → t.gap x = true

end FirstTable

/-- What a match at the character `x` tells about it. -/
private def Begins (t : FirstTable ρ) (atomic : Bool) (p : Pattern ρ) (x : Char) (c c' : Cursor) :
    Prop :=
  t.allows x atomic p = true ∧ (c'.rest.length < c.rest.length → t.first x atomic p = true)

private theorem begins_of_step? {t : FirstTable ρ} {atomic : Bool} {p : Pattern ρ} {f : Cursor → Option Cursor}
    {c c' : Cursor} {x : Char} {rest : List Char} (hf : p.step? = some f) (h : f c = some c')
    (hc : c.rest = x :: rest) : Begins t atomic p x c c' := by
  have still {text : List Char} (hs : c.Spans text c') (htext : text = []) :
      ¬c'.rest.length < c.rest.length := by
    have := hs.length
    simp [htext] at this
    omega
  cases p <;> simp only [Pattern.step?, Option.some.injEq, reduceCtorEq] at hf <;> subst hf
  case lit chars =>
    have hs := (Cursor.accept?_eq_some h).1
    cases chars with
    | nil => exact ⟨rfl, fun hlt => absurd hlt (still hs rfl)⟩
    | cons y chars =>
      have hxy := hs.1
      rw [hc] at hxy
      injection hxy with hxy
      simp [Begins, FirstTable.allows, FirstTable.first, hxy]
  case caseless chars =>
    obtain ⟨hs, -, hlower⟩ := Cursor.acceptCaseless?_eq_some h
    cases chars with
    | nil => exact ⟨rfl, fun hlt => absurd hlt (still hs rfl)⟩
    | cons y chars =>
      rw [hc] at hlower
      simp only [List.length_cons, List.take_succ_cons, List.map_cons] at hlower
      injection hlower with hxy
      simp [Begins, FirstTable.allows, FirstTable.first, hxy]
  case one cls =>
    obtain ⟨y, hy, hs, -⟩ := Cursor.acceptOne?_eq_some h
    have hxy := hs.1
    rw [hc] at hxy
    injection hxy with hxy
    simp [Begins, FirstTable.allows, FirstTable.first, hxy, hy]
  case startOfInput =>
    dsimp only at h
    split at h <;> cases h
    exact ⟨rfl, fun hlt => absurd hlt (Nat.lt_irrefl _)⟩
  case endOfInput =>
    dsimp only at h
    rw [hc] at h
    cases h
  case pushLit =>
    cases h
    exact ⟨rfl, fun hlt => absurd hlt (Nat.lt_irrefl _)⟩
  case drop =>
    obtain ⟨_, -, hs⟩ := Cursor.pop?_eq_some h
    exact ⟨rfl, fun hlt => absurd hlt (still hs rfl)⟩
  case peek => exact ⟨rfl, fun _ => rfl⟩

/-- A cursor that did not move still has the same text before it. -/
private theorem rest_eq_of_not_lt {g : Grammar ρ} {atomic : Bool} {p : Pattern ρ} {c c' : Cursor}
    {ts : List (ParseTree ρ)} (h : Derives g atomic p c (some (c', ts)))
    (hlt : ¬c'.rest.length < c.rest.length) : c'.rest = c.rest := by
  obtain ⟨text, hs⟩ := h.spans
  have hlength := hs.length
  have htext : text = [] := List.eq_nil_of_length_eq_zero (by omega)
  rw [hs.1, htext, List.nil_append]

private theorem begins {g : Grammar ρ} {t : FirstTable ρ} (ht : t.Fits g) {atomic : Bool}
    {p : Pattern ρ} {c c' : Cursor} {ts : List (ParseTree ρ)} {x : Char} {rest : List Char}
    (h : Derives g atomic p c (some (c', ts))) (hc : c.rest = x :: rest) : Begins t atomic p x c c' := by
  generalize hres : (some (c', ts) : Result ρ) = res at h
  have hgap {atomic : Bool} (hfirst : t.first x true (g.between atomic) = true) :
      (!atomic && t.gap x) = true := by
    unfold Grammar.between at hfirst
    split at hfirst
    · simp [FirstTable.first] at hfirst
    · simp_all [ht.gap x hfirst]
  induction h generalizing c' ts with
  | @step _ p c f hf =>
    obtain ⟨_, hc', heq⟩ := Option.map_eq_some_iff.1 hres.symm
    cases heq
    exact begins_of_step? hf hc' hc
  | silent _ h₁ ih =>
    subst hres
    have hb := ih hc rfl
    refine ⟨?_, fun hlt => ht.starts _ _ _ (hb.2 hlt)⟩
    rw [FirstTable.allows]
    cases hcons : t.consumes _ with
    | false => rfl
    | true => exact ht.starts _ _ _ (hb.2 (h₁.length_lt ht.consuming (ht.consuming _ hcons)))
  | node _ h₁ ih =>
    cases hres
    have hb := ih hc rfl
    refine ⟨?_, fun hlt => ht.starts _ _ _ (hb.2 hlt)⟩
    rw [FirstTable.allows]
    cases hcons : t.consumes _ with
    | false => rfl
    | true => exact ht.starts _ _ _ (hb.2 (h₁.length_lt ht.consuming (ht.consuming _ hcons)))
  | @seq _ p q c c₁ c₂ c₃ _ _ _ h₁ h₂ h₃ ih₁ ih₂ ih₃ =>
    cases hres
    have hb₁ := ih₁ hc rfl
    by_cases hlt₁ : c₁.rest.length < c.rest.length
    · simp [Begins, FirstTable.allows, FirstTable.first, hb₁.1, hb₁.2 hlt₁]
    · have hcons : p.consumes t.consumes = false := by
        cases hcons : p.consumes t.consumes with
        | false => rfl
        | true => exact absurd (h₁.length_lt ht.consuming hcons) hlt₁
      have hc₁ := (rest_eq_of_not_lt h₁ hlt₁).trans hc
      have hb₂ := ih₂ hc₁ rfl
      by_cases hlt₂ : c₂.rest.length < c₁.rest.length
      · simp [Begins, FirstTable.allows, FirstTable.first, hb₁.1, hcons, hgap (hb₂.2 hlt₂)]
      · have hc₂ := (rest_eq_of_not_lt h₂ hlt₂).trans hc₁
        have hb₃ := ih₃ hc₂ rfl
        refine ⟨by simp [FirstTable.allows, hb₁.1, hcons, hb₃.1], fun hlt => ?_⟩
        have hlt₃ : c₃.rest.length < c₂.rest.length := by
          rw [hc₂, ← hc]
          exact hlt
        simp [FirstTable.first, hb₁.1, hcons, hb₃.2 hlt₃]
  | altFirst _ ih =>
    have hb := ih hc hres
    exact ⟨by simp [FirstTable.allows, hb.1], fun hlt => by simp [FirstTable.first, hb.2 hlt]⟩
  | altSecond _ _ _ ih =>
    have hb := ih hc hres
    exact ⟨by simp [FirstTable.allows, hb.1], fun hlt => by simp [FirstTable.first, hb.2 hlt]⟩
  | starNone | moreBetween | moreNone | notAhead =>
    cases hres
    exact ⟨rfl, fun hlt => absurd hlt (Nat.lt_irrefl _)⟩
  | ahead _ ih =>
    cases hres
    exact ⟨(ih hc rfl).1, fun hlt => absurd hlt (Nat.lt_irrefl _)⟩
  | @starSome _ p _ _ _ _ _ h₁ _ ih₁ _ =>
    cases hres
    refine ⟨rfl, fun _ => ?_⟩
    rw [FirstTable.first]
    cases hcons : p.consumes t.consumes with
    | false => simp
    | true => simp [(ih₁ hc rfl).2 (h₁.length_lt ht.consuming hcons)]
  | @moreSome _ p c c₁ c₂ c₃ _ _ _ h₁ h₂ h₃ ih₁ ih₂ ih₃ =>
    cases hres
    refine ⟨rfl, fun hlt => ?_⟩
    rw [FirstTable.first]
    have hb₁ := ih₁ hc rfl
    by_cases hlt₁ : c₁.rest.length < c.rest.length
    · simp [hgap (hb₁.2 hlt₁)]
    · have hc₁ := (rest_eq_of_not_lt h₁ hlt₁).trans hc
      by_cases hlt₂ : c₂.rest.length < c₁.rest.length
      · simp [(ih₂ hc₁ rfl).2 hlt₂]
      · have hc₂ := (rest_eq_of_not_lt h₂ hlt₂).trans hc₁
        have hlt₃ : c₃.rest.length < c₂.rest.length := by
          rw [hc₂, ← hc]
          exact hlt
        have := (ih₃ hc₂ rfl).2 hlt₃
        rwa [FirstTable.first] at this
  | push _ ih =>
    cases hres
    have := ih hc rfl
    exact this
  | _ => cases hres

namespace FirstTable.Fits

variable {g : Grammar ρ} {t : FirstTable ρ} {atomic : Bool} {p : Pattern ρ} {r : ρ} {c : Cursor}

/-- A consuming rule matches only where one of its first characters comes next. -/
theorem starts_of_derives (ht : t.Fits g) (hr : t.consumes r = true) {c' : Cursor}
    {ts : List (ParseTree ρ)} (h : Derives g atomic (.rule r) c (some (c', ts))) :
    ∃ x rest, c.rest = x :: rest ∧ t.starts r x = true := by
  have hlt := h.length_lt ht.consuming hr
  cases hc : c.rest with
  | nil => simp [hc] at hlt
  | cons x rest => exact ⟨x, rest, rfl, (begins ht h hc).2 hlt⟩

/-- A consuming rule fails where none of its first characters comes next. -/
theorem fails (ht : t.Fits g) (hr : t.consumes r = true)
    (hex : ∃ res, Derives g atomic (.rule r) c res)
    (hc : ∀ x, c.rest.head? = some x → t.starts r x = false) : Derives g atomic (.rule r) c none := by
  obtain ⟨_ | ⟨c', ts⟩, h⟩ := hex
  · exact h
  · obtain ⟨x, rest, hrest, hx⟩ := ht.starts_of_derives hr h
    rw [hrest] at hc
    rw [hc x rfl] at hx
    cases hx

end FirstTable.Fits

end Lsl.Peg
