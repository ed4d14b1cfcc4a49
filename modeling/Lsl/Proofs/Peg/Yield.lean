import Lsl.Proofs.Peg.Scan
import Mathlib.Data.List.Forall2
/-!
# What a match yields

A match of a pattern, opened up as far as the rules in it: `Pattern.Yields` says how the yield of the
match comes from its parts, and leaves to a meaning of the rules what a match of a rule yields.  What
is yielded for a node is free; a meaning that is closed under the pattern of every rule holds of
every match.
-/

namespace Lsl.Peg

variable {ρ β : Type}

/-- A relation between where a match starts, where it stops and what it yields. -/
abbrev Meaning (β : Type) : Type :=
  Cursor → Cursor → List β → Prop

/-- A gap takes the first cursor to the second. -/
def Grammar.Skips (g : Grammar ρ) (c c' : Cursor) : Prop :=
  ∃ ts, Derives g true g.gap c (some (c', ts))

theorem Grammar.Skips.unique {g : Grammar ρ} {c c₁ c₂ : Cursor} (h₁ : g.Skips c c₁)
    (h₂ : g.Skips c c₂) : c₁ = c₂ := by
  obtain ⟨_, h₁⟩ := h₁
  obtain ⟨_, h₂⟩ := h₂
  cases h₁.unique h₂
  rfl

/-- Further rounds of a repetition, with a gap before each. -/
inductive Rounds (g : Grammar ρ) (m : Meaning β) : Meaning β
  | done {c} : Rounds g m c c []
  | round {c c₁ c₂ c' xs ys} : g.Skips c c₁ → m c₁ c₂ xs → Rounds g m c₂ c' ys →
      Rounds g m c c' (xs ++ ys)

/-- What a match of a pattern outside atomic rules comes from. -/
def Pattern.Yields (g : Grammar ρ) (rules : ρ → Meaning β) : Pattern ρ → Meaning β
  | .lit chars, c, c', xs => c.accept? chars = some c' ∧ xs = []
  | .caseless chars, c, c', xs => c.acceptCaseless? chars = some c' ∧ xs = []
  | .one cls, c, c', xs => c.acceptOne? cls = some c' ∧ xs = []
  | .startOfInput, c, c', xs => c.position = 0 ∧ c' = c ∧ xs = []
  | .endOfInput, c, c', xs => c.rest = [] ∧ c' = c ∧ xs = []
  | .rule r, c, c', xs => rules r c c' xs
  | .seq p q, c, c', xs => ∃ c₁ c₂ ys zs, p.Yields g rules c c₁ ys ∧ g.Skips c₁ c₂ ∧
      q.Yields g rules c₂ c' zs ∧ xs = ys ++ zs
  | .alt p q, c, c', xs => p.Yields g rules c c' xs ∨ q.Yields g rules c c' xs
  | .star p, c, c', xs => (c' = c ∧ xs = []) ∨ ∃ c₁ ys zs, p.Yields g rules c c₁ ys ∧
      Rounds g (p.Yields g rules) c₁ c' zs ∧ xs = ys ++ zs
  | .more p, c, c', xs => Rounds g (p.Yields g rules) c c' xs
  | .ahead p, c, c', xs => (∃ r, Derives g false p c (some r)) ∧ c' = c ∧ xs = []
  | .notAhead p, c, c', xs => Derives g false p c none ∧ c' = c ∧ xs = []
  | .push p, c, c', xs => ∃ c₁, p.Yields g rules c c₁ xs ∧ c' = c₁.pushed (c.textTo c₁)
  | .pushLit chars, c, c', xs => c' = c.pushed chars ∧ xs = []
  | .drop, c, c', xs => c.pop? = some c' ∧ xs = []
  | .peek, c, c', xs => c.acceptTop? = some c' ∧ xs = []

namespace Pattern

/-- Patterns that yield nothing, as they only look at the text or step over it. -/
def yieldsNothing : Pattern ρ → Bool
  | .seq p q => p.yieldsNothing && q.yieldsNothing
  | .push p => p.yieldsNothing
  | .rule _ | .alt _ _ | .star _ | .more _ => false
  | _ => true

namespace Yields

variable {g : Grammar ρ} {rules : ρ → Meaning β} {p q : Pattern ρ} {r : ρ} {c c' : Cursor}
  {xs : List β}

theorem eq_nil (h : p.Yields g rules c c' xs) (hp : p.yieldsNothing = true) : xs = [] := by
  induction p generalizing c c' xs with
  | seq p q ihp ihq =>
    obtain ⟨_, _, _, _, hp', -, hq', rfl⟩ := h
    rw [yieldsNothing, Bool.and_eq_true] at hp
    rw [ihp hp' hp.1, ihq hq' hp.2]
    rfl
  | push p ih =>
    obtain ⟨_, h, -⟩ := h
    exact ih h hp
  | rule | alt | star | more => cases hp
  | startOfInput | endOfInput | ahead | notAhead => exact h.2.2
  | lit | caseless | one | pushLit | drop | peek => exact h.2

/-- Leaves a first part that yields nothing. -/
theorem skip (h : (seq p q).Yields g rules c c' xs) (hp : p.yieldsNothing = true) :
    ∃ c₁ c₂, g.Skips c₁ c₂ ∧ q.Yields g rules c₂ c' xs := by
  obtain ⟨c₁, c₂, _, _, hfirst, hskips, hq, rfl⟩ := h
  rw [hfirst.eq_nil hp]
  exact ⟨c₁, c₂, hskips, hq⟩

/-- Splits off a first part. -/
theorem split (h : (seq p q).Yields g rules c c' xs) :
    ∃ c₁ c₂ ys zs, p.Yields g rules c c₁ ys ∧ g.Skips c₁ c₂ ∧ q.Yields g rules c₂ c' zs ∧
      xs = ys ++ zs :=
  h

/-- Splits off a rule. -/
theorem splitRule (h : (seq (.rule r) q).Yields g rules c c' xs) :
    ∃ c₁ c₂ ys zs, rules r c c₁ ys ∧ g.Skips c₁ c₂ ∧ q.Yields g rules c₂ c' zs ∧
      xs = ys ++ zs :=
  h

end Yields

end Pattern

/-- A meaning of the rules that every match of a rule has, if the rules inside have theirs. What is
yielded for a node is related to it by `shows`. -/
structure Grammar.Means (g : Grammar ρ) (shows : ParseTree ρ → β → Prop)
    (rules : ρ → Meaning β) : Prop where
  silent {r c c' ts xs} : g.isSilent r = true → g.isAtomic r = false →
    Derives g false (.rule r) c (some (c', ts)) → (g.pattern r).Yields g rules c c' xs →
    rules r c c' xs
  node {r c c' ts xs} : g.isSilent r = false → g.isAtomic r = false →
    Derives g false (g.pattern r) c (some (c', ts)) → List.Forall₂ shows ts xs →
    (g.pattern r).Yields g rules c c' xs →
    ∃ x, shows ⟨r, String.ofList (c.textTo c'), ts⟩ x ∧ rules r c c' [x]
  /-- Inside an atomic rule there are no nodes, and what it takes is for `Scans` to say. -/
  silentAtomic {r c c'} : g.isSilent r = true → g.isAtomic r = true →
    Derives g true (g.pattern r) c (some (c', [])) → rules r c c' []
  nodeAtomic {r c c'} : g.isSilent r = false → g.isAtomic r = true →
    Derives g true (g.pattern r) c (some (c', [])) →
    ∃ x, shows ⟨r, String.ofList (c.textTo c'), []⟩ x ∧ rules r c c' [x]

theorem Derives.yields {g : Grammar ρ} {shows : ParseTree ρ → β → Prop} {rules : ρ → Meaning β}
    (hg : g.Means shows rules) {p : Pattern ρ} {c c' : Cursor} {ts : List (ParseTree ρ)}
    (h : Derives g false p c (some (c', ts))) :
    ∃ xs, List.Forall₂ shows ts xs ∧ p.Yields g rules c c' xs := by
  generalize hres : (some (c', ts) : Result ρ) = res at h
  generalize hatomic : false = atomic at h
  induction h generalizing c' ts with
  | @step _ p c f hf =>
    obtain ⟨c₁, hc, heq⟩ := Option.map_eq_some_iff.1 hres.symm
    cases heq
    refine ⟨[], .nil, ?_⟩
    cases p <;> simp only [Pattern.step?, Option.some.injEq, reduceCtorEq] at hf <;> subst hf
    case startOfInput => simp_all [Pattern.Yields]
    case endOfInput => simp_all [Pattern.Yields]
    case pushLit => exact ⟨(Option.some.inj hc).symm, rfl⟩
    all_goals exact ⟨hc, rfl⟩
  | @silent _ r _ _ hs hd ih =>
    subst hres
    have hrule := Derives.silent hs hd
    rw [← hatomic] at hrule
    rw [← hatomic, Bool.false_or] at hd ih
    cases ha : g.isAtomic r with
    | false =>
      obtain ⟨xs, hshows, hyields⟩ := ih rfl ha.symm
      exact ⟨xs, hshows, hg.silent hs ha hrule hyields⟩
    | true =>
      rw [ha] at hd
      cases hd.trees_eq_nil
      exact ⟨[], .nil, hg.silentAtomic hs ha hd⟩
  | @node _ r _ _ us hs hd ih =>
    rw [← hatomic, Bool.false_or] at hd ih
    subst hatomic
    cases hres
    cases ha : g.isAtomic r with
    | false =>
      rw [ha] at hd
      obtain ⟨xs, hshows, hyields⟩ := ih rfl ha.symm
      obtain ⟨x, hx, hrule⟩ := hg.node hs ha hd hshows hyields
      exact ⟨[x], .cons hx .nil, hrule⟩
    | true =>
      rw [ha] at hd
      cases hd.trees_eq_nil
      obtain ⟨x, hx, hrule⟩ := hg.nodeAtomic hs ha hd
      exact ⟨[x], .cons hx .nil, hrule⟩
  | seq _ h₂ _ ih₁ _ ih₃ =>
    subst hatomic
    cases hres
    obtain ⟨xs, hxs, hp⟩ := ih₁ rfl rfl
    obtain ⟨ys, hys, hq⟩ := ih₃ rfl rfl
    exact ⟨xs ++ ys, List.rel_append hxs hys, _, _, _, _, hp, ⟨_, h₂⟩, hq, rfl⟩
  | altFirst _ ih =>
    obtain ⟨xs, hxs, hp⟩ := ih hres hatomic
    exact ⟨xs, hxs, .inl hp⟩
  | altSecond _ _ _ ih =>
    obtain ⟨xs, hxs, hq⟩ := ih hres hatomic
    exact ⟨xs, hxs, .inr hq⟩
  | starNone => cases hres; exact ⟨[], .nil, .inl ⟨rfl, rfl⟩⟩
  | starSome _ _ ih₁ ih₂ =>
    cases hres
    obtain ⟨xs, hxs, hp⟩ := ih₁ rfl hatomic
    obtain ⟨ys, hys, hmore⟩ := ih₂ rfl hatomic
    exact ⟨xs ++ ys, List.rel_append hxs hys, .inr ⟨_, _, _, hp, hmore, rfl⟩⟩
  | moreBetween | moreNone => cases hres; exact ⟨[], .nil, .done⟩
  | moreSome h₁ _ _ _ ih₂ ih₃ =>
    subst hatomic
    cases hres
    obtain ⟨xs, hxs, hp⟩ := ih₂ rfl rfl
    obtain ⟨ys, hys, hmore⟩ := ih₃ rfl rfl
    exact ⟨xs ++ ys, List.rel_append hxs hys, .round ⟨_, h₁⟩ hp hmore⟩
  | ahead h _ =>
    subst hatomic
    cases hres
    exact ⟨[], .nil, ⟨_, h⟩, rfl, rfl⟩
  | notAhead h _ =>
    subst hatomic
    cases hres
    exact ⟨[], .nil, h, rfl, rfl⟩
  | push _ ih =>
    cases hres
    obtain ⟨xs, hxs, hp⟩ := ih rfl hatomic
    exact ⟨xs, hxs, _, hp, rfl⟩
  | _ => cases hres

/-! ## Nodes that cannot occur -/

/-- Whether all rules that a pattern refers to are among the given ones. -/
def Pattern.within (rules : ρ → Bool) : Pattern ρ → Bool
  | .rule r => rules r
  | .seq p q | .alt p q => p.within rules && q.within rules
  | .star p | .more p | .ahead p | .notAhead p | .push p => p.within rules
  | _ => true

theorem ParseTree.prune_append (dropped : ρ → Bool) (ts us : List (ParseTree ρ)) :
    prune dropped (ts ++ us) = prune dropped ts ++ prune dropped us := by
  induction ts with
  | nil => rfl
  | cons t ts ih =>
    rw [List.cons_append, prune, prune, ih]
    split <;> rfl

/-- No node has to be removed that the rules within reach do not make. -/
theorem Derives.prune_eq {g : Grammar ρ} {rules dropped : ρ → Bool}
    (hrules : ∀ r, rules r = true → (g.pattern r).within rules = true ∧ dropped r = false)
    {atomic : Bool} {p : Pattern ρ} {c c' : Cursor} {ts : List (ParseTree ρ)}
    (h : Derives g atomic p c (some (c', ts))) (hp : p.within rules = true) :
    ParseTree.prune dropped ts = ts := by
  generalize hres : (some (c', ts) : Result ρ) = res at h
  induction h generalizing c' ts with
  | step hf =>
    obtain ⟨_, _, heq⟩ := Option.map_eq_some_iff.1 hres.symm
    cases heq
    rfl
  | silent _ _ ih => exact ih (hrules _ hp).1 hres
  | @node atomic r _ _ us _ _ ih =>
    cases hres
    have hus := ih (hrules _ hp).1 rfl
    unfold ParseTree.wrap
    split
    · rfl
    · rw [ParseTree.prune, ParseTree.pruneInside, hus, (hrules r hp).2]
      rfl
  | seq _ _ _ ih₁ _ ih₃ =>
    cases hres
    rw [Pattern.within, Bool.and_eq_true] at hp
    rw [ParseTree.prune_append, ih₁ hp.1 rfl, ih₃ hp.2 rfl]
  | altFirst _ ih => exact ih (Bool.and_eq_true_iff.1 hp).1 hres
  | altSecond _ _ _ ih => exact ih (Bool.and_eq_true_iff.1 hp).2 hres
  | starSome _ _ ih₁ ih₂ =>
    cases hres
    rw [ParseTree.prune_append, ih₁ hp rfl, ih₂ hp rfl]
  | moreSome _ _ _ _ ih₂ ih₃ =>
    cases hres
    rw [ParseTree.prune_append, ih₂ hp rfl, ih₃ hp rfl]
  | push _ ih => cases hres; exact ih hp rfl
  | starNone | moreBetween | moreNone | ahead | notAhead => cases hres; rfl
  | _ => cases hres

end Lsl.Peg
