import Lsl.Proofs.Peg.Progress
/-!
# The stack is left as it was found

A pattern can be checked for balance by counting: whatever it takes off the stack, it has put there
itself.  If the patterns of all rules are balanced, no rule changes the stack.
-/

namespace Lsl.Peg

variable {ρ : Type}

/-- How many entries of its own a pattern leaves on the stack if there are `count` before it, where
every rule leaves none; nothing if it may take an entry that is not its own. -/
def Pattern.pending : Pattern ρ → Nat → Option Nat
  | .seq p q, count => (p.pending count).bind q.pending
  | .alt p q, count => if p.pending count = q.pending count then p.pending count else none
  | .star p, count | .more p, count => if p.pending count = some count then some count else none
  | .push p, count => (p.pending count).map (· + 1)
  | .pushLit _, count => some (count + 1)
  | .drop, count => if count = 0 then none else some (count - 1)
  | _, count => some count

/-- Every rule and the gap leave no entries on the stack and take none off it. -/
structure Grammar.Balanced (g : Grammar ρ) : Prop where
  pattern (r : ρ) : (g.pattern r).pending 0 = some 0
  gap : g.gap.pending 0 = some 0

private theorem drop_stack_of_step? {p : Pattern ρ} {f : Cursor → Option Cursor} {c c' : Cursor}
    {count count' : Nat} (hf : p.step? = some f) (h : f c = some c')
    (hp : p.pending count = some count') : c'.stack.drop count' = c.stack.drop count := by
  cases p <;> simp only [Pattern.step?, Option.some.injEq, reduceCtorEq] at hf <;> subst hf
  case pushLit =>
    cases h
    cases hp
    rfl
  case drop =>
    obtain ⟨top, hstack, -⟩ := Cursor.pop?_eq_some h
    rw [Pattern.pending] at hp
    split at hp
    · cases hp
    · cases hp
      obtain ⟨count, rfl⟩ := Nat.exists_eq_succ_of_ne_zero ‹count ≠ 0›
      rw [hstack]
      rfl
  all_goals
    cases hp
    congr 1
  case lit => exact (Cursor.accept?_eq_some h).2
  case caseless => exact (Cursor.acceptCaseless?_eq_some h).2.1
  case one =>
    obtain ⟨_, -, -, hstack⟩ := Cursor.acceptOne?_eq_some h
    exact hstack
  case startOfInput =>
    dsimp only at h
    split at h <;> cases h
    rfl
  case endOfInput =>
    dsimp only at h
    split at h <;> cases h
    rfl
  case peek =>
    obtain ⟨_, _, -, -, hstack⟩ := Cursor.acceptTop?_eq_some h
    exact hstack

private theorem Grammar.Balanced.between {g : Grammar ρ} (hg : g.Balanced) (atomic : Bool) :
    (g.between atomic).pending 0 = some 0 := by
  unfold Grammar.between
  split
  · rfl
  · exact hg.gap

/-- Below its own entries a match leaves the stack as it found it. -/
theorem Derives.drop_stack {g : Grammar ρ} (hg : g.Balanced) {atomic : Bool} {p : Pattern ρ}
    {c c' : Cursor} {ts : List (ParseTree ρ)} {count count' : Nat}
    (h : Derives g atomic p c (some (c', ts))) (hp : p.pending count = some count') :
    c'.stack.drop count' = c.stack.drop count := by
  generalize hres : (some (c', ts) : Result ρ) = res at h
  induction h generalizing c' ts count count' with
  | @step _ p c f hf =>
    obtain ⟨_, hc, heq⟩ := Option.map_eq_some_iff.1 hres.symm
    cases heq
    exact drop_stack_of_step? hf hc hp
  | @silent _ r _ _ _ _ ih =>
    cases hp
    have hstack := ih (hg.pattern r) hres
    exact congrArg (List.drop count) hstack
  | @node _ r _ _ _ _ _ ih =>
    cases hres
    cases hp
    have hstack := ih (hg.pattern r) rfl
    exact congrArg (List.drop count) hstack
  | seq _ _ _ ih₁ ih₂ ih₃ =>
    cases hres
    obtain ⟨middle, hp₁, hp₃⟩ := Option.bind_eq_some_iff.1 hp
    have hgap := ih₂ (hg.between _) rfl
    rw [ih₃ hp₃ rfl, ← ih₁ hp₁ rfl]
    exact congrArg (List.drop middle) hgap
  | altFirst _ ih =>
    rw [Pattern.pending] at hp
    split at hp
    · exact ih hp hres
    · cases hp
  | altSecond _ _ _ ih =>
    rw [Pattern.pending] at hp
    split at hp
    · next heq => exact ih (heq ▸ hp) hres
    · cases hp
  | starNone | moreBetween | moreNone =>
    cases hres
    rw [Pattern.pending] at hp
    split at hp <;> cases hp
    rfl
  | starSome _ _ ih₁ ih₂ =>
    cases hres
    rw [Pattern.pending] at hp
    split at hp
    · next hround =>
      cases hp
      have hmore : (Pattern.more _).pending count = some count := if_pos hround
      rw [ih₂ hmore rfl, ih₁ hround rfl]
    · cases hp
  | moreSome _ _ _ ih₁ ih₂ ih₃ =>
    cases hres
    have hmore := hp
    rw [Pattern.pending] at hp
    split at hp
    · next hround =>
      cases hp
      have hgap := ih₁ (hg.between _) rfl
      rw [ih₃ hmore rfl, ih₂ hround rfl]
      exact congrArg (List.drop count) hgap
    · cases hp
  | ahead | notAhead =>
    cases hres
    cases hp
    rfl
  | push _ ih =>
    cases hres
    obtain ⟨middle, hp₁, rfl⟩ := Option.map_eq_some_iff.1 hp
    have hstack := ih hp₁ rfl
    exact hstack
  | _ => cases hres

theorem Derives.stack_eq {g : Grammar ρ} (hg : g.Balanced) {atomic : Bool} {p : Pattern ρ}
    {c c' : Cursor} {ts : List (ParseTree ρ)} (h : Derives g atomic p c (some (c', ts)))
    (hp : p.pending 0 = some 0) : c'.stack = c.stack :=
  h.drop_stack hg hp

end Lsl.Peg
