import Lsl.Proofs.Peg.Calls
import Mathlib.Logic.Relation
/-!
# The goals that a match comes to

Which patterns are tried in the course of a match, and where.  Those outside of atomic rules are
listed by following the calls, down to a depth that a table of ranks shows to be enough.
-/

namespace Lsl.Peg

variable {ρ : Type}

/-- What comes after a match. -/
def Outcome.after {α : Type} (outcome : Outcome ρ) (next : Cursor → List α) : List α :=
  match outcome with
  | .ok cursor _ => next cursor
  | .fail | .stuck => []

theorem Outcome.mem_after {α : Type} {outcome : Outcome ρ} {next : Cursor → List α} {a : α} :
    a ∈ outcome.after next ↔ ∃ c ts, outcome = .ok c ts ∧ a ∈ next c := by
  cases outcome <;> simp [after]

/-- What comes after a failure. -/
def Outcome.instead {α : Type} (outcome : Outcome ρ) (next : List α) : List α :=
  match outcome with
  | .fail => next
  | .ok .. | .stuck => []

theorem Outcome.mem_instead {α : Type} {outcome : Outcome ρ} {next : List α} {a : α} :
    a ∈ outcome.instead next ↔ outcome = .fail ∧ a ∈ next := by
  cases outcome <;> simp [instead]

namespace Grammar

/-- The goals that are called for by matching a pattern outside of atomic rules, if the depth is
enough for them. -/
def callees (g : Grammar ρ) (n : Nat) : Pattern ρ → Cursor → List (Goal ρ)
  | .rule r, c => [⟨g.isAtomic r, g.pattern r, c⟩]
  | .seq p q, c => ⟨false, p, c⟩ :: (g.outcome n false p c).after fun c₁ =>
      ⟨true, g.gap, c₁⟩ :: (g.outcome n true g.gap c₁).after fun c₂ => [⟨false, q, c₂⟩]
  | .alt p q, c => ⟨false, p, c⟩ :: (g.outcome n false p c).instead [⟨false, q, c⟩]
  | .star p, c =>
    ⟨false, p, c⟩ :: (g.outcome n false p c).after fun c₁ => [⟨false, .more p, c₁⟩]
  | .more p, c => ⟨true, g.gap, c⟩ :: (g.outcome n true g.gap c).after fun c₁ =>
      ⟨false, p, c₁⟩ :: (g.outcome n false p c₁).after fun c₂ => [⟨false, .more p, c₂⟩]
  | .ahead p, c | .notAhead p, c | .push p, c => [⟨false, p, c⟩]
  | _, _ => []

/-- The goals outside of atomic rules that a match comes to, down to a depth. -/
def visits (g : Grammar ρ) : Nat → Goal ρ → List (Goal ρ)
  | 0, _ => []
  | n + 1, ⟨atomic, p, c⟩ =>
    if atomic then [] else ⟨false, p, c⟩ :: (g.callees n p c).flatMap (g.visits n)

variable {g : Grammar ρ} {k : Ranking ρ} {limit n : Nat}

/-- Only what is called for is listed. -/
theorem calls_of_mem_callees {p : Pattern ρ} {c : Cursor} {goal : Goal ρ}
    (h : goal ∈ g.callees n p c) : g.Calls ⟨false, p, c⟩ goal := by
  have ok {atomic : Bool} {p : Pattern ρ} {c c' : Cursor} {ts : List (ParseTree ρ)}
      (h : g.outcome n atomic p c = .ok c' ts) : Derives g atomic p c (some (c', ts)) :=
    derives_of_outcome h
  cases p <;> simp only [callees, List.mem_cons, List.not_mem_nil, or_false, Outcome.mem_after,
    Outcome.mem_instead] at h
  case rule r =>
    cases h
    exact .rule
  case seq p q =>
    obtain rfl | ⟨c₁, ts, h₁, rfl | ⟨c₂, gs, h₂, rfl⟩⟩ := h
    · exact .seqFirst
    · exact .seqBetween (ok h₁)
    · exact .seqSecond (ok h₁) (ok h₂)
  case alt p q =>
    obtain rfl | ⟨h₁, rfl⟩ := h
    · exact .altFirst
    · exact .altSecond (derives_of_outcome h₁)
  case star p =>
    obtain rfl | ⟨c₁, ts, h₁, rfl⟩ := h
    · exact .starFirst
    · exact .starMore (ok h₁)
  case more p =>
    obtain rfl | ⟨c₁, gs, h₁, rfl | ⟨c₂, ts, h₂, rfl⟩⟩ := h
    · exact .moreBetween
    · exact .moreRound (ok h₁)
    · exact .moreMore (ok h₁) (ok h₂)
  case ahead p =>
    cases h
    exact .ahead
  case notAhead p =>
    cases h
    exact .notAhead
  case push p =>
    cases h
    exact .push

/-- With depth enough, all that is called for is listed. -/
theorem mem_callees (hk : k.Fits g limit) {p : Pattern ρ} {c : Cursor} {goal : Goal ρ}
    (h : g.Calls ⟨false, p, c⟩ goal) (hp : Goal.Bounded k limit ⟨false, p, c⟩)
    (hn : k.depth limit ⟨false, p, c⟩ ≤ n + 1) : goal ∈ g.callees n p c := by
  have run {atomic : Bool} {q : Pattern ρ} {c' : Cursor} {res : Result ρ}
      (hcall : g.Calls ⟨false, p, c⟩ ⟨atomic, q, c'⟩) (hd : Derives g atomic q c' res) :
      g.outcome n atomic q c' = res.toOutcome := by
    obtain ⟨hq, hlt⟩ := hcall.depth_lt hk hp
    refine outcome_eq_of_derives hd (outcome_ne_stuck hk hq ?_)
    exact Nat.le_of_lt_succ (Nat.lt_of_lt_of_le hlt hn)
  cases h with
  | rule => exact List.mem_singleton_self _
  | seqFirst | altFirst | starFirst | moreBetween => exact List.mem_cons_self
  | ahead | notAhead | push => exact List.mem_singleton_self _
  | seqBetween h₁ =>
    rw [callees, run .seqFirst h₁]
    exact List.mem_cons_of_mem _ List.mem_cons_self
  | seqSecond h₁ h₂ =>
    have h₂' := run (.seqBetween h₁) h₂
    rw [callees, run .seqFirst h₁]
    refine List.mem_cons_of_mem _ (List.mem_cons_of_mem _ (Outcome.mem_after.2 ⟨_, _, h₂', ?_⟩))
    exact List.mem_singleton_self _
  | altSecond h₁ =>
    rw [callees, run .altFirst h₁]
    exact List.mem_cons_of_mem _ (List.mem_singleton_self _)
  | starMore h₁ =>
    rw [callees, run .starFirst h₁]
    exact List.mem_cons_of_mem _ (List.mem_singleton_self _)
  | moreRound h₁ =>
    have h₁' := run .moreBetween h₁
    exact List.mem_cons_of_mem _ (Outcome.mem_after.2 ⟨_, _, h₁', List.mem_cons_self⟩)
  | moreMore h₁ h₂ =>
    have h₁' := run .moreBetween h₁
    have h₂' := run (.moreRound h₁) h₂
    refine List.mem_cons_of_mem _ (Outcome.mem_after.2 ⟨_, _, h₁', ?_⟩)
    refine List.mem_cons_of_mem _ (Outcome.mem_after.2 ⟨_, _, h₂', List.mem_singleton_self _⟩)

/-- Inside an atomic rule no call leads out of it. -/
theorem atomic_of_reflTransGen {goal goal' : Goal ρ} (h : Relation.ReflTransGen g.Calls goal goal')
    (hgoal : goal.atomic = true) : goal'.atomic = true := by
  induction h with
  | refl => exact hgoal
  | tail _ hcall ih => cases hcall <;> simp_all

/-- The list holds the goals outside of atomic rules that a match comes to, and no others. -/
theorem mem_visits_iff (hk : k.Fits g limit) {goal goal' : Goal ρ} (hgoal : goal.Bounded k limit)
    (hn : k.depth limit goal ≤ n) :
    goal' ∈ g.visits n goal ↔
      goal'.atomic = false ∧ Relation.ReflTransGen g.Calls goal goal' := by
  induction n generalizing goal with
  | zero =>
    have := k.height_pos goal.atomic goal.pattern
    unfold Ranking.depth at hn
    omega
  | succ n ih =>
    obtain ⟨atomic, p, c⟩ := goal
    have next {callee : Goal ρ} (hcall : g.Calls ⟨atomic, p, c⟩ callee) :
        callee.Bounded k limit ∧ k.depth limit callee ≤ n := by
      obtain ⟨hcallee, hlt⟩ := hcall.depth_lt hk hgoal
      exact ⟨hcallee, Nat.le_of_lt_succ (Nat.lt_of_lt_of_le hlt hn)⟩
    cases atomic with
    | true =>
      rw [visits, if_pos rfl]
      refine iff_of_false List.not_mem_nil fun ⟨hinside, hcalls⟩ => ?_
      exact Bool.false_ne_true (hinside.symm.trans (atomic_of_reflTransGen hcalls rfl))
    | false =>
      rw [visits, if_neg Bool.false_ne_true, List.mem_cons, List.mem_flatMap]
      constructor
      · rintro (rfl | ⟨callee, hmem, hvisit⟩)
        · exact ⟨rfl, .refl⟩
        · have hcall := calls_of_mem_callees hmem
          obtain ⟨hcallee, hdepth⟩ := next hcall
          obtain ⟨hatomic, hcalls⟩ := (ih hcallee hdepth).1 hvisit
          exact ⟨hatomic, .head hcall hcalls⟩
      · rintro ⟨hatomic, hcalls⟩
        obtain rfl | ⟨callee, hcall, hcalls⟩ := hcalls.cases_head
        · exact .inl rfl
        · obtain ⟨hcallee, hdepth⟩ := next hcall
          exact .inr ⟨callee, mem_callees hk hcall hgoal hn,
            (ih hcallee hdepth).2 ⟨hatomic, hcalls⟩⟩

end Grammar

end Lsl.Peg
