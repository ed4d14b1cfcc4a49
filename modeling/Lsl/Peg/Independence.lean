import Lsl.Peg.Match
/-!
# Matching does not depend on the record of attempts

The outcome of a match is the same whatever attempts were recorded before it and whatever
lookahead it is part of: both bear on the record only.
-/

namespace Lsl.Peg

variable {ρ : Type}

namespace Run

theorem fst_andThen_congr {run run' : Run ρ}
    {next next' : Cursor → List (ParseTree ρ) → Attempts ρ → Run ρ} (h : run.1 = run'.1)
    (hnext : ∀ cursor trees a a', (next cursor trees a).1 = (next' cursor trees a').1) :
    (run.andThen next).1 = (run'.andThen next').1 := by
  obtain ⟨outcome, a⟩ := run
  obtain ⟨_, a'⟩ := run'
  cases h
  cases outcome with
  | ok cursor trees => exact hnext cursor trees a a'
  | fail => rfl
  | stuck => rfl

theorem fst_orElse_congr {run run' : Run ρ} {next next' : Attempts ρ → Run ρ}
    (h : run.1 = run'.1) (hnext : ∀ a a', (next a).1 = (next' a').1) :
    (run.orElse next).1 = (run'.orElse next').1 := by
  obtain ⟨outcome, a⟩ := run
  obtain ⟨_, a'⟩ := run'
  cases h
  cases outcome with
  | ok cursor trees => rfl
  | fail => exact hnext a a'
  | stuck => rfl

theorem fst_invert_congr {run run' : Run ρ} (h : run.1 = run'.1) (start : Cursor) :
    (run.invert start).1 = (run'.invert start).1 := by
  obtain ⟨outcome, a⟩ := run
  obtain ⟨_, a'⟩ := run'
  cases h
  cases outcome <;> rfl

theorem fst_prepend_congr {run run' : Run ρ} (h : run.1 = run'.1) (trees : List (ParseTree ρ)) :
    (run.prepend trees).1 = (run'.prepend trees).1 :=
  fst_andThen_congr h fun _ _ _ _ => rfl

theorem fst_ofStep (a a' : Attempts ρ) (step : Option Cursor) :
    (ofStep a step).1 = (ofStep a' step).1 := by
  cases step <;> rfl

end Run

namespace Grammar

theorem fst_closeRule_congr {run run' : Run ρ} (h : run.1 = run'.1) (atomic : Bool)
    (look look' : Lookahead) (rule : ρ) (start : Cursor) (mark mark' : Attempts.Mark) :
    (closeRule ⟨atomic, look⟩ rule start mark run).1 =
      (closeRule ⟨atomic, look'⟩ rule start mark' run').1 := by
  obtain ⟨outcome, a⟩ := run
  obtain ⟨_, a'⟩ := run'
  cases h
  cases outcome <;> cases atomic <;> rfl

/-- The outcome of a match depends neither on the attempts recorded so far nor on the lookahead. -/
theorem fst_run_congr (g : Grammar ρ) (bound : Nat) (atomic : Bool) (look look' : Lookahead)
    (pattern : Pattern ρ) (start : Cursor) (a a' : Attempts ρ) :
    (g.run bound ⟨atomic, look⟩ pattern start a).1 =
      (g.run bound ⟨atomic, look'⟩ pattern start a').1 := by
  induction bound generalizing atomic look look' pattern start a a' with
  | zero => rfl
  | succ bound ih =>
    have hskip (cursor : Cursor) (a a' : Attempts ρ) :
        (if atomic then (Outcome.ok cursor [], a)
          else g.run bound ⟨true, look⟩ g.gap cursor a : Run ρ).1 =
        (if atomic then (Outcome.ok cursor [], a')
          else g.run bound ⟨true, look'⟩ g.gap cursor a' : Run ρ).1 := by
      cases atomic
      · exact ih ..
      · rfl
    cases pattern with
    | rule r =>
      simp only [run]
      split
      · exact ih ..
      · exact fst_closeRule_congr (ih ..) ..
    | seq first second =>
      refine Run.fst_andThen_congr (ih ..) fun _ _ _ _ => ?_
      exact Run.fst_andThen_congr (hskip ..) fun _ _ _ _ => Run.fst_prepend_congr (ih ..) _
    | alt first second => exact Run.fst_orElse_congr (ih ..) fun _ _ => ih ..
    | star p =>
      refine Run.fst_orElse_congr (Run.fst_andThen_congr (ih ..) fun _ _ _ _ => ?_) fun _ _ => rfl
      exact Run.fst_prepend_congr (ih ..) _
    | more p =>
      refine Run.fst_orElse_congr (Run.fst_andThen_congr ?_ fun _ _ _ _ => ?_) fun _ _ => rfl
      · exact Run.fst_andThen_congr (hskip ..) fun _ _ _ _ => ih ..
      · exact Run.fst_prepend_congr (ih ..) _
    | ahead p => exact Run.fst_andThen_congr (ih ..) fun _ _ _ _ => rfl
    | notAhead p => exact Run.fst_invert_congr (ih ..) _
    | push p => exact Run.fst_andThen_congr (ih ..) fun _ _ _ _ => rfl
    | pushLit chars => rfl
    | lit | caseless | one | startOfInput | endOfInput | drop | peek => exact Run.fst_ofStep ..

end Grammar

end Lsl.Peg
