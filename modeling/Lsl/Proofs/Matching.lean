import Lsl.Proofs.Grammar.Gap
/-!
# What matching a rule comes to

At every cursor a rule of the grammar matches or fails.  A match lies ahead of where it started and
leaves the stack as it found it.  On the way no rule comes back to itself before a character is
consumed, and no repetition goes round without one.
-/

namespace Lsl.Rule

open Peg Pattern

theorem derives_of_run {r : Rule} {bound : Nat} {ctx : Context} {start stop : Cursor}
    {attempts attempts' : Attempts Rule} {trees : List (ParseTree Rule)}
    (h : grammar.run bound ctx (.rule r) start attempts = (.ok stop trees, attempts')) :
    Derives grammar ctx.atomic (.rule r) start (some (stop, trees)) := by
  have hfst := grammar.fst_run bound ctx (.rule r) start attempts
  rw [h] at hfst
  exact Grammar.derives_of_outcome hfst.symm

/-! ## The stack -/

/-- Whatever a rule puts on the stack it takes off again, and it takes nothing else. -/
theorem run_leaves_stack {r : Rule} {bound : Nat} {ctx : Context} {start stop : Cursor}
    {attempts attempts' : Attempts Rule} {trees : List (ParseTree Rule)}
    (h : grammar.run bound ctx (.rule r) start attempts = (.ok stop trees, attempts')) :
    stop.stack = start.stack :=
  stack_eq (derives_of_run h)

/-- A rotation around a call, a vector in brackets and a list, inside a literal and a call. -/
theorem run_leaves_stack_sample : ∃ stop trees attempts,
    grammar.run 400 ⟨false, .none⟩ (.rule .quaternion)
      ⟨9, "<f(a > b), (<1, 2, 3>), [4], -x> + y".toList, [['>'], ['(']]⟩ .initial =
      (.ok stop trees, attempts) ∧
    stop.rest = " + y".toList ∧ stop.stack = [['>'], ['(']] := by
  obtain ⟨stop, trees, attempts, h, hrest⟩ : ∃ stop trees attempts,
      grammar.run 400 ⟨false, .none⟩ (.rule .quaternion)
        ⟨9, "<f(a > b), (<1, 2, 3>), [4], -x> + y".toList, [['>'], ['(']]⟩ .initial =
        (.ok stop trees, attempts) ∧ stop.rest = " + y".toList := ⟨_, _, _, rfl, rfl⟩
  exact ⟨stop, trees, attempts, h, hrest, run_leaves_stack h⟩

/-! ## The end of a match -/

/-- With a bound that goes with the characters that remain, the run ends in the one result there is. -/
theorem exists_result (r : Rule) (atomic : Bool) (start : Cursor) :
    ∃ result, Derives grammar atomic (.rule r) start result ∧
      ∀ bound look attempts, Grammar.depthBound start.rest.length ≤ bound →
        (grammar.run bound ⟨atomic, look⟩ (.rule r) start attempts).1 = result.toOutcome := by
  obtain ⟨result, h⟩ := exists_derives atomic r start
  refine ⟨result, h, fun bound look attempts hbound => ?_⟩
  calc (grammar.run bound ⟨atomic, look⟩ (.rule r) start attempts).1
      = grammar.outcome bound atomic (.rule r) start := grammar.fst_run ..
    _ = result.toOutcome := Grammar.outcome_eq_of_derives h (outcome_ne_stuck r atomic hbound)

theorem ahead_of_derives {r : Rule} {atomic : Bool} {start stop : Cursor}
    {trees : List (ParseTree Rule)}
    (h : Derives grammar atomic (.rule r) start (some (stop, trees))) :
    start.position ≤ stop.position ∧ stop.rest <:+ start.rest := by
  obtain ⟨text, hrest, hposition⟩ := h.spans
  exact ⟨by omega, text, hrest.symm⟩

/-- A rule that comes to call for itself has moved on. -/
theorem position_lt_of_calls {r : Rule} {atomic atomic' : Bool} {start again : Cursor}
    (h : Relation.TransGen grammar.Calls ⟨atomic, .rule r, start⟩ ⟨atomic', .rule r, again⟩) :
    start.position < again.position :=
  Grammar.position_lt_of_transGen ranking_fits h rfl (Nat.le_refl _)

/-- Every round of a repetition, those of a gap too, moves on. -/
theorem position_lt_of_round {r : Rule} {round : Pattern Rule} {atomic : Bool} {start stop : Cursor}
    {trees : List (ParseTree Rule)}
    (hround : round ∈ (grammar.pattern r).repeated ++ grammar.gap.repeated)
    (h : Derives grammar atomic round start (some (stop, trees))) :
    start.position < stop.position := by
  apply h.position_lt ranking_fits.consuming
  rcases List.mem_append.1 hround with hround | hround
  · exact Ranking.consumes_of_mem_repeated (ranking_fits.bounds false r) hround
  · exact Ranking.consumes_of_mem_repeated ranking_fits.bounds_gap hround

/-- Matching a rule comes to an end wherever it starts: in a match further on or in a failure, and
always in the same one if the run is given depth enough.  No rule comes back to itself before a
character is consumed, and every round of a repetition consumes one. -/
theorem matching_terminates (r : Rule) (start : Cursor) :
    (∀ atomic, ∃ result, Derives grammar atomic (.rule r) start result ∧
      (∀ bound look attempts, Grammar.depthBound start.rest.length ≤ bound →
        (grammar.run bound ⟨atomic, look⟩ (.rule r) start attempts).1 = result.toOutcome) ∧
      ∀ stop trees, result = some (stop, trees) →
        start.position ≤ stop.position ∧ stop.rest <:+ start.rest) ∧
    (∀ atomic atomic' again,
      Relation.TransGen grammar.Calls ⟨atomic, .rule r, start⟩ ⟨atomic', .rule r, again⟩ →
      start.position < again.position) ∧
    ∀ round ∈ (grammar.pattern r).repeated ++ grammar.gap.repeated, ∀ atomic c c' trees,
      Derives grammar atomic round c (some (c', trees)) → c.position < c'.position := by
  refine ⟨fun atomic => ?_, fun _ _ _ h => position_lt_of_calls h, fun _ hround _ _ _ _ h => ?_⟩
  · obtain ⟨result, hderives, hrun⟩ := exists_result r atomic start
    refine ⟨result, hderives, hrun, ?_⟩
    rintro stop trees rfl
    exact ahead_of_derives hderives
  · exact position_lt_of_round hround h

/-- An operand with a sign in front calls for the operand after the sign, which starts further on. -/
theorem matching_terminates_sample :
    Grammar.depthBound 4 ≤ 5120 ∧
    (grammar.run 5120 ⟨false, .none⟩ (.rule .operand) (.ofText "- -y".toList) .initial).1 ≠ .stuck ∧
    (∃ again, Relation.TransGen grammar.Calls ⟨false, .rule .operand, .ofText "- -y".toList⟩
      ⟨false, .rule .operand, again⟩ ∧ (Cursor.ofText "- -y".toList).position < again.position) ∧
    ∃ round ∈ (grammar.pattern .operand).repeated ++ grammar.gap.repeated, ∃ c c',
      Derives grammar true round c (some (c', [])) ∧ c.position < c'.position := by
  obtain ⟨hends, hreturn, hround⟩ := matching_terminates .operand (.ofText "- -y".toList)
  have hahead : Derives grammar false (ahead (words ["++", "--", "!", "~", "-"]))
      (.ofText "- -y".toList) (some (.ofText "- -y".toList, [])) :=
    Grammar.derives_of_outcome (n := 20) rfl
  have hstart : Derives grammar true grammar.gap (.ofText "- -y".toList)
      (some (.ofText "- -y".toList, [])) := Grammar.derives_of_outcome (n := 20) rfl
  have hsign : Derives grammar false (.rule .operator) (.ofText "- -y".toList)
      (some (⟨1, " -y".toList, []⟩, [⟨.operator, "-", []⟩])) :=
    Grammar.derives_of_outcome (n := 40) rfl
  have hgap : Derives grammar true grammar.gap ⟨1, " -y".toList, []⟩
      (some (⟨2, "-y".toList, []⟩, [])) := Grammar.derives_of_outcome (n := 20) rfl
  have hblank : Derives grammar true (.rule .whitespace) ⟨1, " -y".toList, []⟩
      (some (⟨2, "-y".toList, []⟩, [])) := Grammar.derives_of_outcome (n := 20) rfl
  have hcalls : Relation.TransGen grammar.Calls ⟨false, .rule .operand, .ofText "- -y".toList⟩
      ⟨false, .rule .operand, ⟨2, "-y".toList, []⟩⟩ :=
    Relation.TransGen.single .rule |>.tail .altFirst |>.tail .rule
      |>.tail (.seqSecond hahead hstart) |>.tail (.seqSecond hsign hgap)
  have hmem : Pattern.rule .whitespace ∈ (grammar.pattern .operand).repeated ++ grammar.gap.repeated :=
    List.mem_append_right _ List.mem_cons_self
  refine ⟨by decide, ?_, ⟨_, hcalls, hreturn _ _ _ hcalls⟩, _, hmem, _, _, hblank,
    hround _ hmem _ _ _ _ hblank⟩
  obtain ⟨result, -, hrun, -⟩ := hends false
  rw [hrun 5120 .none .initial (by decide)]
  exact result.toOutcome_ne_stuck

end Lsl.Rule
