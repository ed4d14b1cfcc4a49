import Lsl.Proofs.Grammar.Lexical
/-!
# Words and what comes after them

Inside an atomic rule a pattern that only tests for characters of one class sees nothing beyond the
first character outside the class: whatever comes from there on, the result is the same.
-/

namespace Lsl.Rule

open Peg Pattern Lexeme

/-- Patterns that step over characters of a class only. -/
def confined (accepts : Char → Bool) (rules : Rule → Bool) : Pattern Rule → Bool
  | .lit chars | .caseless chars => chars.all accepts
  | .one cls => cls != .any
  | .rule r => rules r
  | .seq p q | .alt p q => confined accepts rules p && confined accepts rules q
  | .star p | .more p | .notAhead p => confined accepts rules p
  | _ => false

/-- The class holds the characters that rules are made of, and capitals with their small letters. -/
structure Confines (accepts : Char → Bool) (rules : Rule → Bool) : Prop where
  pattern {r : Rule} : rules r = true → confined accepts rules r.pattern = true
  contains {cls : CharClass} {x : Char} : cls ≠ .any → cls.contains x = true → accepts x = true
  toLower (x : Char) : accepts x.toLower = accepts x

/-- The result of a match is the same with any other text after the head that ends the class. -/
def Settles (accepts : Char → Bool) (p : Pattern Rule) (stack : List (List Char))
    (head tail : List Char) : Result Rule → Prop
  | none => ∀ k tail', Stops accepts tail' → Derives grammar true p ⟨k, head ++ tail', stack⟩ none
  | some (c', _) => ∃ taken left, head = taken ++ left ∧ c'.rest = left ++ tail ∧
      c'.stack = stack ∧ taken.all accepts = true ∧ ∀ k tail', Stops accepts tail' →
        Derives grammar true p ⟨k, head ++ tail', stack⟩
          (some (⟨k + taken.length, left ++ tail', stack⟩, []))

section

variable {accepts : Char → Bool} {rules : Rule → Bool} {p : Pattern Rule} {c : Cursor}
  {head tail : List Char}

theorem isPrefixOf_append_of_stops {chars : List Char} (hchars : chars.all accepts = true)
    (htail : Stops accepts tail) : chars.isPrefixOf (head ++ tail) = chars.isPrefixOf head := by
  induction chars generalizing head with
  | nil => simp
  | cons x chars ih =>
    rw [List.all_cons, Bool.and_eq_true] at hchars
    cases head with
    | cons y head => simp [List.isPrefixOf, ih hchars.2]
    | nil =>
      cases tail with
      | nil => rfl
      | cons y tail =>
        have hne : x ≠ y := by
          rintro rfl
          rw [stops_cons.1 htail] at hchars
          cases hchars.1
        simp [List.isPrefixOf, hne]

/-- A step over characters that are either all in the head or not there at all. -/
private theorem settles_of_step {f : Cursor → Option Cursor} (hf : p.step? = some f)
    (take? : List Char → Option (List Char)) (hscans : Scans grammar p take?)
    (htake : ∀ tail, Stops accepts tail → take? (head ++ tail) = take? head)
    (hall : ∀ taken, take? head = some taken → taken.all accepts = true)
    (hc : c.rest = head ++ tail) (htail : Stops accepts tail) :
    Settles accepts p c.stack head tail ((f c).map (·, [])) := by
  have hstep : Derives grammar true p c ((f c).map (·, [])) := .step hf
  have hderives := hscans.derives c
  rw [hc, htake tail htail] at hderives
  rw [hstep.unique hderives]
  cases hhead : take? head with
  | none =>
    intro k tail' htail'
    exact hscans.derives_none ((htake tail' htail').trans hhead)
  | some taken =>
    obtain ⟨left, rfl⟩ := hscans.taken hhead
    refine ⟨taken, left, rfl, ?_, rfl, hall taken hhead, fun k tail' htail' => ?_⟩
    · rw [Cursor.rest_advance, hc, List.append_assoc, List.drop_left]
    · have hd := hscans.derives ⟨k, taken ++ left ++ tail', c.stack⟩
      dsimp only at hd
      rw [htake tail' htail', hhead, Option.map_some, Cursor.advance, List.append_assoc,
        List.drop_left] at hd
      rw [List.append_assoc]
      exact hd

/-- The letters of a word in either case are all in the head, or they are not there. -/
private theorem take_caseless (hlower : ∀ x, accepts x.toLower = accepts x) {chars : List Char}
    (hchars : chars.all accepts = true) (htail : Stops accepts tail) :
    (if ((head ++ tail).take chars.length).map Char.toLower = chars.map Char.toLower then
        some ((head ++ tail).take chars.length) else none) =
      if (head.take chars.length).map Char.toLower = chars.map Char.toLower then
        some (head.take chars.length) else none := by
  induction chars generalizing head with
  | nil => simp
  | cons x chars ih =>
    rw [List.all_cons, Bool.and_eq_true] at hchars
    cases head with
    | cons y head =>
      have htaken := congrArg (Option.map (y :: ·)) (@ih head hchars.2)
      simp only [apply_ite (Option.map (y :: ·)), Option.map_some, Option.map_none] at htaken
      by_cases hx : y.toLower = x.toLower
      · simpa only [List.cons_append, List.length_cons, List.take_succ_cons, List.map_cons,
          List.cons.injEq, hx, true_and] using htaken
      · simp [hx]
    | nil =>
      cases tail with
      | nil => rfl
      | cons y tail =>
        have hne : y.toLower ≠ x.toLower := by
          intro heq
          have hy := stops_cons.1 htail
          rw [← hlower, heq, hlower, hchars.1] at hy
          cases hy
        simp [hne]

private theorem all_of_caseless (hlower : ∀ x, accepts x.toLower = accepts x)
    {chars taken : List Char} (hchars : chars.all accepts = true)
    (h : taken.map Char.toLower = chars.map Char.toLower) : taken.all accepts = true := by
  have hall (text : List Char) : text.all accepts = (text.map Char.toLower).all accepts := by
    simp only [List.all_map, Function.comp_def, hlower]
  rw [hall, h, ← hall, hchars]

/-- What a confined pattern comes to is settled by the text up to the end of the class. -/
theorem settles_of_derives (hg : Confines accepts rules) {res : Result Rule}
    (h : Derives grammar true p c res) (hp : confined accepts rules p = true)
    (hc : c.rest = head ++ tail) (htail : Stops accepts tail) :
    Settles accepts p c.stack head tail res := by
  generalize hatomic : true = atomic at h
  induction h generalizing head with
  | @step _ p c f hf =>
    cases p <;> try cases hp
    case lit chars =>
      refine settles_of_step hf _ (Scans.lit chars) (fun tail htail => ?_) (fun taken htaken => ?_)
        hc htail
      · rw [isPrefixOf_append_of_stops hp htail]
      · split at htaken <;> cases htaken
        exact hp
    case caseless chars =>
      refine settles_of_step hf _ (Scans.caseless chars) (fun tail htail => ?_)
        (fun taken htaken => ?_) hc htail
      · exact take_caseless hg.toLower hp htail
      · split at htaken
        · next heq =>
          cases htaken
          exact all_of_caseless hg.toLower hp heq
        · cases htaken
    case one cls =>
      refine settles_of_step hf _ (Scans.one cls) (fun tail htail => ?_) (fun taken htaken => ?_)
        hc htail
      · cases head with
        | cons x head => rfl
        | nil =>
          cases tail with
          | nil => rfl
          | cons x tail =>
            have hx : cls.contains x = false := by
              rw [← Bool.not_eq_true]
              intro hx
              have hfalse := stops_cons.1 htail
              rw [hg.contains (bne_iff_ne.1 hp) hx] at hfalse
              cases hfalse
            simp [Option.filter, hx]
      · obtain ⟨x, hx, rfl⟩ := Option.map_eq_some_iff.1 htaken
        have hx := (Option.filter_eq_some_iff.1 hx).2
        rw [List.all_cons, hg.contains (bne_iff_ne.1 hp) hx]
        rfl
    all_goals cases hf
  | @silent _ r _ res hs _ ih =>
    have hinner := ih (hg.pattern hp) hc (by rw [← hatomic]; rfl)
    cases res with
    | none => exact fun k tail' htail' => .silent hs (hinner k tail' htail')
    | some result =>
      obtain ⟨taken, left, heq, hrest, hstack, hall, hd⟩ := hinner
      exact ⟨taken, left, heq, hrest, hstack, hall,
        fun k tail' htail' => .silent hs (hd k tail' htail')⟩
  | node hs _ ih =>
    obtain ⟨taken, left, heq, hrest, hstack, hall, hd⟩ :=
      ih (hg.pattern hp) hc (by rw [← hatomic]; rfl)
    exact ⟨taken, left, heq, hrest, hstack, hall,
      fun k tail' htail' => .node hs (hd k tail' htail')⟩
  | nodeFail hs _ ih =>
    have hinner := ih (hg.pattern hp) hc (by rw [← hatomic]; rfl)
    exact fun k tail' htail' => .nodeFail hs (hinner k tail' htail')
  | seq _ hgap _ ih₁ _ ih₃ =>
    subst hatomic
    cases (Derives.between_true _).unique hgap
    rw [confined, Bool.and_eq_true] at hp
    obtain ⟨taken₁, left₁, rfl, hrest₁, hstack₁, hall₁, hd₁⟩ := ih₁ hp.1 hc rfl
    obtain ⟨taken₂, left₂, rfl, hrest₂, hstack₂, hall₂, hd₂⟩ := ih₃ hp.2 hrest₁ rfl
    refine ⟨taken₁ ++ taken₂, left₂, by rw [List.append_assoc], hrest₂, hstack₂.trans hstack₁, ?_,
      fun k tail' htail' => ?_⟩
    · rw [List.all_append, hall₁, hall₂]
      rfl
    · rw [hstack₁] at hd₂
      rw [List.length_append, ← Nat.add_assoc]
      exact .seq (hd₁ k tail' htail') (.between_true _) (hd₂ _ tail' htail')
  | seqFirst _ ih =>
    rw [confined, Bool.and_eq_true] at hp
    have hinner := ih hp.1 hc hatomic
    exact fun k tail' htail' => .seqFirst (hinner k tail' htail')
  | seqBetween _ hgap =>
    subst hatomic
    cases (Derives.between_true _).unique hgap
  | seqSecond _ hgap _ ih₁ _ ih₃ =>
    subst hatomic
    cases (Derives.between_true _).unique hgap
    rw [confined, Bool.and_eq_true] at hp
    obtain ⟨taken₁, left₁, rfl, hrest₁, hstack₁, -, hd₁⟩ := ih₁ hp.1 hc rfl
    have hsecond := ih₃ hp.2 hrest₁ rfl
    rw [hstack₁] at hsecond
    exact fun k tail' htail' =>
      .seqSecond (hd₁ k tail' htail') (.between_true _) (hsecond _ tail' htail')
  | altFirst _ ih =>
    rw [confined, Bool.and_eq_true] at hp
    obtain ⟨taken, left, heq, hrest, hstack, hall, hd⟩ := ih hp.1 hc hatomic
    exact ⟨taken, left, heq, hrest, hstack, hall,
      fun k tail' htail' => .altFirst (hd k tail' htail')⟩
  | @altSecond _ _ _ _ res _ _ ih₁ ih₂ =>
    rw [confined, Bool.and_eq_true] at hp
    have hfirst := ih₁ hp.1 hc hatomic
    have hsecond := ih₂ hp.2 hc hatomic
    cases res with
    | none => exact fun k tail' htail' => .altSecond (hfirst k tail' htail') (hsecond k tail' htail')
    | some result =>
      obtain ⟨taken, left, heq, hrest, hstack, hall, hd⟩ := hsecond
      exact ⟨taken, left, heq, hrest, hstack, hall,
        fun k tail' htail' => .altSecond (hfirst k tail' htail') (hd k tail' htail')⟩
  | starNone _ ih =>
    have hinner := ih hp hc hatomic
    exact ⟨[], head, rfl, hc, rfl, rfl, fun k tail' htail' => .starNone (hinner k tail' htail')⟩
  | starSome _ _ ih₁ ih₂ =>
    obtain ⟨taken₁, left₁, rfl, hrest₁, hstack₁, hall₁, hd₁⟩ := ih₁ hp hc hatomic
    obtain ⟨taken₂, left₂, rfl, hrest₂, hstack₂, hall₂, hd₂⟩ := ih₂ hp hrest₁ hatomic
    refine ⟨taken₁ ++ taken₂, left₂, by rw [List.append_assoc], hrest₂, hstack₂.trans hstack₁, ?_,
      fun k tail' htail' => ?_⟩
    · rw [List.all_append, hall₁, hall₂]
      rfl
    · rw [hstack₁] at hd₂
      rw [List.length_append, ← Nat.add_assoc]
      exact .starSome (hd₁ k tail' htail') (hd₂ _ tail' htail')
  | moreBetween hgap =>
    subst hatomic
    cases (Derives.between_true _).unique hgap
  | moreNone hgap _ _ ih =>
    subst hatomic
    cases (Derives.between_true _).unique hgap
    have hinner := ih hp hc rfl
    exact ⟨[], head, rfl, hc, rfl, rfl,
      fun k tail' htail' => .moreNone (.between_true _) (hinner k tail' htail')⟩
  | moreSome hgap _ _ _ ih₂ ih₃ =>
    subst hatomic
    cases (Derives.between_true _).unique hgap
    obtain ⟨taken₁, left₁, rfl, hrest₁, hstack₁, hall₁, hd₁⟩ := ih₂ hp hc rfl
    obtain ⟨taken₂, left₂, rfl, hrest₂, hstack₂, hall₂, hd₂⟩ := ih₃ hp hrest₁ rfl
    refine ⟨taken₁ ++ taken₂, left₂, by rw [List.append_assoc], hrest₂, hstack₂.trans hstack₁, ?_,
      fun k tail' htail' => ?_⟩
    · rw [List.all_append, hall₁, hall₂]
      rfl
    · rw [hstack₁] at hd₂
      rw [List.length_append, ← Nat.add_assoc]
      exact .moreSome (.between_true _) (hd₁ k tail' htail') (hd₂ _ tail' htail')
  | notAhead _ ih =>
    have hinner := ih hp hc hatomic
    exact ⟨[], head, rfl, hc, rfl, rfl, fun k tail' htail' => .notAhead (hinner k tail' htail')⟩
  | notAheadFail _ ih =>
    obtain ⟨_, _, -, -, -, -, hd⟩ := ih hp hc hatomic
    exact fun k tail' htail' => .notAheadFail (hd k tail' htail')
  | ahead | aheadFail | push | pushFail => cases hp

/-- What the function of a confined rule takes depends on the text up to the end of the class. -/
theorem take_of_confined (hg : Confines accepts rules) {r : Rule} (hr : rules r = true)
    {take? : List Char → Option (List Char)} (hscans : Scans grammar (.rule r) take?)
    (htail : Stops accepts tail) {tail' : List Char} (htail' : Stops accepts tail') :
    take? (head ++ tail') = take? (head ++ tail) ∧
      ∀ taken, take? (head ++ tail) = some taken →
        taken.all accepts = true ∧ ∃ left, head = taken ++ left := by
  have hp : confined accepts rules (.rule r) = true := hr
  have hsettles := settles_of_derives hg (hscans.derives ⟨0, head ++ tail, []⟩) hp rfl htail
  dsimp only at hsettles
  cases htake : take? (head ++ tail) with
  | none =>
    rw [htake] at hsettles
    have hnone := (hscans.derives ⟨0, head ++ tail', []⟩).unique (hsettles 0 tail' htail')
    exact ⟨Option.map_eq_none_iff.1 hnone, nofun⟩
  | some taken =>
    rw [htake] at hsettles
    obtain ⟨taken', left, rfl, hrest, -, hall, hd⟩ := hsettles
    have htaken : taken' = taken := by
      obtain ⟨rest, hrest'⟩ := hscans.taken htake
      rw [Cursor.rest_advance, hrest', List.drop_left] at hrest
      rw [hrest, List.append_assoc] at hrest'
      exact List.append_cancel_right hrest'
    subst htaken
    refine ⟨?_, ?_⟩
    · obtain ⟨other, hother, hspans, -⟩ := hscans.eq_some (hd 0 tail' htail')
      dsimp only at hother hspans
      rw [List.append_assoc] at hspans
      rw [hother, ← List.append_cancel_right hspans]
    · rintro _ ⟨⟩
      exact ⟨hall, left, rfl⟩

end

end Lsl.Rule
