import Lsl.Proofs.Grammar.Lexical
import Lsl.Proofs.Peg.Balance
import Lsl.Proofs.Peg.Yield
/-!
# Gaps and the stack

What the grammar of scripts skips between the parts of its patterns, and that none of its rules
changes the stack.
-/

namespace Lsl.Rule

open Peg Pattern Lexeme

/-- No rule of the grammar changes the stack. -/
theorem grammar_balanced : grammar.Balanced where
  pattern r := by cases r <;> decide
  gap := by decide

theorem stack_eq {r : Rule} {atomic : Bool} {c c' : Cursor} {ts : List (ParseTree Rule)}
    (h : Derives grammar atomic (.rule r) c (some (c', ts))) : c'.stack = c.stack :=
  h.stack_eq grammar_balanced rfl

theorem skips_stack {c c' : Cursor} (h : grammar.Skips c c') : c'.stack = c.stack := by
  obtain ⟨_, h⟩ := h
  exact h.stack_eq grammar_balanced grammar_balanced.gap

theorem not_gap_fail {c : Cursor} (h : Derives grammar true grammar.gap c none) : False := by
  rcases h.of_seq_fail with h | ⟨_, _, -, h | ⟨_, _, -, h⟩⟩
  · exact h.not_star_fail
  · cases (Derives.between_true _).unique h
  · exact h.not_star_fail

theorem exists_skips (c : Cursor) : ∃ c', grammar.Skips c c' := by
  obtain ⟨result, h⟩ := Grammar.exists_derives ranking_fits true ranking_fits.bounds_gap c
  cases result with
  | none => exact absurd h not_gap_fail
  | some result => exact ⟨result.1, result.2, h⟩

/-! ## Where a gap ends -/

/-- A blank or a line end. -/
def isBlank (c : Char) : Bool :=
  c == ' ' || c == '\t' || c == '\r' || c == '\n'

theorem scans_whitespace :
    Scans grammar (.rule .whitespace) fun text => (text.head?.filter isBlank).map ([·]) := by
  refine Scans.rule ((Scans.words [" ", "\t", "\r", "\n"]).congr fun text => ?_)
  cases text with
  | nil => rfl
  | cons c rest =>
    by_cases h : isBlank c = true
    · simp only [isBlank, Bool.or_eq_true, beq_iff_eq] at h
      rcases h with ((rfl | rfl) | rfl) | rfl <;> rfl
    · have hne := h
      simp only [isBlank, Bool.or_eq_true, beq_iff_eq, not_or] at hne
      obtain ⟨⟨⟨h₁, h₂⟩, h₃⟩, h₄⟩ := hne
      simp [Option.filter, h, Ne.symm h₁, Ne.symm h₂, Ne.symm h₃, Ne.symm h₄]

/-- The two characters that start a comment. -/
def opensComment : List Char → Bool
  | '/' :: c :: _ => c == '/' || c == '*'
  | _ => false

/-- Neither a blank nor a comment comes first. -/
def Solid (rest : List Char) : Prop :=
  Stops isBlank rest ∧ opensComment rest = false

theorem solid_of_stops {rest : List Char} (h : Stops startsGap rest) : Solid rest := by
  refine ⟨h.mono fun x hx => ?_, ?_⟩
  · simp only [startsGap, isBlank] at hx ⊢
    rw [hx, Bool.true_or]
  · unfold opensComment
    split
    · have := stops_cons.1 h
      cases this
    · rfl

private theorem isPrefixOf_eq_false {rest : List Char} {c : Char} (hc : c = '/' ∨ c = '*')
    (h : opensComment rest = false) : ['/', c].isPrefixOf rest = false := by
  rw [← Bool.not_eq_true, List.isPrefixOf_iff_prefix]
  rintro ⟨tail, rfl⟩
  rcases hc with rfl | rfl <;> cases h

theorem comment_fails {c : Cursor} (h : opensComment c.rest = false) :
    Derives grammar true (.rule .comment) c none := by
  have hlit {d : Char} (hd : d = '/' ∨ d = '*') : Derives grammar true (.lit ['/', d]) c none := by
    refine (Scans.lit ['/', d]).derives_none ?_
    rw [isPrefixOf_eq_false hd h]
    rfl
  refine .silent rfl (.altSecond (.seqFirst ?_) (.seqFirst ?_))
  · exact hlit (.inl rfl)
  · exact hlit (.inr rfl)

/-- A gap in front of solid text is what blanks there are. -/
theorem skips_blanks {c : Cursor} {blanks rest : List Char} (hc : c.rest = blanks ++ rest)
    (hblanks : blanks.all isBlank = true) (hrest : Solid rest) :
    grammar.Skips c (c.advance blanks.length) := by
  have hstar := @Scans.derives_some _ _ _ _ scans_whitespace.starOne c blanks
    (by rw [hc, takeWhile_append hblanks hrest.1])
  have hnone : Derives grammar true (.rule .comment) (c.advance blanks.length) none := by
    refine comment_fails ?_
    rw [Cursor.rest_advance, hc, List.drop_left]
    exact hrest.2
  exact ⟨_, .seq hstar (.between_true _) (.starNone (.seqFirst hnone))⟩

theorem skips_solid {c : Cursor} (h : Solid c.rest) : grammar.Skips c c :=
  @skips_blanks c [] c.rest rfl rfl h

/-! ## A second gap is empty -/

/-- Rounds inside an atomic rule go on until one fails, and whatever the start and the rounds
establish holds at the end. -/
private theorem more_stops {g : Grammar Rule} {p : Pattern Rule} {P : Cursor → Prop}
    (hP : ∀ c c' ts, Derives g true p c (some (c', ts)) → P c') {c c' : Cursor}
    {ts : List (ParseTree Rule)} (h : Derives g true (.more p) c (some (c', ts))) (hc : P c) :
    P c' ∧ Derives g true p c' none := by
  generalize hq : Pattern.more p = q at h
  generalize hres : (some (c', ts) : Result Rule) = res at h
  generalize hatomic : true = atomic at h
  induction h generalizing c' ts with
  | step hf =>
    subst hq
    cases hf
  | moreBetween hgap =>
    subst hatomic
    cases (Derives.between_true _).unique hgap
  | moreNone hgap hnone =>
    subst hatomic
    cases hres
    cases hq
    cases (Derives.between_true _).unique hgap
    exact ⟨hc, hnone⟩
  | moreSome hgap hround _ _ _ ih =>
    subst hatomic
    cases hres
    cases hq
    exact ih (hP _ _ _ hround) rfl rfl rfl
  | _ => cases hq

private theorem star_stops {g : Grammar Rule} {p : Pattern Rule} {P : Cursor → Prop}
    (hP : ∀ c c' ts, Derives g true p c (some (c', ts)) → P c') {c c' : Cursor}
    {ts : List (ParseTree Rule)} (h : Derives g true (.star p) c (some (c', ts))) (hc : P c) :
    P c' ∧ Derives g true p c' none := by
  rcases h.of_star with ⟨hnone, rfl, -⟩ | ⟨_, _, _, hround, hmore, -⟩
  · exact ⟨hc, hnone⟩
  · exact more_stops hP hmore (hP _ _ _ hround)

/-- After a gap there is no other. -/
theorem skips_idem {c c' : Cursor} (h : grammar.Skips c c') : grammar.Skips c' c' := by
  obtain ⟨_, h⟩ := h
  -- Both repetitions end where no blank comes next.
  have blanks {c c' : Cursor} {ts : List (ParseTree Rule)}
      (h : Derives grammar true (star (.rule .whitespace)) c (some (c', ts))) :
      Derives grammar true (.rule .whitespace) c' none :=
    (star_stops (P := fun _ => True) (fun _ _ _ _ => trivial) h trivial).2
  have hround : ∀ c c' ts, Derives grammar true (cat [.rule .comment, star (.rule .whitespace)]) c
      (some (c', ts)) → Derives grammar true (.rule .whitespace) c' none := by
    intro c c' ts h
    obtain ⟨_, _, _, _, _, -, -, hstar, -⟩ := h.of_seq
    exact blanks hstar
  obtain ⟨_, _, _, _, _, hblanks, hgap, hcomments, -⟩ := h.of_seq
  cases (Derives.between_true _).unique hgap
  obtain ⟨hnone, hcomment⟩ := star_stops hround hcomments (blanks hblanks)
  exact ⟨_, .seq (.starNone hnone) (.between_true _) (.starNone hcomment)⟩

end Lsl.Rule
