import Lsl.Proofs.Program
/-!
# Layout

Blanks outside strings and comments only keep words apart: any blanks in their place leave a text that
is read as the same script.
-/

namespace Lsl

open Peg Lexeme

namespace Rule

/-! ## Texts with other blanks at one place -/

/-- Literals that hold neither blanks nor anything that opens strings or comments leave a count as it
is. -/
def stay (chars : List Char) (n : Nat) : Option Nat :=
  if chars.all (fun c => !isBlank c && (c != '"' && c != '/')) then some n else none

/-- The texts are the same, or they will be after the blanks of each. -/
def Reblanked (blanks blanks' rest : List Char) (_ : Nat) (text text' : List Char) : Prop :=
  text = text' ∨ ∃ head code, codeOf? .code head = some code ∧ text = head ++ (blanks ++ rest) ∧
    text' = head ++ (blanks' ++ rest)

theorem stops_blanks {accepts : Char → Bool} (haccepts : ∀ c, isBlank c = true → accepts c = false)
    {blanks : List Char} (hblanks : blanks.all isBlank = true) (hne : blanks ≠ []) (rest : List Char) :
    Stops accepts (blanks ++ rest) := by
  obtain ⟨c, blanks, rfl⟩ := List.exists_cons_of_ne_nil hne
  rw [List.all_cons, Bool.and_eq_true] at hblanks
  exact stops_cons.2 (haccepts c hblanks.1)

theorem delimited_blanks {blanks : List Char} (hblanks : blanks.all isBlank = true)
    (hne : blanks ≠ []) (rest : List Char) : Delimited (blanks ++ rest) :=
  stops_blanks (fun c hc => by simp [isDelimiter, hc]) hblanks hne rest

section

variable {blanks blanks' : List Char} (hblanks : blanks.all isBlank = true)
  (hblanks' : blanks'.all isBlank = true) (hne : blanks ≠ []) (hne' : blanks' ≠ [])

include hblanks hblanks' hne hne'

/-- Every part of the grammar keeps texts apart by no more than the blanks. -/
theorem tracks_reblanked (rest : List Char) :
    Tracks (fun _ => True) stay (anywhere isPart) (Reblanked blanks blanks' rest) where
  calls := grammar.closed_true
  pattern {r n} hr ha := by
    refine .inl ⟨0, Nat.zero_le n, ?_⟩
    cases r <;> first | (cases hr; done) | (cases ha; done) | decide
  atomic {r n} hr ha := by cases r <;> first | (cases hr; done) | (cases ha; done) | rfl
  gap := by
    rintro n text text' (rfl | ⟨head, code, hcode, rfl, rfl⟩)
    · exact .inl rfl
    obtain ⟨left, code', hleft, -, hgap⟩ := gap_of_codeOf? hcode
    obtain ⟨hskip, hend⟩ := hgap _ (delimited_blanks hblanks hne rest)
    obtain ⟨hskip', hend'⟩ := hgap _ (delimited_blanks hblanks' hne' rest)
    rw [hskip, hskip']
    by_cases hnil : left = []
    · subst hnil
      refine .inl ?_
      rw [List.nil_append, List.nil_append, afterGap_blanks hblanks, afterGap_blanks hblanks']
    · rw [afterGap_of_none (hend.resolve_left hnil), afterGap_of_none (hend'.resolve_left hnil)]
      exact .inr ⟨left, code', hleft, rfl, rfl⟩
  lit := by
    rintro m n n' chars text text' hstay (rfl | ⟨head, code, hcode, rfl, rfl⟩) - -
    · cases hpre : chars.isPrefixOf text with
      | false => exact .inr ⟨rfl, rfl⟩
      | true =>
        obtain ⟨rest, rfl⟩ := List.isPrefixOf_iff_prefix.1 hpre
        exact .inl ⟨rest, rest, rfl, rfl, .inl rfl⟩
    unfold stay at hstay
    split at hstay
    · next hchars =>
      cases hstay
      have hclear (c : Char) (hc : c ∈ chars) := Bool.and_eq_true_iff.1 (List.all_eq_true.1 hchars c hc)
      have hquote : chars.all (fun c => c != '"' && c != '/') = true :=
        List.all_eq_true.2 fun c hc => (hclear c hc).2
      have hsolid : chars.all (fun c => !isBlank c) = true :=
        List.all_eq_true.2 fun c hc => (hclear c hc).1
      have hblank (c : Char) (hc : isBlank c = true) : (!isBlank c) = false := by rw [hc]; rfl
      rcases lit_of_codeOf? hquote hcode
        (isPrefixOf_append_of_stops hsolid (stops_blanks hblank hblanks hne rest))
        (isPrefixOf_append_of_stops hsolid (stops_blanks hblank hblanks' hne' rest)) with
        ⟨left, code', rfl, -, hleft⟩ | hnone
      · exact .inl ⟨_, _, List.append_assoc .., List.append_assoc ..,
          .inr ⟨left, code', hleft, rfl, rfl⟩⟩
      · exact .inr hnone
    · cases hstay
  word := by
    rintro r take? m n text text' hr ha hscans (rfl | ⟨head, code, hcode, rfl, rfl⟩) hstill -
    · cases htake : take? text with
      | none => exact .inr ⟨rfl, rfl⟩
      | some taken =>
        obtain ⟨rest, rfl⟩ := hscans.taken htake
        exact .inl ⟨taken, rest, rest, rfl, rfl, rfl, rfl, .inl rfl⟩
    have hs : r.isSilent = false := by
      cases r <;> first | (cases hr; done) | (cases ha; done) | rfl
    obtain ⟨hsame, htaken⟩ := word_of_codeOf? ha hs hscans hcode hstill
      (delimited_blanks hblanks hne rest) (delimited_blanks hblanks' hne' rest)
    rw [hsame]
    cases htake : take? (head ++ (blanks ++ rest)) with
    | none => exact .inr ⟨rfl, rfl⟩
    | some taken =>
      obtain ⟨left, code', rfl, hleft, -⟩ := htaken taken htake
      exact .inl ⟨taken, _, _, rfl, rfl, List.append_assoc .., List.append_assoc ..,
        .inr ⟨left, code', hleft, rfl, rfl⟩⟩

end

end Rule

/-! ## Scripts -/

open Rule in
/-- A relation between texts that the grammar keeps relates texts of the same script, if it relates no
text but the empty one to the empty text. -/
theorem parseScript_of_tracks {move : List Char → Nat → Option Nat} {rules : Rule → Nat → Bool}
    {R : Nat → List Char → List Char → Prop} (hR : Tracks (fun _ => True) move rules R)
    (hglobals : rules .globals 0 = true) (hstates : rules .states 0 = true)
    (hend : ∀ text, R 0 [] text → text = []) {source source' : String}
    (h : R 0 source.toList source'.toList) {script : Script} (hscript : parseScript source = .ok script) :
    parseScript source' = .ok script := by
  obtain ⟨globals, states⟩ := script
  obtain ⟨c, c₁, c₂, c₃, c₄, us, vs, ⟨_, hgap₁⟩, hus, ⟨_, hgap₂⟩, hvs, ⟨_, hgap₃⟩, hempty, hshows, hshows',
    hall⟩ := parts_of_parseScript hscript
  have hflow {r : Rule} (hr : rules r 0 = true) : flow move rules (.rule r) 0 = some 0 := if_pos hr
  obtain ⟨htext₁, hstack₁, hstill₁⟩ := hR.skip h hgap₁
  obtain ⟨hstack₂, rest₂, hrest₂, hechoes⟩ := mirrors_of_derives hR hus trivial (hflow hglobals)
    htext₁ (.inr ⟨hstill₁, takePiece?_afterGap _⟩) (by rw [hstack₁]; nofun)
  obtain ⟨htext₃, hstack₃, hstill₃⟩ := hR.skip hrest₂ hgap₂
  obtain ⟨hstack₄, rest₄, hrest₄, hechoes'⟩ := mirrors_of_derives hR hvs trivial (hflow hstates)
    htext₃ (.inr ⟨hstill₃, takePiece?_afterGap _⟩) (by rw [hstack₃]; exact hstack₂)
  obtain ⟨htext₅, -, -⟩ := hR.skip hrest₄ hgap₃
  rw [hempty] at htext₅
  rw [stack_eq hus, hstack₁] at hstack₃
  rw [stack_eq hus, hstack₁] at hechoes
  rw [stack_eq hvs, hstack₃] at hechoes'
  exact parseScript_of_reads (gapTo_afterGap _) (hechoes.shows hshows) (gapTo_afterGap _)
    (hechoes'.shows hshows') (gapTo_iff.2 (hend _ htext₅).symm) hall

/-- A scan of the text from its start ends outside every string and comment. -/
def endsInCode (text : String) : Bool :=
  (Rule.codeOf? .code text.toList).isSome

/-- Only blanks, and at least one. -/
def areBlanks (text : String) : Bool :=
  text.toList.all Rule.isBlank && !text.toList.isEmpty

/-- Blanks at a place outside strings and comments may be replaced by any others. -/
theorem parseScript_reblank {before blanks blanks' after : String} {script : Script}
    (hbefore : endsInCode before = true) (hblanks : areBlanks blanks = true)
    (hblanks' : areBlanks blanks' = true)
    (h : parseScript (before ++ blanks ++ after) = .ok script) :
    parseScript (before ++ blanks' ++ after) = .ok script := by
  obtain ⟨code, hcode⟩ := Option.isSome_iff_exists.1 hbefore
  rw [areBlanks, Bool.and_eq_true, Bool.not_eq_true', List.isEmpty_eq_false_iff] at hblanks hblanks'
  have htracks := Rule.tracks_reblanked hblanks.1 hblanks'.1 hblanks.2 hblanks'.2 after.toList
  refine parseScript_of_tracks htracks rfl rfl ?_ (.inr ⟨before.toList, code, hcode, ?_, ?_⟩) h
  · rintro text (rfl | ⟨head, _, -, hnil, -⟩)
    · rfl
    · have hnone := (List.append_eq_nil_iff.1 hnil.symm).2
      exact absurd (List.append_eq_nil_iff.1 hnone).1 hblanks.2
  · rw [String.toList_append, String.toList_append, List.append_assoc]
  · rw [String.toList_append, String.toList_append, List.append_assoc]

/-- Layout does not matter: which blanks stand at a place outside strings and comments makes no
difference to the script that a text is read as. -/
theorem parseScript_blanks_iff {before blanks blanks' after : String} (script : Script)
    (hbefore : endsInCode before = true) (hblanks : areBlanks blanks = true)
    (hblanks' : areBlanks blanks' = true) :
    parseScript (before ++ blanks ++ after) = .ok script ↔
      parseScript (before ++ blanks' ++ after) = .ok script :=
  ⟨parseScript_reblank hbefore hblanks hblanks', parseScript_reblank hbefore hblanks' hblanks⟩

/-- Blanks inside an expression, next to an operator that a comment could be taken for, after a comment
and a string with a quote in it. -/
theorem parseScript_blanks_iff_sample : ∃ script,
    parseScript "string s = \"\\\"/*\"; /* \" */ f()\x7bx = 1 / 2 >= <3,4,5>;\x7d" = .ok script ∧
    parseScript "string s = \"\\\"/*\"; /* \" */ f()\x7bx = 1 /\r\n\t 2 >= <3,4,5>;\x7d" = .ok script := by
  obtain ⟨script, hscript⟩ := @exists_parseScript
    "string s = \"\\\"/*\"; /* \" */ f()\x7bx = 1 / 2 >= <3,4,5>;\x7d" (by decide +kernel)
  refine ⟨script, hscript, ?_⟩
  exact (@parseScript_blanks_iff "string s = \"\\\"/*\"; /* \" */ f()\x7bx = 1 /" " " "\r\n\t "
    "2 >= <3,4,5>;\x7d" script (by decide) (by decide) (by decide)).1 hscript

end Lsl
