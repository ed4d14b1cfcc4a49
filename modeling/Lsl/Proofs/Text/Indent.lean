import Lsl.Text.Lines
/-!
# Indented texts

Indenting a text puts blanks after its line ends, and nothing else happens to it if its line ends are
where the indenter leaves them as they are.  `Tidy` texts are those; they stay so when they are
joined, and when they are indented.
-/

namespace Lsl.Text

/-- Puts blanks after every line end. -/
def deepen (pad : List Char) : List Char → List Char
  | [] => []
  | '\n' :: rest => '\n' :: (pad ++ deepen pad rest)
  | c :: rest => c :: deepen pad rest

section

variable {pad : List Char}

@[simp] theorem deepen_nil : deepen pad [] = [] := rfl

@[simp] theorem deepen_lineEnd (rest : List Char) :
    deepen pad ('\n' :: rest) = '\n' :: (pad ++ deepen pad rest) := by
  rw [deepen]

theorem deepen_cons {c : Char} (hc : c ≠ '\n') (rest : List Char) :
    deepen pad (c :: rest) = c :: deepen pad rest := by
  rw [deepen]
  exact hc

theorem deepen_append (first second : List Char) :
    deepen pad (first ++ second) = deepen pad first ++ deepen pad second := by
  induction first with
  | nil => rfl
  | cons c first ih =>
    by_cases hc : c = '\n'
    · subst hc
      simp [ih]
    · simp [deepen_cons hc, ih]

/-- Without line ends there is nothing to indent. -/
theorem deepen_of_not_mem {text : List Char} (h : '\n' ∉ text) : deepen pad text = text := by
  induction text with
  | nil => rfl
  | cons c text ih =>
    rw [List.mem_cons, not_or] at h
    rw [deepen_cons (Ne.symm h.1), ih h.2]

@[simp] theorem deepen_none (text : List Char) : deepen [] text = text := by
  induction text with
  | nil => rfl
  | cons c text ih =>
    by_cases hc : c = '\n'
    · subst hc
      simp [ih]
    · rw [deepen_cons hc, ih]

/-- Indenting twice puts the blanks of both in the same places. -/
theorem deepen_deepen {pad' : List Char} (h : '\n' ∉ pad') (text : List Char) :
    deepen pad (deepen pad' text) = deepen (pad ++ pad') text := by
  induction text with
  | nil => rfl
  | cons c text ih =>
    by_cases hc : c = '\n'
    · subst hc
      simp [deepen_append, deepen_of_not_mem h, ih]
    · rw [deepen_cons hc, deepen_cons hc, deepen_cons hc, ih]

end

/-! ## Line ends that are left as they are -/

/-- Whether a text, after the character `last`, has no line end after a carriage return, none at its
end, and no empty lines unless nothing is put in front of lines. -/
def TidyFrom (width : Nat) (last : Char) : List Char → Prop
  | [] => last ≠ '\r' ∧ last ≠ '\n'
  | c :: rest => (c = '\n' → last ≠ '\r' ∧ (width = 0 ∨ last ≠ '\n')) ∧ TidyFrom width c rest

/-- A text to which indenting does nothing but put blanks after its line ends. -/
def Tidy (width : Nat) (text : List Char) : Prop :=
  TidyFrom width '\n' text

/-- A text that indenting does not change inside a line, as it has no line ends or no blanks are put
after them. -/
structure Inline (width : Nat) (text : List Char) : Prop where
  line : width = 0 ∨ '\n' ∉ text
  tidy (last : Char) : last ≠ '\r' → last ≠ '\n' → TidyFrom width last text

/-- The characters that are no part of a line end. -/
def isPlain (c : Char) : Bool :=
  c != '\r' && c != '\n'

section

variable {width : Nat} {last : Char} {text text' : List Char}

/-- After a character that is no part of a line end a text is tidy if it is so anywhere. -/
theorem TidyFrom.after {last' : Char} (h : TidyFrom width last text) (hreturn : last' ≠ '\r')
    (hend : last' ≠ '\n') : TidyFrom width last' text := by
  cases text with
  | nil => exact ⟨hreturn, hend⟩
  | cons c text => exact ⟨fun _ => ⟨hreturn, .inr hend⟩, h.2⟩

theorem TidyFrom.append (h : TidyFrom width last text)
    (h' : ∀ last', last' ≠ '\r' → last' ≠ '\n' → TidyFrom width last' text') :
    TidyFrom width last (text ++ text') := by
  induction text generalizing last with
  | nil => exact h' last h.1 h.2
  | cons c text ih => exact ⟨h.1, ih h.2⟩

theorem tidyFrom_of_plain (h : text.all isPlain = true) (hreturn : last ≠ '\r')
    (hend : last ≠ '\n') : TidyFrom width last text := by
  induction text generalizing last with
  | nil => exact ⟨hreturn, hend⟩
  | cons c text ih =>
    rw [List.all_cons, Bool.and_eq_true, isPlain, Bool.and_eq_true, bne_iff_ne, bne_iff_ne] at h
    exact ⟨fun hc => absurd hc h.1.2, ih h.2 h.1.1 h.1.2⟩

theorem inline_of_plain (h : text.all isPlain = true) : Inline width text := by
  refine ⟨.inr fun hmem => ?_, fun last => tidyFrom_of_plain h⟩
  cases List.all_eq_true.1 h _ hmem

theorem Inline.append (h : Inline width text) (h' : Inline width text') :
    Inline width (text ++ text') := by
  refine ⟨?_, fun last hreturn hend => (h.tidy last hreturn hend).append h'.tidy⟩
  rcases h.line with hwidth | hmem
  · exact .inl hwidth
  · rcases h'.line with hwidth | hmem'
    · exact .inl hwidth
    · exact .inr fun hmem'' => (List.mem_append.1 hmem'').elim hmem hmem'

theorem Inline.cons {c : Char} (hc : isPlain c = true) (h : Inline width text) :
    Inline width (c :: text) :=
  @Inline.append width [c] text (inline_of_plain (by rw [List.all_cons, hc]; rfl)) h

theorem Inline.isTidy (h : Inline width text) (hne : text ≠ []) : Tidy width text := by
  cases text with
  | nil => exact absurd rfl hne
  | cons c text =>
    refine ⟨fun hc => ⟨by decide, h.line.imp_right fun hmem => ?_⟩, (h.tidy ' ' nofun nofun).2⟩
    exact absurd (by rw [hc]; exact List.mem_cons_self) hmem

theorem Tidy.append (h : Tidy width text) (h' : Tidy width text') : Tidy width (text ++ text') :=
  TidyFrom.append h fun _ => h'.after

/-- A tidy text from a new line on. -/
theorem Tidy.newLine (h : Tidy width text) (h' : Tidy width text') :
    Tidy width (text ++ '\n' :: text') :=
  TidyFrom.append h fun _ hreturn hend => ⟨fun _ => ⟨hreturn, .inr hend⟩, h'⟩

end

/-! ## Indenting -/

/-- The blanks in front of a line. -/
def blanks (width : Nat) : List Char :=
  List.replicate width ' '

theorem not_mem_blanks (width : Nat) : '\n' ∉ blanks width :=
  fun hmem => absurd (List.eq_of_mem_replicate hmem) (by decide)

/-- A line with the blanks in front of it, unless it is empty. -/
def padLine (pad line : List Char) : List Char :=
  if line.isEmpty then [] else pad ++ line

/-- The lines of a text that goes on in the middle of a line, indented and joined. -/
private def joinLines (pad : List Char) : List (List Char) → List Char
  | [] => []
  | line :: lines => line ++ lines.flatMap fun line => '\n' :: padLine pad line

private theorem joinLines_addToFirst (pad : List Char) (c : Char) (lines : List (List Char)) :
    joinLines pad (addToFirst c lines) = c :: joinLines pad lines := by
  cases lines with
  | nil => rfl
  | cons line lines => rfl

theorem splitLines_cons {c : Char} (hc : c ≠ '\n') {text : List Char}
    (h : c = '\r' → ∀ rest, text ≠ '\n' :: rest) :
    splitLines (c :: text) = addToFirst c (splitLines text) := by
  rw [splitLines]
  · exact fun rest hreturn heq => h hreturn rest heq
  · exact hc

theorem splitLines_lineEnd (text : List Char) :
    splitLines ('\n' :: text) = [] :: splitLines text := by
  rw [splitLines]

/-- The first line of a tidy text is not empty, unless no blanks are put in front of it. -/
private theorem splitLines_of_tidy {width : Nat} {text : List Char} (h : Tidy width text) :
    ∃ line lines, splitLines text = line :: lines ∧ (width = 0 ∨ line ≠ []) := by
  cases text with
  | nil => exact absurd rfl h.2
  | cons c text =>
    by_cases hc : c = '\n'
    · subst hc
      exact ⟨[], splitLines text, splitLines_lineEnd text, (h.1 rfl).2.imp_right (absurd rfl)⟩
    · have hreturn : c = '\r' → ∀ rest, text ≠ '\n' :: rest := by
        rintro rfl rest rfl
        exact absurd rfl (h.2.1 rfl).1
      rw [splitLines_cons hc hreturn]
      cases splitLines text with
      | nil => exact ⟨[c], [], rfl, .inr (List.cons_ne_nil _ _)⟩
      | cons line lines => exact ⟨c :: line, lines, rfl, .inr (List.cons_ne_nil _ _)⟩

private theorem padLine_of_tidy {width : Nat} {line : List Char} (h : width = 0 ∨ line ≠ []) :
    padLine (blanks width) line = blanks width ++ line := by
  cases line with
  | nil =>
    rw [h.resolve_right (absurd rfl)]
    rfl
  | cons c line => rfl

private theorem joinLines_splitLines {width : Nat} {last : Char} {text : List Char}
    (h : TidyFrom width last text) :
    joinLines (blanks width) (splitLines text) = deepen (blanks width) text := by
  induction text generalizing last with
  | nil => rfl
  | cons c text ih =>
    by_cases hc : c = '\n'
    · subst hc
      have ih' := ih h.2
      obtain ⟨line, lines, hsplit, hline⟩ := splitLines_of_tidy h.2
      rw [splitLines_lineEnd, hsplit, deepen_lineEnd, ← ih', hsplit, joinLines, joinLines,
        List.flatMap_cons, padLine_of_tidy hline]
      simp
    · have hreturn : c = '\r' → ∀ rest, text ≠ '\n' :: rest := by
        rintro rfl rest rfl
        exact absurd rfl (h.2.1 rfl).1
      rw [splitLines_cons hc hreturn, joinLines_addToFirst, deepen_cons hc, ih h.2]

theorem intercalate_eq_flatMap (line : List Char) (lines : List (List Char)) :
    List.intercalate ['\n'] (line :: lines) = line ++ lines.flatMap fun line => '\n' :: line := by
  induction lines generalizing line with
  | nil => simp
  | cons line' lines ih =>
    rw [List.intercalate_cons_cons, ih line', List.flatMap_cons]
    simp

/-- Indenting puts blanks in front of each line that is not empty. -/
theorem toList_indent_eq_intercalate (width : Nat) (text : String) :
    (indent width text).toList =
      List.intercalate ['\n'] ((splitLines text.toList).map (padLine (blanks width))) := by
  rw [indent, String.toList_intercalate, List.map_map, Text.lines, List.map_map]
  congr 1
  refine List.map_congr_left fun line _ => ?_
  cases line with
  | nil => rfl
  | cons c line => simp [padLine, blanks]

/-- Indenting a tidy text puts blanks in front of it and after its line ends. -/
theorem toList_indent {width : Nat} {text : String} (h : Tidy width text.toList) :
    (indent width text).toList = blanks width ++ deepen (blanks width) text.toList := by
  obtain ⟨line, lines, hsplit, hline⟩ := splitLines_of_tidy h
  rw [toList_indent_eq_intercalate, ← joinLines_splitLines h, hsplit, List.map_cons,
    intercalate_eq_flatMap, padLine_of_tidy hline, joinLines, List.flatMap_map, List.append_assoc]

theorem Tidy.blanks {width : Nat} {text : List Char} (h : Tidy width text) :
    Tidy width (blanks width ++ text) := by
  by_cases hwidth : width = 0
  · subst hwidth
    exact h
  · have hplain : (Text.blanks width).all isPlain = true := by
      rw [List.all_eq_true]
      intro c hmem
      rw [List.eq_of_mem_replicate hmem]
      rfl
    have hne : Text.blanks width ≠ [] := by simpa [Text.blanks] using hwidth
    exact ((inline_of_plain hplain).isTidy hne).append h

theorem TidyFrom.deepen {width : Nat} {last : Char} {text : List Char}
    (h : TidyFrom width last text) : TidyFrom width last (deepen (blanks width) text) := by
  induction text generalizing last with
  | nil => exact h
  | cons c text ih =>
    by_cases hc : c = '\n'
    · subst hc
      rw [deepen_lineEnd]
      exact ⟨h.1, Tidy.blanks (ih h.2)⟩
    · rw [deepen_cons hc]
      exact ⟨h.1, ih h.2⟩

/-- An indented text is tidy again. -/
theorem Tidy.indent {width : Nat} {text : List Char} (h : Tidy width text) :
    Tidy width (Text.blanks width ++ Text.deepen (Text.blanks width) text) :=
  Tidy.blanks (TidyFrom.deepen h)

end Lsl.Text
