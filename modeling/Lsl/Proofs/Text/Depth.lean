import Lsl.Proofs.Text.Indent
/-!
# Depths of lines

A tree is written for some width of an indentation.  The lines of such a text are the same for every
width but for the blanks in front of them, and these are as many as the width times a number that
belongs to the line: its depth.  `Laid` texts are those; joining them and indenting them gives such
texts again.
-/

namespace Lsl.Text

/-- A line without the blanks in front of it, and the number of times that it is indented. -/
structure Line where
  depth : Nat
  chars : List Char
  plain : chars.all isPlain = true

namespace Line

/-- The line for a width of an indentation. Empty lines stay empty. -/
def text (width : Nat) (line : Line) : List Char :=
  padLine (blanks (line.depth * width)) line.chars

/-- A line with another one directly after it. What goes on at the end of an empty line is the start
of that line. -/
def append (line line' : Line) : Line where
  depth := if line.chars.isEmpty then line'.depth else line.depth
  chars := line.chars ++ line'.chars
  plain := by rw [List.all_append, line.plain, line'.plain, Bool.and_self]

/-- A line that is indented once more. -/
def deeper (line : Line) : Line :=
  { line with depth := line.depth + 1 }

/-- The empty line. -/
def empty (depth : Nat) : Line :=
  ⟨depth, [], rfl⟩

variable {width : Nat} {line line' : Line}

theorem text_of_isEmpty (h : line.chars = []) : line.text width = [] := by
  rw [text, padLine, h]
  rfl

theorem text_of_ne_nil (h : line.chars ≠ []) :
    line.text width = blanks (line.depth * width) ++ line.chars := by
  rw [text, padLine, if_neg (by simpa using h)]

theorem text_of_flush (h : line.depth = 0) : line.text width = line.chars := by
  by_cases hchars : line.chars = []
  · rw [text_of_isEmpty hchars, hchars]
  · rw [text_of_ne_nil hchars, h, Nat.zero_mul]
    rfl

theorem text_zero (line : Line) : line.text 0 = line.chars := by
  by_cases hchars : line.chars = []
  · rw [text_of_isEmpty hchars, hchars]
  · rw [text_of_ne_nil hchars, Nat.mul_zero]
    rfl

theorem text_append (h : line'.depth = 0) :
    (line.append line').text width = line.text width ++ line'.text width := by
  rw [text_of_flush h]
  by_cases hchars : line.chars = []
  · rw [text_of_isEmpty hchars, text_of_flush (by simp [append, hchars, h])]
    simp [append, hchars]
  · rw [text_of_ne_nil hchars, text_of_ne_nil (by simp [append, hchars])]
    simp [append, hchars]

theorem text_deeper : (deeper line).text width = padLine (blanks width) (line.text width) := by
  by_cases hchars : line.chars = []
  · rw [text_of_isEmpty hchars, @text_of_isEmpty width line.deeper hchars]
    rfl
  · have hne : line.text width ≠ [] := by
      rw [text_of_ne_nil hchars]
      exact List.append_ne_nil_of_right_ne_nil _ hchars
    rw [padLine, if_neg (by simpa using hne), text_of_ne_nil hchars,
      @text_of_ne_nil width line.deeper hchars, ← List.append_assoc, blanks, blanks, blanks,
      List.replicate_append_replicate, Nat.add_comm width, ← Nat.succ_mul]
    rfl

theorem plain_text : (line.text width).all isPlain = true := by
  by_cases hchars : line.chars = []
  · rw [text_of_isEmpty hchars]
    rfl
  · rw [text_of_ne_nil hchars, List.all_append, line.plain, Bool.and_true, List.all_eq_true]
    intro c hmem
    rw [List.eq_of_mem_replicate hmem]
    rfl

end Line

/-- Lines, each from a new line on. -/
def joined (width : Nat) (first : Line) (later : List Line) : List Char :=
  first.text width ++ later.flatMap fun line => '\n' :: line.text width

/-- Whether the text for each width has the same lines, the first of them at this depth. -/
def Laid (depth : Nat) (text : Nat → String) : Prop :=
  ∃ first later, first.depth = depth ∧ ∀ width, (text width).toList = joined width first later

section

variable {width : Nat}

theorem joined_cons (first next : Line) (later : List Line) :
    joined width first (next :: later) = first.text width ++ '\n' :: joined width next later := by
  rw [joined, joined, List.flatMap_cons, List.cons_append]

theorem joined_newLine (first first' : Line) (later later' : List Line) :
    joined width first later ++ '\n' :: joined width first' later' =
      joined width first (later ++ first' :: later') := by
  simp [joined]

/-- The last line of the one and the first of the other become one line. -/
theorem exists_joined_append (first : Line) (later : List Line) {first' : Line}
    (h : first'.depth = 0) (later' : List Line) :
    ∃ first'' later'', (first.depth = 0 → first''.depth = 0) ∧ ∀ width,
      joined width first later ++ joined width first' later' = joined width first'' later'' := by
  induction later generalizing first with
  | nil =>
    refine ⟨first.append first', later', fun hfirst => ?_, fun width => ?_⟩
    · rw [Line.append]
      dsimp only
      split
      · exact h
      · exact hfirst
    · rw [joined, joined, joined, Line.text_append h]
      simp
  | cons next later ih =>
    obtain ⟨next', later'', -, hjoined⟩ := ih next
    refine ⟨first, next' :: later'', id, fun width => ?_⟩
    rw [joined_cons, joined_cons, ← hjoined]
    simp

end

/-! ## Texts that are joined -/

section

variable {depth : Nat} {text text' : Nat → String}

theorem Laid.of_eq (h : Laid depth text) (heq : ∀ width, text' width = text width) :
    Laid depth text' := by
  rwa [show text' = text from funext heq]

theorem laid_empty : Laid depth fun _ => "" :=
  ⟨.empty depth, [], rfl, fun _ => by simp [joined, Line.text_of_isEmpty, Line.empty]⟩

/-- A text without carriage returns that is the same for every width. -/
theorem laid_const {text : String} (h : '\r' ∉ text.toList) : Laid 0 fun _ => text := by
  suffices ∀ chars : List Char, '\r' ∉ chars → ∃ first later, first.depth = 0 ∧
      ∀ width, chars = joined width first later from this _ h
  clear h
  intro chars h
  induction chars with
  | nil => exact ⟨.empty 0, [], rfl, fun _ => by simp [joined, Line.text_of_isEmpty, Line.empty]⟩
  | cons c chars ih =>
    rw [List.mem_cons, not_or] at h
    obtain ⟨first, later, hfirst, hjoined⟩ := ih h.2
    by_cases hc : c = '\n'
    · subst hc
      refine ⟨.empty 0, first :: later, rfl, fun width => ?_⟩
      rw [joined_cons, ← hjoined, Line.text_of_isEmpty rfl]
      rfl
    · have hplain : [c].all isPlain = true := by simp [isPlain, hc, Ne.symm h.1]
      refine ⟨Line.append ⟨0, [c], hplain⟩ first, later, rfl, fun width => ?_⟩
      rw [joined, Line.text_append hfirst, Line.text_of_flush rfl, List.append_assoc]
      exact congrArg (c :: ·) (hjoined width)

theorem laid_of_plain {text : String} (h : text.toList.all isPlain = true) :
    Laid 0 fun _ => text := by
  refine laid_const fun hmem => ?_
  cases List.all_eq_true.1 h _ hmem

theorem Laid.append (h : Laid 0 text) (h' : Laid 0 text') :
    Laid 0 fun width => text width ++ text' width := by
  obtain ⟨first, later, hfirst, hjoined⟩ := h
  obtain ⟨first', later', hfirst', hjoined'⟩ := h'
  obtain ⟨first'', later'', hfirst'', happend⟩ := exists_joined_append first later hfirst' later'
  refine ⟨first'', later'', hfirst'' hfirst, fun width => ?_⟩
  rw [String.toList_append, hjoined, hjoined', happend]

/-- A text from a new line on may be indented. -/
theorem Laid.newLine {depth' : Nat} (h : Laid depth text) (h' : Laid depth' text') :
    Laid depth fun width => text width ++ "\n" ++ text' width := by
  obtain ⟨first, later, hfirst, hjoined⟩ := h
  obtain ⟨first', later', -, hjoined'⟩ := h'
  refine ⟨first, later ++ first' :: later', hfirst, fun width => ?_⟩
  rw [← joined_newLine, ← hjoined, ← hjoined']
  simp

theorem Laid.getD {α : Type} {f : Nat → α → String} {a? : Option α} {other : String}
    (h : ∀ a ∈ a?, Laid 0 fun width => f width a) (hother : '\r' ∉ other.toList) :
    Laid 0 fun width => (a?.map (f width)).getD other := by
  cases a? with
  | none => exact laid_const hother
  | some a => exact h a rfl

theorem Laid.intercalate {α : Type} {f : Nat → α → String} {separator : String} {as : List α}
    (h : ∀ a ∈ as, Laid 0 fun width => f width a) (hseparator : '\r' ∉ separator.toList) :
    Laid 0 fun width => String.intercalate separator (as.map (f width)) := by
  induction as with
  | nil => exact laid_empty
  | cons a as ih =>
    rw [List.forall_mem_cons] at h
    cases as with
    | nil => exact h.1.of_eq fun width => by simp
    | cons a' as =>
      refine ((h.1.append (laid_const hseparator)).append (ih h.2)).of_eq fun width => ?_
      simp [String.intercalate_cons_cons]

/-- Texts at one depth, each from a new line on. -/
theorem Laid.lines {α : Type} {f : Nat → α → String} {as : List α}
    (h : ∀ a ∈ as, Laid depth fun width => f width a) :
    Laid depth fun width => String.intercalate "\n" (as.map (f width)) := by
  induction as with
  | nil => exact laid_empty
  | cons a as ih =>
    rw [List.forall_mem_cons] at h
    cases as with
    | nil => exact h.1.of_eq fun width => by simp
    | cons a' as =>
      refine (h.1.newLine (ih h.2)).of_eq fun width => ?_
      simp [String.intercalate_cons_cons]

end

/-! ## Texts that are indented -/

/-- The lines that a text is indented in: its lines but for an empty one at its end. -/
def keptLines (first : Line) : List Line → List Line
  | [] => if first.chars.isEmpty then [] else [first]
  | next :: later => first :: keptLines next later

theorem splitLines_plain_lineEnd {line : List Char} (h : line.all isPlain = true)
    (rest : List Char) : splitLines (line ++ '\n' :: rest) = line :: splitLines rest := by
  induction line with
  | nil => exact splitLines_lineEnd rest
  | cons c line ih =>
    rw [List.all_cons, Bool.and_eq_true, isPlain, Bool.and_eq_true, bne_iff_ne, bne_iff_ne] at h
    rw [List.cons_append, splitLines_cons h.1.2 (absurd · h.1.1), ih h.2]
    rfl

theorem splitLines_plain {line : List Char} (h : line.all isPlain = true) :
    splitLines line = if line.isEmpty then [] else [line] := by
  induction line with
  | nil => rfl
  | cons c line ih =>
    rw [List.all_cons, Bool.and_eq_true, isPlain, Bool.and_eq_true, bne_iff_ne, bne_iff_ne] at h
    rw [splitLines_cons h.1.2 (absurd · h.1.1), ih h.2]
    cases line <;> rfl

theorem splitLines_joined (width : Nat) (first : Line) (later : List Line) :
    splitLines (joined width first later) = (keptLines first later).map (Line.text width) := by
  induction later generalizing first with
  | nil =>
    rw [joined, List.flatMap_nil, List.append_nil, splitLines_plain Line.plain_text, keptLines]
    by_cases hchars : first.chars = []
    · rw [Line.text_of_isEmpty hchars, hchars]
      rfl
    · have hne : first.text width ≠ [] := by
        rw [Line.text_of_ne_nil hchars]
        exact List.append_ne_nil_of_right_ne_nil _ hchars
      rw [if_neg (by simpa using hne), if_neg (by simpa using hchars)]
      rfl
  | cons next later ih =>
    rw [joined_cons, splitLines_plain_lineEnd Line.plain_text, ih, keptLines, List.map_cons]

theorem Laid.indent {text : Nat → String} (h : Laid 0 text) :
    Laid 1 fun width => Text.indent width (text width) := by
  obtain ⟨first, later, hfirst, hjoined⟩ := h
  have hindent (width : Nat) : (Text.indent width (text width)).toList =
      List.intercalate ['\n'] (((keptLines first later).map Line.deeper).map (Line.text width)) := by
    rw [toList_indent_eq_intercalate, hjoined, splitLines_joined, List.map_map, List.map_map]
    congr 1
    exact List.map_congr_left fun line _ => Line.text_deeper.symm
  cases hkept : keptLines first later with
  | nil =>
    refine ⟨.empty 1, [], rfl, fun width => ?_⟩
    rw [hindent, hkept, joined, Line.text_of_isEmpty rfl]
    rfl
  | cons line lines =>
    refine ⟨line.deeper, lines.map Line.deeper, ?_, fun width => ?_⟩
    · have hline : line = first := by
        cases later with
        | nil =>
          rw [keptLines] at hkept
          split at hkept <;> cases hkept
          rfl
        | cons => cases hkept; rfl
      rw [hline, Line.deeper, hfirst]
    · rw [hindent, hkept, List.map_cons, List.map_cons, intercalate_eq_flatMap, joined,
        List.flatMap_map]

/-! ## What is the same for every width -/

section

variable {text : Nat → String}

theorem Laid.head?_eq (h : Laid 0 text) :
    ∃ head?, ∀ width, (text width).toList.head? = head? := by
  obtain ⟨first, later, hfirst, hjoined⟩ := h
  refine ⟨(text 0).toList.head?, fun width => ?_⟩
  rw [hjoined, hjoined, joined, joined, Line.text_of_flush hfirst, Line.text_of_flush hfirst]
  cases first.chars with
  | cons => rfl
  | nil => cases later <;> rfl

/-- A text that is one line at no depth is so for all widths or for none. -/
theorem Laid.eq_or_ne (h : Laid 0 text) {line : String} (hline : line.toList.all isPlain = true) :
    (∀ width, text width = line) ∨ ∀ width, text width ≠ line := by
  obtain ⟨first, later, hfirst, hjoined⟩ := h
  cases later with
  | nil =>
    have hchars (width : Nat) : (text width).toList = first.chars := by
      rw [hjoined, joined, Line.text_of_flush hfirst]
      exact List.append_nil _
    by_cases heq : first.chars = line.toList
    · exact .inl fun width => String.toList_inj.1 ((hchars width).trans heq)
    · exact .inr fun width htext => heq (by rw [← hchars width, htext])
  | cons next later =>
    refine .inr fun width htext => ?_
    have hmem : '\n' ∈ line.toList := by
      rw [← htext, hjoined, joined_cons]
      simp
    cases List.all_eq_true.1 hline _ hmem

end

/-! ## Depths -/

theorem splitOn_joined (width : Nat) (first : Line) (later : List Line) :
    (joined width first later).splitOn '\n' = (first :: later).map (Line.text width) := by
  rw [joined, ← List.flatMap_map, ← intercalate_eq_flatMap, ← List.map_cons]
  refine List.splitOn_intercalate _ ?_ (by simp)
  intro chars hmem hlineEnd
  obtain ⟨line, -, rfl⟩ := List.mem_map.1 hmem
  cases List.all_eq_true.1 Line.plain_text _ hlineEnd

/-- Each line of a laid text has its depth, whatever the width. -/
theorem Laid.exists_depths {depth : Nat} {text : Nat → String} (h : Laid depth text) :
    ∃ depths : List Nat, depths.length = ((text 0).toList.splitOn '\n').length ∧ ∀ width,
      (text width).toList.splitOn '\n' =
        List.zipWith (fun depth => padLine (blanks (depth * width))) depths
          ((text 0).toList.splitOn '\n') := by
  obtain ⟨first, later, -, hjoined⟩ := h
  refine ⟨(first :: later).map Line.depth, ?_, fun width => ?_⟩
  · rw [hjoined, splitOn_joined, List.length_map, List.length_map]
  · rw [hjoined, hjoined, splitOn_joined, splitOn_joined, List.zipWith_map, List.zipWith_self]
    refine List.map_congr_left fun line _ => ?_
    rw [Line.text_zero, Line.text]

end Lsl.Text
