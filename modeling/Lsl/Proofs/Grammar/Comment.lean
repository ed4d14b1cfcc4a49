import Lsl.Proofs.Grammar.Reading
/-!
# Gaps as a function

What the grammar skips between two parts is a function of the text: blanks and comments, one after
the other, as far as they go.  A comment that is not closed is no comment, and stays.
-/

namespace Lsl.Rule

open Peg Pattern Lexeme

/-! ## Comments -/

/-- The rest of a block comment after its opening, up to the first closing. -/
def takeBlockTail? : List Char → Option (List Char)
  | '*' :: '/' :: _ => some ['*', '/']
  | c :: rest => (takeBlockTail? rest).map (c :: ·)
  | [] => none

/-- The comment at the head of a text. -/
def takeComment? : List Char → Option (List Char)
  | '/' :: '/' :: rest => some ('/' :: '/' :: rest.takeWhile (· != '\n'))
  | '/' :: '*' :: rest => (takeBlockTail? rest).map ('/' :: '*' :: ·)
  | _ => none

/-- The characters of a block comment before its closing. -/
private def takeBlockBody : List Char → List Char
  | '*' :: '/' :: _ => []
  | c :: rest => c :: takeBlockBody rest
  | [] => []

private theorem scans_lineBody :
    Scans grammar (star (cat [notAhead (word "\n"), one .any]))
      fun text => some (text.takeWhile (· != '\n')) := by
  have hend := Scans.lit (g := grammar) ['\n']
  refine Scans.starOne ((hend.notAhead.seq (Scans.one .any)).congr fun text => ?_)
  cases text with
  | nil => rfl
  | cons c rest =>
    by_cases hc : c = '\n'
    · simp [takeBoth, hc, Option.filter]
    · simp [takeBoth, hc, Ne.symm hc, CharClass.contains, Option.filter]

/-- One character of a block comment, unless its closing comes next. -/
private def takeBlockChar? : List Char → Option (List Char)
  | '*' :: '/' :: _ => none
  | c :: _ => some [c]
  | [] => none

private theorem scans_blockChar :
    Scans grammar (cat [notAhead (word "*/"), one .any]) takeBlockChar? := by
  have hclose := Scans.lit (g := grammar) ['*', '/']
  refine (hclose.notAhead.seq (Scans.one .any)).congr fun text => ?_
  unfold takeBlockChar?
  split
  · simp [takeBoth]
  · next c rest hne =>
    have hpre : ['*', '/'].isPrefixOf (c :: rest) = false := by
      rw [← Bool.not_eq_true, List.isPrefixOf_iff_prefix]
      rintro ⟨tail, heq⟩
      cases heq
      exact hne tail rfl rfl
    simp [takeBoth, hpre, CharClass.contains, Option.filter]
  · rfl

private theorem scans_blockBody :
    Scans grammar (star (cat [notAhead (word "*/"), one .any]))
      fun text => some (takeBlockBody text) := by
  refine scans_blockChar.star ?_ ?_
  · intro text h
    unfold takeBlockChar? at h
    split at h <;> cases h
  · intro text
    fun_cases takeBlockChar? text with
    | case1 rest => rfl
    | case2 c rest hne =>
      rw [takeBlockBody]
      · rfl
      · exact hne
    | case3 => rfl

private theorem takeBoth_blockBody (text : List Char) :
    takeBoth (fun text => some (takeBlockBody text))
      (fun text => if ['*', '/'].isPrefixOf text then some ['*', '/'] else none) text =
    takeBlockTail? text := by
  fun_induction takeBlockTail? text with
  | case1 rest => simp [takeBoth, takeBlockBody]
  | case2 c rest hne ih =>
    have hbody : takeBlockBody (c :: rest) = c :: takeBlockBody rest := by
      rw [takeBlockBody]
      exact hne
    rw [← ih]
    simp only [takeBoth, Option.bind_some, hbody, List.length_cons, List.drop_succ_cons]
    split <;> rfl
  | case3 => rfl

/-- What is taken after two given characters. -/
private theorem takeBoth_pair (c d : Char) (f : List Char → Option (List Char)) (text : List Char) :
    takeBoth (fun text => if [c, d].isPrefixOf text then some [c, d] else none) f text =
      match text with
      | x :: y :: rest => if x = c ∧ y = d then (f rest).map (c :: d :: ·) else none
      | _ => none := by
  match text with
  | [] => rfl
  | [x] => simp [takeBoth, List.isPrefixOf]
  | x :: y :: rest =>
    by_cases h : x = c ∧ y = d
    · simp [takeBoth, h]
    · have hpre : [c, d].isPrefixOf (x :: y :: rest) = false := by
        simp only [List.isPrefixOf, Bool.and_true, Bool.and_eq_false_iff, beq_eq_false_iff_ne]
        rcases not_and_or.1 h with hx | hy
        · exact .inl (Ne.symm hx)
        · exact .inr (Ne.symm hy)
      simp [takeBoth, hpre, h]

theorem scans_comment : Scans grammar (.rule .comment) takeComment? := by
  have hslash := Scans.lit (g := grammar) ['/', '/']
  have hopen := Scans.lit (g := grammar) ['/', '*']
  have hclose := Scans.lit (g := grammar) ['*', '/']
  refine Scans.rule (((hslash.seq scans_lineBody).alt
    (hopen.seq (scans_blockBody.seq hclose))).congr fun text => ?_)
  rw [takeBoth_pair, takeBoth_pair]
  simp only [takeBoth_blockBody]
  fun_cases takeComment? text with
  | case1 rest => simp
  | case2 rest => simp
  | case3 text hline hblock =>
    match text with
    | [] => rfl
    | [_] => rfl
    | x :: y :: rest =>
      have hline' : ¬(x = '/' ∧ y = '/') := by
        rintro ⟨rfl, rfl⟩
        exact hline rest rfl
      have hblock' : ¬(x = '/' ∧ y = '*') := by
        rintro ⟨rfl, rfl⟩
        exact hblock rest rfl
      simp [hline', hblock']

/-! ## Gaps -/

/-- The blank or the comment at the head of a text. -/
def takePiece? (text : List Char) : Option (List Char) :=
  ((text.head?.filter isBlank).map ([·])).or (takeComment? text)

theorem scans_piece : Scans grammar (.alt (.rule .whitespace) (.rule .comment)) takePiece? :=
  scans_whitespace.alt scans_comment

theorem takeComment?_ne_nil (text : List Char) : takeComment? text ≠ some [] := by
  fun_cases takeComment? text <;> simp

theorem takePiece?_ne_nil (text : List Char) : takePiece? text ≠ some [] := by
  intro h
  rcases Option.or_eq_some_iff.1 h with hblank | ⟨-, hcomment⟩
  · obtain ⟨x, -, hx⟩ := Option.map_eq_some_iff.1 hblank
    cases hx
  · exact takeComment?_ne_nil text hcomment

theorem length_drop_piece {text piece : List Char} (h : takePiece? text = some piece) :
    (text.drop piece.length).length < text.length := by
  obtain ⟨rest, rfl⟩ := scans_piece.taken h
  have hpos : 0 < piece.length := by
    rw [List.length_pos_iff]
    rintro rfl
    exact takePiece?_ne_nil _ h
  rw [List.drop_left, List.length_append]
  omega

/-- What a gap takes from the head of a text. -/
def takeGap (text : List Char) : List Char :=
  match _h : takePiece? text with
  | some piece => piece ++ takeGap (text.drop piece.length)
  | none => []
termination_by text.length
decreasing_by exact length_drop_piece _h

/-- What comes after the gap at the head of a text. -/
def afterGap (text : List Char) : List Char :=
  text.drop (takeGap text).length

theorem takeGap_of_some {text piece : List Char} (h : takePiece? text = some piece) :
    takeGap text = piece ++ takeGap (text.drop piece.length) := by
  rw [takeGap]
  split
  · next h' =>
    cases h.symm.trans h'
    rfl
  · next h' => cases h.symm.trans h'

theorem takeGap_of_none {text : List Char} (h : takePiece? text = none) : takeGap text = [] := by
  rw [takeGap]
  split
  · next h' => cases h.symm.trans h'
  · rfl

theorem takePiece?_blank {c : Char} (h : isBlank c = true) (rest : List Char) :
    takePiece? (c :: rest) = some [c] := by
  simp [takePiece?, Option.filter, h]

theorem takePiece?_of_stops {text : List Char} (h : Stops isBlank text) :
    takePiece? text = takeComment? text := by
  cases text with
  | nil => rfl
  | cons c rest => simp [takePiece?, Option.filter, stops_cons.1 h]

theorem stops_dropWhile (accepts : Char → Bool) (text : List Char) :
    Stops accepts (text.dropWhile accepts) := by
  intro x hx
  have := List.head?_dropWhile_not accepts text
  rw [hx] at this
  simpa using this

/-- What a gap is made of: blanks, comments up to the end of a line and comments that are closed. -/
theorem piece_cases {text piece : List Char} (h : takePiece? text = some piece) :
    (∃ c rest, isBlank c = true ∧ text = c :: rest ∧ piece = [c]) ∨
    (∃ body rest, body.all (· != '\n') = true ∧ Stops (· != '\n') rest ∧
      text = '/' :: '/' :: (body ++ rest) ∧ piece = '/' :: '/' :: body) ∨
    (∃ taken rest, takeBlockTail? (taken ++ rest) = some taken ∧
      text = '/' :: '*' :: (taken ++ rest) ∧ piece = '/' :: '*' :: taken) := by
  rcases Option.or_eq_some_iff.1 h with hblank | ⟨-, hcomment⟩
  · obtain ⟨c, hfilter, rfl⟩ := Option.map_eq_some_iff.1 hblank
    obtain ⟨hhead, hc⟩ := Option.filter_eq_some_iff.1 hfilter
    obtain ⟨rest, rfl⟩ := List.head?_eq_some_iff.1 hhead
    exact .inl ⟨c, rest, hc, rfl, rfl⟩
  · obtain ⟨rest, htext⟩ := scans_comment.taken hcomment
    fun_cases takeComment? text with
    | case1 body =>
      rw [takeComment?] at hcomment
      cases hcomment
      refine .inr (.inl ⟨_, _, List.all_takeWhile, stops_dropWhile _ body, ?_, rfl⟩)
      rw [List.takeWhile_append_dropWhile]
    | case2 body =>
      rw [takeComment?] at hcomment
      obtain ⟨taken, htaken, rfl⟩ := Option.map_eq_some_iff.1 hcomment
      have hbody : body = taken ++ rest := by simpa using htext
      subst hbody
      exact .inr (.inr ⟨taken, rest, htaken, rfl, rfl⟩)
    | case3 =>
      rw [takeComment?] at hcomment
      · cases hcomment
      all_goals assumption

theorem takeGap_blank {c : Char} (h : isBlank c = true) (rest : List Char) :
    takeGap (c :: rest) = c :: takeGap rest :=
  takeGap_of_some (takePiece?_blank h rest)

theorem takeGap_blanks (text : List Char) :
    takeGap text = text.takeWhile isBlank ++ takeGap (text.dropWhile isBlank) := by
  induction text with
  | nil => simp
  | cons c rest ih =>
    cases hc : isBlank c with
    | true => simp [takeGap_blank hc, hc, ← ih]
    | false => simp [hc]

/-- What comments take, each with the blanks after it, where no blank comes first. -/
private def takeComments : List Char → List Char
  | [] => []
  | c :: rest => if isBlank c then [] else takeGap (c :: rest)

private theorem takeComments_of_stops {text : List Char} (h : Stops isBlank text) :
    takeComments text = takeGap text := by
  cases text with
  | nil => exact (takeGap_of_none rfl).symm
  | cons c rest => rw [takeComments, if_neg (by rw [stops_cons.1 h]; exact Bool.false_ne_true)]

private theorem scans_comments :
    Scans grammar (star (cat [.rule .comment, star (.rule .whitespace)]))
      fun text => some (takeComments text) := by
  refine (scans_comment.seq scans_whitespace.starOne).star ?_ ?_
  · intro text h
    obtain ⟨comment, hcomment, heq⟩ := Option.bind_eq_some_iff.1 h
    rw [Option.map_some, Option.some.injEq, List.append_eq_nil_iff] at heq
    rw [heq.1] at hcomment
    exact takeComment?_ne_nil text hcomment
  · intro text
    by_cases hstops : Stops isBlank text
    · rw [takeComments_of_stops hstops, takeBoth]
      have hpiece := takePiece?_of_stops hstops
      cases hcomment : takeComment? text with
      | none => exact takeGap_of_none (hpiece.trans hcomment)
      | some comment =>
        rw [takeGap_of_some (hpiece.trans hcomment), takeGap_blanks]
        dsimp only [Option.bind_some, Option.map_some]
        rw [List.length_append, ← List.drop_drop, drop_length_takeWhile,
          takeComments_of_stops (stops_dropWhile _ _), List.append_assoc]
    · cases text with
      | nil => exact absurd (Stops.nil _) hstops
      | cons c rest =>
        rw [stops_cons, Bool.not_eq_false] at hstops
        have hnone : takeComment? (c :: rest) = none := by
          simp only [isBlank, Bool.or_eq_true, beq_iff_eq] at hstops
          rcases hstops with ((rfl | rfl) | rfl) | rfl <;> rfl
        simp [takeComments, hstops, takeBoth, hnone]

theorem scans_gap : Scans grammar grammar.gap fun text => some (takeGap text) := by
  refine (scans_whitespace.starOne.seq scans_comments).congr fun text => ?_
  rw [takeBoth, Option.bind_some, drop_length_takeWhile, Option.map_some,
    takeComments_of_stops (stops_dropWhile _ _), ← takeGap_blanks]

theorem gapTo_afterGap (text : List Char) : GapTo text (afterGap text) := by
  intro k stack
  exact ⟨_, _, scans_gap.derives_some (c := ⟨k, text, stack⟩) rfl⟩

theorem GapTo.eq_afterGap {text rest : List Char} (h : GapTo text rest) : rest = afterGap text := by
  obtain ⟨_, hskips⟩ := h 0 []
  exact ((gapTo_afterGap text).unique hskips).2

theorem gapTo_iff {text rest : List Char} : GapTo text rest ↔ rest = afterGap text := by
  refine ⟨GapTo.eq_afterGap, ?_⟩
  rintro rfl
  exact gapTo_afterGap text

/-! ## Where a gap ends -/

theorem afterGap_of_some {text piece : List Char} (h : takePiece? text = some piece) :
    afterGap text = afterGap (text.drop piece.length) := by
  rw [afterGap, takeGap_of_some h, List.length_append, ← List.drop_drop]
  rfl

theorem afterGap_of_none {text : List Char} (h : takePiece? text = none) : afterGap text = text := by
  rw [afterGap, takeGap_of_none h]
  rfl

theorem afterGap_blank {c : Char} (h : isBlank c = true) (rest : List Char) :
    afterGap (c :: rest) = afterGap rest :=
  afterGap_of_some (takePiece?_blank h rest)

theorem afterGap_blanks {blanks : List Char} (h : blanks.all isBlank = true) (rest : List Char) :
    afterGap (blanks ++ rest) = afterGap rest := by
  induction blanks with
  | nil => rfl
  | cons c blanks ih =>
    rw [List.all_cons, Bool.and_eq_true] at h
    rw [List.cons_append, afterGap_blank h.1, ih h.2]

/-- A comment up to the end of a line is skipped. -/
theorem afterGap_line {body rest : List Char} (hbody : body.all (· != '\n') = true)
    (hrest : Stops (· != '\n') rest) : afterGap ('/' :: '/' :: (body ++ rest)) = afterGap rest := by
  have hpiece : takePiece? ('/' :: '/' :: (body ++ rest)) = some ('/' :: '/' :: body) := by
    rw [takePiece?_of_stops (stops_cons.2 rfl), takeComment?, takeWhile_append hbody hrest]
  have hskip := afterGap_of_some hpiece
  simpa only [List.length_cons, List.drop_succ_cons, List.drop_left] using hskip

/-- A comment that is closed is skipped. -/
theorem afterGap_block {taken rest : List Char}
    (htaken : takeBlockTail? (taken ++ rest) = some taken) :
    afterGap ('/' :: '*' :: (taken ++ rest)) = afterGap rest := by
  have hpiece : takePiece? ('/' :: '*' :: (taken ++ rest)) = some ('/' :: '*' :: taken) := by
    rw [takePiece?_of_stops (stops_cons.2 rfl), takeComment?, htaken]
    rfl
  have hskip := afterGap_of_some hpiece
  simpa only [List.length_cons, List.drop_succ_cons, List.drop_left] using hskip

theorem takeBlockTail?_append {text taken : List Char} (h : takeBlockTail? text = some taken)
    (rest : List Char) : takeBlockTail? (text ++ rest) = some taken := by
  fun_induction takeBlockTail? text generalizing taken with
  | case1 tail =>
    rw [List.cons_append, List.cons_append, takeBlockTail?]
    exact h
  | case2 c tail hclose ih =>
    obtain ⟨taken, htaken, rfl⟩ := Option.map_eq_some_iff.1 h
    rw [List.cons_append, takeBlockTail?, ih htaken]
    · rfl
    · rintro tail' rfl htail
      cases tail with
      | nil => cases htaken
      | cons d tail =>
        cases htail
        exact hclose tail rfl rfl
  | case3 => cases h

/-- A text that is all gap joins the gap of the next line. -/
theorem afterGap_join {text : List Char} (h : afterGap text = []) (rest : List Char) :
    afterGap (text ++ '\n' :: rest) = afterGap rest := by
  induction hn : text.length using Nat.strongRecOn generalizing text with
  | ind n ih =>
    subst hn
    cases hpiece : takePiece? text with
    | none =>
      rw [afterGap_of_none hpiece] at h
      rw [h, List.nil_append, afterGap_blank rfl]
    | some piece =>
      have hlength := length_drop_piece hpiece
      rw [afterGap_of_some hpiece] at h
      rcases piece_cases hpiece with ⟨c, tail, hc, rfl, rfl⟩ |
        ⟨body, tail, hbody, hstops, rfl, rfl⟩ | ⟨taken, tail, htaken, rfl, rfl⟩
      · rw [List.cons_append, afterGap_blank hc]
        exact ih _ hlength h rfl
      · simp only [List.length_cons, List.drop_succ_cons, List.drop_left] at h hlength
        have hstops' : Stops (· != '\n') (tail ++ '\n' :: rest) := by
          cases tail with
          | nil => exact stops_cons.2 rfl
          | cons d tail =>
            have hd := stops_cons.1 hstops
            exact stops_cons.2 hd
        rw [List.cons_append, List.cons_append, List.append_assoc, afterGap_line hbody hstops']
        exact ih _ hlength h rfl
      · simp only [List.length_cons, List.drop_succ_cons, List.drop_left] at h hlength
        have htaken' := takeBlockTail?_append htaken ('\n' :: rest)
        rw [List.append_assoc] at htaken'
        rw [List.cons_append, List.cons_append, List.append_assoc, afterGap_block htaken']
        exact ih _ hlength h rfl

end Lsl.Rule
