import Lsl.Proofs.Grammar.First
import Lsl.Proofs.Peg.Scan
/-!
# The lexical rules

What the atomic rules of the grammar take from the head of a text: keywords and names the longest
run of name characters, numbers and strings the longest text of their form.
-/

namespace Lsl.Rule

open Peg Pattern Lexeme

/-! ## Names and keywords -/

theorem scans_identChar :
    Scans grammar (.rule .identChar) fun text => (text.head?.filter isNameChar).map ([·]) := by
  refine Scans.rule (((Scans.one .alphanumeric).alt (Scans.lit ['_'])).congr fun text => ?_)
  cases text with
  | nil => rfl
  | cons c rest =>
    cases hc : c.isAlphanum with
    | true => simp [CharClass.contains, isNameChar, hc, Option.filter]
    | false =>
      by_cases h : c = '_'
      · simp [CharClass.contains, isNameChar, h, Option.filter]
      · simp [CharClass.contains, isNameChar, hc, h, Option.filter, Ne.symm h]

theorem scans_nameStart :
    Scans grammar nameStart fun text => (text.head?.filter isNameStart).map ([·]) := by
  refine ((Scans.one .alpha).alt (Scans.lit ['_'])).congr fun text => ?_
  cases text with
  | nil => rfl
  | cons c rest =>
    cases hc : c.isAlpha with
    | true => simp [CharClass.contains, isNameStart, hc, Option.filter]
    | false =>
      by_cases h : c = '_'
      · simp [CharClass.contains, isNameStart, h, Option.filter]
      · simp [CharClass.contains, isNameStart, hc, h, Option.filter, Ne.symm h]

/-- Texts of name characters of which none is the head of another. -/
def separate (texts : List String) : Bool :=
  texts.all fun text => text.toList.all isNameChar &&
    texts.all fun other => !text.toList.isPrefixOf other.toList || text.toList == other.toList

/-- A choice of separate texts, with no name character after it, takes the longest run of name
characters if it is one of them. -/
theorem scans_words (texts : List String) (htexts : separate texts = true) :
    Scans grammar (cat [words texts, notAhead (.rule .identChar)]) fun text =>
      let word := text.takeWhile isNameChar
      if (texts.map String.toList).contains word then some word else none := by
  refine ((Scans.words texts).seq scans_identChar.notAhead).congr fun text => ?_
  dsimp only [takeBoth]
  have chars {x : String} (hx : x ∈ texts) : x.toList.all isNameChar = true :=
    (Bool.and_eq_true_iff.1 (List.all_eq_true.1 htexts x hx)).1
  -- A text of the choice at the head of `text` is at the head of its run of name characters.
  have within {x : String} (hx : x ∈ texts) (hp : x.toList.isPrefixOf text = true) :
      ∃ rest, text = x.toList ++ rest ∧
        text.takeWhile isNameChar = x.toList ++ rest.takeWhile isNameChar := by
    obtain ⟨rest, rfl⟩ := List.isPrefixOf_iff_prefix.1 hp
    refine ⟨rest, rfl, List.takeWhile_append_of_pos fun c hc => ?_⟩
    exact List.all_eq_true.1 (chars hx) c hc
  cases hfind : texts.find? fun x => x.toList.isPrefixOf text with
  | none =>
    have hnone : (texts.map String.toList).contains (text.takeWhile isNameChar) = false := by
      rw [Bool.eq_false_iff, ne_eq, List.contains_iff_mem, List.mem_map]
      rintro ⟨x, hx, hword⟩
      refine List.find?_eq_none.1 hfind x hx ?_
      rw [hword]
      exact List.isPrefixOf_iff_prefix.2 (List.takeWhile_prefix _)
    simp only [hnone, Option.map_none, Option.bind_none, Bool.false_eq_true, if_false]
  | some x =>
    have hx := List.mem_of_find?_eq_some hfind
    obtain ⟨rest, htext, hword⟩ := within hx (by simpa using List.find?_some hfind)
    have hdrop : text.drop x.toList.length = rest := by rw [htext, List.drop_left]
    simp only [Option.map_some, Option.bind_some, hdrop]
    cases hrest : rest.takeWhile isNameChar with
    | nil =>
      have hmem : (texts.map String.toList).contains (text.takeWhile isNameChar) = true := by
        rw [List.contains_iff_mem, hword, hrest, List.append_nil]
        exact List.mem_map_of_mem hx
      have hhead : rest.head?.filter isNameChar = none := by
        cases rest with
        | nil => rfl
        | cons c rest =>
          rw [List.takeWhile_cons] at hrest
          split at hrest
          · cases hrest
          · next hc => simp [Option.filter, hc]
      simp only [hmem, hhead, if_true]
      simp [hword, hrest]
    | cons c more =>
      have hmem : (texts.map String.toList).contains (text.takeWhile isNameChar) = false := by
        rw [Bool.eq_false_iff, ne_eq, List.contains_iff_mem, List.mem_map]
        rintro ⟨y, hy, hyword⟩
        have hsep := (Bool.and_eq_true_iff.1 (List.all_eq_true.1 htexts x hx)).2
        have hpair := List.all_eq_true.1 hsep y hy
        have hstart : x.toList.isPrefixOf y.toList = true := by
          rw [hyword, hword]
          exact List.isPrefixOf_iff_prefix.2 (List.prefix_append _ _)
        have heq : x.toList = y.toList := by simpa [hstart] using hpair
        rw [heq, ← hyword, hword, hrest] at hword
        have := congrArg List.length hword
        simp [hyword] at this
      have hhead : (rest.head?.filter isNameChar).isSome = true := by
        cases rest with
        | nil => cases hrest
        | cons d rest =>
          rw [List.takeWhile_cons] at hrest
          split at hrest
          · next hd => simp [Option.filter, hd]
          · cases hrest
      simp only [hmem, Bool.false_eq_true, if_false, Option.isSome_map, hhead, if_true, Option.map_none]

theorem scans_keyword :
    Scans grammar (.rule .keyword) fun text =>
      let word := text.takeWhile isNameChar
      if isKeyword word then some word else none :=
  Scans.rule (scans_words keywords (by decide))

theorem scans_typeName :
    Scans grammar (.rule .typeName) fun text =>
      let word := text.takeWhile isNameChar
      if (typeNames.map String.toList).contains word then some word else none :=
  Scans.rule (scans_words typeNames (by decide))

private theorem takeBoth_word (text : List Char) :
    takeBoth (fun text => (text.head?.filter isNameStart).map ([·]))
      (fun text => some (text.takeWhile isNameChar)) text =
    let word := text.takeWhile isNameChar
    if isWord word then some word else none := by
  unfold takeBoth
  cases text with
  | nil => rfl
  | cons c rest =>
    dsimp only
    rw [isWord_takeWhile]
    cases hc : isNameStart c with
    | true => simp [Option.filter, hc, takeWhile_isNameChar hc]
    | false => simp [Option.filter, hc]

/-- A letter or underscore with all name characters after it. -/
theorem scans_word :
    Scans grammar (cat [nameStart, star (.rule .identChar)]) fun text =>
      let word := text.takeWhile isNameChar
      if isWord word then some word else none :=
  (scans_nameStart.seq scans_identChar.starOne).congr takeBoth_word

private theorem takeBoth_notKeyword (text : List Char) :
    takeBoth (fun text => if (let word := text.takeWhile isNameChar
        if isKeyword word then some word else none).isSome then none else some [])
      (fun text =>
        let word := text.takeWhile isNameChar
        if isWord word then some word else none) text = takeName? text := by
  unfold takeBoth takeName? isName
  cases hword : isWord (text.takeWhile isNameChar) <;>
    cases hkeyword : isKeyword (text.takeWhile isNameChar) <;> simp [hword, hkeyword]

theorem scans_namePattern : Scans grammar namePattern takeName? :=
  (scans_keyword.notAhead.seq scans_word).congr takeBoth_notKeyword

theorem scans_name : Scans grammar (.rule .name) takeName? :=
  .rule scans_namePattern

theorem scans_ident : Scans grammar (.rule .ident) takeName? :=
  .rule scans_namePattern

theorem scans_member : Scans grammar (.rule .member) takeMember? := by
  have htail := (Scans.lit ['.']).seq scans_word
  have hhead := scans_nameStart.seq (scans_identChar.starOne.seq htail)
  -- The pattern spells out the name at its head, so the two are grouped differently.
  rw [← funext (takeBoth_assoc _ _ _), funext takeBoth_word] at hhead
  have hall := scans_keyword.notAhead.seq hhead
  rw [← funext (takeBoth_assoc _ _ _), funext takeBoth_notKeyword] at hall
  refine Scans.rule (hall.congr fun text => ?_)
  unfold takeMember? takeBoth
  cases takeName? text with
  | none => rfl
  | some name =>
    dsimp only [Option.bind_some]
    cases text.drop name.length with
    | nil => rfl
    | cons d tail =>
      by_cases hd : d = '.'
      · cases hw : isWord (tail.takeWhile isNameChar) <;> simp [hd, hw]
      · simp [hd, Ne.symm hd]

theorem scans_operator :
    Scans grammar (.rule .operator) fun text =>
      (operators.find? fun word => word.toList.isPrefixOf text).map String.toList :=
  .rule (.words operators)

/-! ## Numbers -/

theorem scans_digits (cls : CharClass) :
    Scans grammar (plus (one cls)) (takeDigits? cls.contains) := by
  refine ((Scans.one cls).seq (Scans.one cls).starOne).congr fun text => ?_
  cases text with
  | nil => rfl
  | cons c rest => cases hc : cls.contains c <;> simp [takeBoth, takeDigits?, Option.filter, hc]

theorem scans_exponent : Scans grammar (.rule .exponent) takeExponent? := by
  have hsign : Scans grammar (opt (words ["+", "-"])) fun text => some (takeSign text) := by
    refine ((Scans.words ["+", "-"]).alt (Scans.lit [])).congr fun text => ?_
    cases text with
    | nil => rfl
    | cons c rest =>
      by_cases hplus : c = '+'
      · simp [takeSign, hplus]
      · by_cases hminus : c = '-'
        · simp [takeSign, hminus]
        · simp [takeSign, hplus, hminus, Ne.symm hplus, Ne.symm hminus]
  have hletter := Scans.caseless (g := grammar) ['e']
  refine Scans.rule ((hletter.seq (hsign.seq (scans_digits .digit))).congr fun text => ?_)
  cases text with
  | nil => simp [takeBoth, takeExponent?]
  | cons c rest =>
    have hc : c.toLower = 'e' ↔ c = 'e' ∨ c = 'E' := toLower_eq_letter_iff rfl rfl rfl
    by_cases h : c = 'e' ∨ c = 'E'
    · have hdrop : (c :: rest).drop (1 + (takeSign rest).length) =
          rest.drop (takeSign rest).length := by
        rw [Nat.add_comm, List.drop_succ_cons]
      simp [takeBoth, takeExponent?, hc, h, hdrop]
      rfl
    · simp [takeBoth, takeExponent?, hc, h]

private theorem takeBoth_digits (accepts : Char → Bool) (f : List Char → Option (List Char))
    (text : List Char) :
    takeBoth (takeDigits? accepts) f text =
      if (text.takeWhile accepts).isEmpty then none
      else (f (text.dropWhile accepts)).map (text.takeWhile accepts ++ ·) := by
  unfold takeBoth takeDigits?
  cases h : (text.takeWhile accepts).isEmpty <;> simp [h, drop_length_takeWhile]

private theorem takeBoth_lit (c : Char) (f : List Char → Option (List Char)) (text : List Char) :
    takeBoth (fun text => if [c].isPrefixOf text then some [c] else none) f text =
      match text with
      | d :: rest => if d = c then (f rest).map (c :: ·) else none
      | [] => none := by
  cases text with
  | nil => rfl
  | cons d rest =>
    by_cases h : d = c
    · simp [takeBoth, h]
    · simp [takeBoth, h, Ne.symm h]

theorem scans_float : Scans grammar (.rule .float) takeFloat? := by
  have hdigits := scans_digits .digit
  have hdot := Scans.lit (g := grammar) ['.']
  have hexponent : Scans grammar (opt (.rule .exponent)) fun text =>
      some ((takeExponent? text).getD []) := by
    refine (scans_exponent.alt (Scans.lit [])).congr fun text => ?_
    cases takeExponent? text <;> simp
  have hfraction := (Scans.one (g := grammar) .digit).starOne.seq hexponent
  have hfirst := hdigits.seq (hdot.seq hfraction)
  have hsecond := hdot.seq (hdigits.seq hexponent)
  refine Scans.rule ((hfirst.alt (hsecond.alt (hdigits.seq scans_exponent))).congr fun text => ?_)
  have hclass : CharClass.digit.contains = Char.isDigit := rfl
  rw [takeBoth_digits, takeBoth_digits, takeBoth_lit, takeBoth_lit, hclass]
  unfold takeFloat?
  cases hwhole : text.takeWhile Char.isDigit with
  | nil =>
    have htext : text.dropWhile Char.isDigit = text := by
      rw [← drop_length_takeWhile, hwhole, List.length_nil, List.drop_zero]
    rw [htext]
    cases text with
    | nil => rfl
    | cons c rest =>
      by_cases hc : c = '.'
      · have hdigits := takeBoth_digits Char.isDigit
          (fun text => some ((takeExponent? text).getD [])) rest
        cases h : rest.takeWhile Char.isDigit <;> simp [hc, h, hdigits]
      · simp [hc]
  | cons d digits =>
    have hsecond : (match text with
        | c :: rest => if c = '.' then
            (takeBoth (takeDigits? Char.isDigit)
              (fun text => some ((takeExponent? text).getD [])) rest).map ('.' :: ·)
            else none
        | [] => none) = none := by
      cases text with
      | nil => rfl
      | cons c rest =>
        have hc : c.isDigit = true := by
          by_cases hc : c.isDigit = true
          · exact hc
          · simp [hc] at hwhole
        have : c ≠ '.' := by
          rintro rfl
          cases hc
        simp [this]
    rw [hsecond]
    cases hrest : text.dropWhile Char.isDigit with
    | nil => simp [takeExponent?]
    | cons c rest =>
      by_cases hc : c = '.'
      · simp [hc, takeBoth, drop_length_takeWhile]
      · simp [hc]

theorem scans_integer : Scans grammar (.rule .integer) takeInteger? := by
  have hhex := (Scans.caseless (g := grammar) ['0', 'x']).seq (scans_digits .hexDigit)
  refine Scans.rule ((hhex.alt (scans_digits .digit)).congr fun text => ?_)
  have hclass : CharClass.digit.contains = Char.isDigit := rfl
  rw [hclass]
  unfold takeInteger?
  split
  · next x rest =>
    have hx : x.toLower = 'x' ↔ x = 'x' ∨ x = 'X' := toLower_eq_letter_iff rfl rfl rfl
    by_cases hx' : x = 'x' ∨ x = 'X'
    · have hdigit : x.isDigit = false := by rcases hx' with rfl | rfl <;> rfl
      have hzero : takeDigits? Char.isDigit ('0' :: x :: rest) = some ['0'] := by
        simp [takeDigits?, hdigit]
      rw [hzero]
      cases hrest : takeDigits? CharClass.hexDigit.contains rest <;>
        simp [takeBoth, hx, hx', hrest]
    · simp [takeBoth, hx, hx']
  · next hne =>
    -- Neither digit nor letter of the mark `0x` is at its place.
    have hnone : takeBoth (fun text => if (text.take 2).map Char.toLower = ['0', 'x'] then
        some (text.take 2) else none) (takeDigits? CharClass.hexDigit.contains) text = none := by
      rcases text with _ | ⟨c, _ | ⟨x, rest⟩⟩
      · simp [takeBoth]
      · simp [takeBoth]
      · have hc : c.toLower = '0' ↔ c = '0' := toLower_eq_iff_eq rfl
        have : c ≠ '0' := by
          rintro rfl
          exact hne x rest rfl
        simp [takeBoth, hc, this]
    exact (congrArg (Option.or · _) hnone).trans (Option.none_or)

/-! ## Strings -/

/-- One character of a string, with the backslash in front of it. -/
private def takeStringChar? : List Char → Option (List Char)
  | '\\' :: c :: _ => some ['\\', c]
  | c :: _ => if c == '"' then none else some [c]
  | [] => none

/-- The characters of a string before its closing quote. -/
private def takeStringBody : List Char → List Char
  | '\\' :: c :: rest => '\\' :: c :: takeStringBody rest
  | c :: rest => if c == '"' then [] else c :: takeStringBody rest
  | [] => []

private theorem scans_stringChar :
    Scans grammar (oneOf [cat [word "\\", one .any], cat [notAhead (word "\""), one .any]])
      takeStringChar? := by
  have hquote := Scans.lit (g := grammar) ['"']
  have hescaped := (Scans.lit (g := grammar) ['\\']).seq (Scans.one .any)
  refine (hescaped.alt (hquote.notAhead.seq (Scans.one .any))).congr fun text => ?_
  rw [takeBoth_lit]
  cases text with
  | nil => rfl
  | cons c rest =>
    by_cases hc : c = '\\'
    · subst hc
      cases rest <;> simp [takeStringChar?, takeBoth, CharClass.contains, Option.filter]
    · by_cases hq : c = '"'
      · simp [takeStringChar?, takeBoth, hq]
      · simp [takeStringChar?, takeBoth, hc, hq, Ne.symm hq, CharClass.contains, Option.filter]

private theorem scans_stringBody :
    Scans grammar
      (star (oneOf [cat [word "\\", one .any], cat [notAhead (word "\""), one .any]]))
      fun text => some (takeStringBody text) := by
  refine scans_stringChar.star ?_ ?_
  · intro text h
    unfold takeStringChar? at h
    split at h <;> grind
  · intro text
    cases text with
    | nil => rfl
    | cons c rest =>
      by_cases hc : c = '\\'
      · subst hc
        cases rest <;> simp [takeStringChar?, takeStringBody]
      · by_cases hq : c = '"' <;> simp [takeStringChar?, takeStringBody, hc, hq]

private theorem takeBoth_stringBody (text : List Char) :
    takeBoth (fun text => some (takeStringBody text))
      (fun text => if ['"'].isPrefixOf text then some ['"'] else none) text =
    takeStringTail? text := by
  fun_induction takeStringTail? text with
  | case1 c rest ih =>
    rw [← ih]
    simp [takeBoth, takeStringBody]
  | case2 c rest _ hc => simp_all [takeBoth, takeStringBody]
  | case3 c rest hne hc ih =>
    rw [← ih]
    simp_all [takeBoth, takeStringBody]
    rw [← ih]
    split <;> rfl
  | case4 => rfl

theorem scans_string : Scans grammar (.rule .string) takeString? := by
  have hquote := Scans.lit (g := grammar) ['"']
  refine Scans.rule ((hquote.seq (scans_stringBody.seq hquote)).congr fun text => ?_)
  rw [takeBoth_lit]
  cases text with
  | nil => rfl
  | cons c rest =>
    by_cases hc : c = '"'
    · simp only [hc, if_true, takeString?, takeBoth_stringBody]
    · simp [hc, takeString?]

end Lsl.Rule
