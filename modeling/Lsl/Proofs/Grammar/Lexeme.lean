import Lsl.Grammar.Patterns
/-!
# Words of the language

The texts that the lexical rules stand for, said without the grammar: names, numbers, strings and
operators as plain properties of a list of characters.
-/

namespace Lsl.Lexeme

/-! ## Characters in either case -/

theorem isUpper_iff {c : Char} : c.isUpper = true ↔ c.val ≥ 'A'.val ∧ c.val ≤ 'Z'.val :=
  decide_eq_true_iff

theorem isLower_iff {c : Char} : c.isLower = true ↔ c.val ≥ 'a'.val ∧ c.val ≤ 'z'.val :=
  Bool.and_eq_true_iff.trans (and_congr decide_eq_true_iff decide_eq_true_iff)

theorem isAlpha_iff {c : Char} : c.isAlpha = true ↔ c.isUpper = true ∨ c.isLower = true :=
  Bool.or_eq_true_iff

private theorem toLower_eq_iff {c y : Char} (hy : y.isUpper = false) :
    c.toLower = y ↔ c = y ∨ (c.isUpper = true ∧ c.val.toNat + 32 = y.val.toNat) := by
  unfold Char.toLower
  constructor
  · intro h
    split at h
    · next hc =>
      refine .inr ⟨isUpper_iff.2 hc, ?_⟩
      have hval := congrArg (fun c : Char => c.val.toNat) h
      have h₁ := UInt32.le_iff_toNat_le.1 hc.1
      have h₂ := UInt32.le_iff_toNat_le.1 hc.2
      simp only [UInt32.toNat_add] at hval
      simp at hval h₁ h₂ ⊢
      omega
    · exact .inl h
  · rintro (rfl | ⟨hc, hnat⟩)
    · rw [dif_neg]
      intro hc
      cases hy.symm.trans (isUpper_iff.2 hc)
    · have hc' := isUpper_iff.1 hc
      rw [dif_pos hc']
      have h₁ := UInt32.le_iff_toNat_le.1 hc'.1
      have h₂ := UInt32.le_iff_toNat_le.1 hc'.2
      apply Char.ext
      apply UInt32.toNat_inj.1
      simp only [UInt32.toNat_add]
      simp at hnat h₁ h₂ ⊢
      omega

/-- Two characters have a small letter as their lower case form: it and its capital. -/
theorem toLower_eq_letter_iff {c small capital : Char} (hs : small.isUpper = false)
    (hc : capital.isUpper = true) (hval : capital.val.toNat + 32 = small.val.toNat) :
    c.toLower = small ↔ c = small ∨ c = capital := by
  rw [toLower_eq_iff hs]
  refine or_congr_right ⟨fun h => ?_, fun h => ?_⟩
  · apply Char.ext
    apply UInt32.toNat_inj.1
    omega
  · rw [h]
    exact ⟨hc, hval⟩

/-- A character that is not a letter is the lower case form of itself only. -/
theorem toLower_eq_iff_eq {c y : Char} (hy : y.isAlpha = false) : c.toLower = y ↔ c = y := by
  have hy : y.isUpper = false ∧ y.isLower = false := Bool.or_eq_false_iff.1 hy
  rw [toLower_eq_iff hy.1]
  refine or_iff_left ?_
  rintro ⟨h, hval⟩
  have hc := isUpper_iff.1 h
  have h₁ := UInt32.le_iff_toNat_le.1 hc.1
  have h₂ := UInt32.le_iff_toNat_le.1 hc.2
  have hlower : y.isLower = true := by
    rw [isLower_iff]
    refine ⟨UInt32.le_iff_toNat_le.2 ?_, UInt32.le_iff_toNat_le.2 ?_⟩ <;>
      simp at h₁ h₂ hval ⊢ <;> omega
  rw [hy.2] at hlower
  cases hlower

/-! ## Texts of each form -/

/-- The characters that a name starts with. -/
def isNameStart (c : Char) : Bool :=
  c.isAlpha || c == '_'

/-- The characters of a name. -/
def isNameChar (c : Char) : Bool :=
  c.isAlphanum || c == '_'

/-- A letter or underscore with letters, digits and underscores after it. -/
def isWord : List Char → Bool
  | c :: rest => isNameStart c && rest.all isNameChar
  | [] => false

def isKeyword (text : List Char) : Bool :=
  (Rule.keywords.map String.toList).contains text

/-- A word that is not a keyword. -/
def isName (text : List Char) : Bool :=
  isWord text && !isKeyword text

/-- A name, a dot, and a word. -/
def isMember (text : List Char) : Bool :=
  match text.dropWhile isNameChar with
  | '.' :: rest => isName (text.takeWhile isNameChar) && isWord rest
  | _ => false

/-- Decimal digits. -/
def isDigits (text : List Char) : Bool :=
  !text.isEmpty && text.all Char.isDigit

/-- Hexadecimal digits after `0x`. -/
def isHexadecimal : List Char → Bool
  | '0' :: x :: rest =>
    (x == 'x' || x == 'X') && !rest.isEmpty && rest.all Peg.CharClass.hexDigit.contains
  | _ => false

def isInteger (text : List Char) : Bool :=
  isHexadecimal text || isDigits text

/-- The sign at the head of a text, if there is one. -/
def takeSign : List Char → List Char
  | '+' :: _ => ['+']
  | '-' :: _ => ['-']
  | _ => []

/-- The letter `e` with decimal digits after it, which may have a sign. -/
def isExponent : List Char → Bool
  | e :: rest => (e == 'e' || e == 'E') && isDigits (rest.drop (takeSign rest).length)
  | [] => false

/-- Digits around a dot, at one side at least, or digits alone; with an exponent, which only the
first form may lack. -/
def isFloat (text : List Char) : Bool :=
  match text.dropWhile Char.isDigit with
  | '.' :: rest =>
    let exponent := rest.dropWhile Char.isDigit
    (isDigits (text.takeWhile Char.isDigit) || isDigits (rest.takeWhile Char.isDigit)) &&
      (exponent.isEmpty || isExponent exponent)
  | exponent => isDigits (text.takeWhile Char.isDigit) && isExponent exponent

/-- The rest of a string after its opening quote: a backslash protects the character after it, and
the first quote that is not protected ends the string. -/
def isStringTail : List Char → Bool
  | '\\' :: _ :: rest => isStringTail rest
  | c :: rest => if c == '"' then rest.isEmpty else c != '\\' && isStringTail rest
  | [] => false

def isString : List Char → Bool
  | '"' :: rest => isStringTail rest
  | _ => false

/-! ## The longest such text at the head of another -/

def takeName? (text : List Char) : Option (List Char) :=
  let word := text.takeWhile isNameChar
  if isName word then some word else none

def takeMember? (text : List Char) : Option (List Char) :=
  (takeName? text).bind fun name =>
    match text.drop name.length with
    | '.' :: rest =>
      let word := rest.takeWhile isNameChar
      if isWord word then some (name ++ '.' :: word) else none
    | _ => none

def takeDigits? (accepts : Char → Bool) (text : List Char) : Option (List Char) :=
  let digits := text.takeWhile accepts
  if digits.isEmpty then none else some digits

def takeInteger? (text : List Char) : Option (List Char) :=
  match text with
  | '0' :: x :: rest =>
    if x == 'x' || x == 'X' then
      ((takeDigits? Peg.CharClass.hexDigit.contains rest).map ('0' :: x :: ·)).or (some ['0'])
    else takeDigits? Char.isDigit text
  | _ => takeDigits? Char.isDigit text

def takeExponent? : List Char → Option (List Char)
  | e :: rest =>
    if e == 'e' || e == 'E' then
      let sign := takeSign rest
      (takeDigits? Char.isDigit (rest.drop sign.length)).map fun digits => e :: (sign ++ digits)
    else none
  | [] => none

def takeFloat? (text : List Char) : Option (List Char) :=
  let whole := text.takeWhile Char.isDigit
  match text.dropWhile Char.isDigit with
  | '.' :: rest =>
    let fraction := rest.takeWhile Char.isDigit
    if whole.isEmpty && fraction.isEmpty then none
    else
      some (whole ++ '.' :: (fraction ++
        (takeExponent? (rest.dropWhile Char.isDigit)).getD []))
  | rest => if whole.isEmpty then none else (takeExponent? rest).map (whole ++ ·)

def takeStringTail? : List Char → Option (List Char)
  | '\\' :: c :: rest => (takeStringTail? rest).map ('\\' :: c :: ·)
  | c :: rest => if c == '"' then some ['"'] else (takeStringTail? rest).map (c :: ·)
  | [] => none

def takeString? : List Char → Option (List Char)
  | '"' :: rest => (takeStringTail? rest).map ('"' :: ·)
  | _ => none

/-! ## Runs of characters -/

/-- No character of the class comes first. -/
def Stops (accepts : Char → Bool) (rest : List Char) : Prop :=
  ∀ x, rest.head? = some x → accepts x = false

theorem Stops.nil (accepts : Char → Bool) : Stops accepts [] :=
  nofun

theorem stops_cons {accepts : Char → Bool} {x : Char} {rest : List Char} :
    Stops accepts (x :: rest) ↔ accepts x = false := by
  simp [Stops]

theorem Stops.mono {accepts accepts' : Char → Bool} {rest : List Char} (h : Stops accepts rest)
    (himp : ∀ x, accepts' x = true → accepts x = true) : Stops accepts' rest := by
  intro x hx
  have hfalse := h x hx
  rw [← Bool.not_eq_true] at hfalse ⊢
  exact fun htrue => hfalse (himp x htrue)

theorem takeWhile_append {accepts : Char → Bool} {run rest : List Char}
    (hrun : run.all accepts = true) (hrest : Stops accepts rest) :
    (run ++ rest).takeWhile accepts = run := by
  induction run with
  | nil =>
    cases rest with
    | nil => rfl
    | cons x rest => simp [stops_cons.1 hrest]
  | cons c run ih =>
    rw [List.all_cons, Bool.and_eq_true] at hrun
    rw [List.cons_append, List.takeWhile_cons, if_pos hrun.1, ih hrun.2]

theorem drop_length_takeWhile (accepts : Char → Bool) (text : List Char) :
    text.drop (text.takeWhile accepts).length = text.dropWhile accepts := by
  induction text with
  | nil => rfl
  | cons c rest ih => cases hc : accepts c <;> simp [hc, ih]

theorem dropWhile_append {accepts : Char → Bool} {run rest : List Char}
    (hrun : run.all accepts = true) (hrest : Stops accepts rest) :
    (run ++ rest).dropWhile accepts = rest := by
  rw [← drop_length_takeWhile, takeWhile_append hrun hrest, List.drop_left]

theorem isNameChar_of_isNameStart {c : Char} (h : isNameStart c = true) : isNameChar c = true := by
  simp only [isNameStart, isNameChar, Bool.or_eq_true, Char.isAlphanum] at h ⊢
  rcases h with h | h
  · exact .inl (.inl h)
  · exact .inr h

theorem takeWhile_isNameChar {c : Char} {rest : List Char} (hc : isNameStart c = true) :
    (c :: rest).takeWhile isNameChar = c :: rest.takeWhile isNameChar := by
  rw [List.takeWhile_cons, if_pos (isNameChar_of_isNameStart hc)]

theorem isWord_takeWhile (c : Char) (rest : List Char) :
    isWord ((c :: rest).takeWhile isNameChar) = isNameStart c := by
  cases hc : isNameStart c with
  | true =>
    rw [takeWhile_isNameChar hc, isWord, hc, Bool.true_and]
    exact List.all_takeWhile
  | false =>
    rw [List.takeWhile_cons]
    split
    · rw [isWord, hc, Bool.false_and]
    · rfl

/-- A letter or underscore with all name characters after it. -/
theorem all_of_isWord {word : List Char} (h : isWord word = true) : word.all isNameChar = true := by
  cases word with
  | nil => rfl
  | cons c rest =>
    rw [isWord, Bool.and_eq_true] at h
    rw [List.all_cons, isNameChar_of_isNameStart h.1, h.2]
    rfl

/-! ## What is taken has the form -/

theorem takeName?_eq_some {text word : List Char} (h : takeName? text = some word) :
    isName word = true := by
  unfold takeName? at h
  dsimp only at h
  split at h
  · next hname =>
    cases h
    exact hname
  · cases h

theorem isMember_append {name word : List Char} (hname : isName name = true)
    (hword : isWord word = true) : isMember (name ++ '.' :: word) = true := by
  have hrun := all_of_isWord (Bool.and_eq_true_iff.1 hname).1
  have hdot : Stops isNameChar ('.' :: word) := stops_cons.2 rfl
  simp only [isMember, takeWhile_append hrun hdot, dropWhile_append hrun hdot, hname, hword,
    Bool.and_self]

theorem takeMember?_eq_some {text word : List Char} (h : takeMember? text = some word) :
    isMember word = true := by
  obtain ⟨name, hname, h⟩ := Option.bind_eq_some_iff.1 h
  dsimp only at h
  split at h
  · split at h
    · next hword =>
      cases h
      exact isMember_append (takeName?_eq_some hname) hword
    · cases h
  · cases h

theorem takeDigits?_eq_some {accepts : Char → Bool} {text digits : List Char}
    (h : takeDigits? accepts text = some digits) :
    digits.isEmpty = false ∧ digits.all accepts = true := by
  unfold takeDigits? at h
  dsimp only at h
  split at h
  · cases h
  · next hempty =>
    cases h
    exact ⟨Bool.eq_false_iff.2 hempty, List.all_takeWhile⟩

theorem isDigits_of_takeDigits? {text digits : List Char}
    (h : takeDigits? Char.isDigit text = some digits) : isDigits digits = true := by
  obtain ⟨hempty, hall⟩ := takeDigits?_eq_some h
  rw [isDigits, hempty, hall]
  rfl

theorem takeInteger?_eq_some {text digits : List Char} (h : takeInteger? text = some digits) :
    isInteger digits = true := by
  unfold takeInteger? at h
  have decimal {text : List Char} (h : takeDigits? Char.isDigit text = some digits) :
      isInteger digits = true := by
    rw [isInteger, isDigits_of_takeDigits? h, Bool.or_true]
  split at h
  · next x rest =>
    split at h
    · next hx =>
      rcases Option.or_eq_some_iff.1 h with h | ⟨-, h⟩
      · obtain ⟨hex, hhex, rfl⟩ := Option.map_eq_some_iff.1 h
        obtain ⟨hempty, hall⟩ := takeDigits?_eq_some hhex
        simp only [isInteger, isHexadecimal, hx, hempty, hall]
        rfl
      · cases h
        rfl
    · exact decimal h
  · exact decimal h

theorem takeSign_eq (text : List Char) :
    takeSign text = ['+'] ∨ takeSign text = ['-'] ∨ takeSign text = [] := by
  unfold takeSign
  split <;> simp

/-- A sign stays in front of digits, and none comes up there. -/
theorem takeSign_append (text : List Char) {digits : List Char} (h : isDigits digits = true) :
    takeSign (takeSign text ++ digits) = takeSign text := by
  rcases takeSign_eq text with hs | hs | hs
  · rw [hs]; rfl
  · rw [hs]; rfl
  · rw [hs, List.nil_append]
    cases digits with
    | nil => rfl
    | cons d digits =>
      simp only [isDigits, List.all_cons, Bool.and_eq_true] at h
      unfold takeSign
      split
      · next heq =>
        cases heq
        exact absurd h.2.1 (by decide)
      · next heq =>
        cases heq
        exact absurd h.2.1 (by decide)
      · rfl

theorem isExponent_of_takeExponent? {text exponent : List Char}
    (h : takeExponent? text = some exponent) : isExponent exponent = true := by
  unfold takeExponent? at h
  split at h
  · next e rest =>
    split at h
    · next he =>
      obtain ⟨digits, hdigits, rfl⟩ := Option.map_eq_some_iff.1 h
      have hd := isDigits_of_takeDigits? hdigits
      rw [isExponent, takeSign_append rest hd, List.drop_left, hd, he]
      rfl
    · cases h
  · cases h

theorem stops_of_isExponent {exponent : List Char} (h : isExponent exponent = true) :
    Stops Char.isDigit exponent := by
  cases exponent with
  | nil => exact .nil _
  | cons e rest =>
    simp only [isExponent, Bool.and_eq_true, Bool.or_eq_true, beq_iff_eq] at h
    refine stops_cons.2 ?_
    rcases h.1 with rfl | rfl <;> rfl

theorem isFloat_of_dot {whole fraction exponent : List Char}
    (hwhole : whole.all Char.isDigit = true) (hfraction : fraction.all Char.isDigit = true)
    (hempty : (whole.isEmpty && fraction.isEmpty) = false)
    (hexponent : exponent = [] ∨ isExponent exponent = true) :
    isFloat (whole ++ '.' :: (fraction ++ exponent)) = true := by
  have hdot : Stops Char.isDigit ('.' :: (fraction ++ exponent)) := stops_cons.2 rfl
  have hstop : Stops Char.isDigit exponent := by
    rcases hexponent with rfl | h
    · exact .nil _
    · exact stops_of_isExponent h
  have he : (exponent.isEmpty || isExponent exponent) = true := by
    rcases hexponent with rfl | h
    · rfl
    · rw [h, Bool.or_true]
  simp only [isFloat, takeWhile_append hwhole hdot, dropWhile_append hwhole hdot,
    takeWhile_append hfraction hstop, dropWhile_append hfraction hstop, he, isDigits, hwhole,
    hfraction, Bool.and_true]
  rw [← Bool.not_and, hempty]
  rfl

theorem isFloat_of_exponent {whole exponent : List Char} (hwhole : isDigits whole = true)
    (hexponent : isExponent exponent = true) : isFloat (whole ++ exponent) = true := by
  have hall : whole.all Char.isDigit = true := (Bool.and_eq_true_iff.1 hwhole).2
  have hstop := stops_of_isExponent hexponent
  unfold isFloat
  rw [takeWhile_append hall hstop, dropWhile_append hall hstop]
  split
  · simp [isExponent] at hexponent
  · rw [hwhole, hexponent]
    rfl

theorem takeFloat?_eq_some {text digits : List Char} (h : takeFloat? text = some digits) :
    isFloat digits = true := by
  have hwhole : (text.takeWhile Char.isDigit).all Char.isDigit = true := List.all_takeWhile
  unfold takeFloat? at h
  dsimp only at h
  split at h
  · next rest _ =>
    split at h
    · cases h
    · next hempty =>
      cases h
      refine isFloat_of_dot hwhole List.all_takeWhile (Bool.eq_false_iff.2 hempty) ?_
      cases hexponent : takeExponent? (rest.dropWhile Char.isDigit) with
      | none => exact .inl rfl
      | some exponent => exact .inr (isExponent_of_takeExponent? hexponent)
  · split at h
    · cases h
    · next hempty =>
      obtain ⟨exponent, hexponent, rfl⟩ := Option.map_eq_some_iff.1 h
      refine isFloat_of_exponent ?_ (isExponent_of_takeExponent? hexponent)
      rw [isDigits, hwhole, Bool.eq_false_iff.2 hempty]
      rfl

theorem takeStringTail?_eq_some {text tail : List Char} (h : takeStringTail? text = some tail) :
    isStringTail tail = true := by
  fun_induction takeStringTail? text generalizing tail with
  | case1 c rest ih =>
    obtain ⟨tail, htail, rfl⟩ := Option.map_eq_some_iff.1 h
    rw [isStringTail]
    exact ih htail
  | case2 c rest _ hc => cases h; rfl
  | case3 c rest hne hc ih =>
    obtain ⟨tail, htail, rfl⟩ := Option.map_eq_some_iff.1 h
    have hback : c ≠ '\\' := by
      rintro rfl
      cases rest with
      | nil => cases htail
      | cons d rest => exact hne d rest rfl rfl
    rw [isStringTail, if_neg hc, ih htail, bne_iff_ne.2 hback]
    · rfl
    · exact fun _ _ h _ => hback h
  | case4 => cases h

theorem takeString?_eq_some {text word : List Char} (h : takeString? text = some word) :
    isString word = true := by
  unfold takeString? at h
  split at h
  · obtain ⟨tail, htail, rfl⟩ := Option.map_eq_some_iff.1 h
    exact takeStringTail?_eq_some htail
  · cases h

/-! ## A text of each form is taken whole -/

theorem isNameChar_of_isDigit {c : Char} (h : c.isDigit = true) : isNameChar c = true := by
  simp [isNameChar, Char.isAlphanum, h]

theorem isNameChar_of_hexDigit {c : Char} (h : Peg.CharClass.hexDigit.contains c = true) :
    isNameChar c = true := by
  simp only [Peg.CharClass.contains, Bool.or_eq_true, Bool.and_eq_true, decide_eq_true_eq] at h
  simp only [isNameChar, Char.isAlphanum, Bool.or_eq_true, isAlpha_iff, isUpper_iff, isLower_iff]
  rcases h with (h | h) | h
  · exact .inl (.inr h)
  · have h₂ : c.val ≤ 'z'.val := UInt32.le_trans h.2 (by decide)
    exact .inl (.inl (.inr ⟨h.1, h₂⟩))
  · have h₂ : c.val ≤ 'Z'.val := UInt32.le_trans h.2 (by decide)
    exact .inl (.inl (.inl ⟨h.1, h₂⟩))

theorem takeName?_append {name rest : List Char} (h : isName name = true)
    (hrest : Stops isNameChar rest) : takeName? (name ++ rest) = some name := by
  have hall := all_of_isWord (Bool.and_eq_true_iff.1 h).1
  simp only [takeName?, takeWhile_append hall hrest, h, if_true]

theorem takeMember?_append {member rest : List Char} (h : isMember member = true)
    (hrest : Stops isNameChar rest) : takeMember? (member ++ rest) = some member := by
  unfold isMember at h
  split at h
  · next word hword =>
    rw [Bool.and_eq_true] at h
    have hsplit : member = member.takeWhile isNameChar ++ '.' :: word := by
      rw [← hword, List.takeWhile_append_dropWhile]
    have hdot : Stops isNameChar ('.' :: (word ++ rest)) := stops_cons.2 rfl
    have htail := takeWhile_append (all_of_isWord h.2) hrest
    generalize member.takeWhile isNameChar = name at h hsplit
    subst hsplit
    rw [List.append_assoc, List.cons_append, takeMember?, takeName?_append h.1 hdot,
      Option.bind_some, List.drop_left]
    simp only [htail, h.2, if_true]
  · cases h

theorem takeDigits?_append {accepts : Char → Bool} {digits rest : List Char}
    (hempty : digits.isEmpty = false) (hall : digits.all accepts = true)
    (hrest : Stops accepts rest) : takeDigits? accepts (digits ++ rest) = some digits := by
  simp only [takeDigits?, takeWhile_append hall hrest, hempty, Bool.false_eq_true, if_false]

theorem takeInteger?_append {digits rest : List Char} (h : isInteger digits = true)
    (hrest : Stops isNameChar rest) : takeInteger? (digits ++ rest) = some digits := by
  rw [isInteger, Bool.or_eq_true] at h
  rcases h with h | h
  · unfold isHexadecimal at h
    split at h
    · next x hex =>
      simp only [Bool.and_eq_true, Bool.not_eq_true'] at h
      have htake := takeDigits?_append h.1.2 h.2 (hrest.mono fun _ => isNameChar_of_hexDigit)
      simp only [List.cons_append, takeInteger?, h.1.1, if_true, htake, Option.map_some,
        Option.some_or]
    · cases h
  · simp only [isDigits, Bool.and_eq_true, Bool.not_eq_true'] at h
    have htake := takeDigits?_append h.1 h.2 (hrest.mono fun _ => isNameChar_of_isDigit)
    unfold takeInteger?
    split
    · next x tail heq =>
      -- The second character is a digit or does not belong to the number, so it is no mark.
      have hx : (x == 'x' || x == 'X') = false := by
        match digits, h, heq with
        | [_], _, heq =>
          rw [List.singleton_append, List.cons.injEq] at heq
          have := hrest x (by rw [heq.2]; rfl)
          rw [Bool.eq_false_iff]
          intro hx
          simp only [Bool.or_eq_true, beq_iff_eq] at hx
          rcases hx with rfl | rfl <;> cases this
        | _ :: d :: _, h, heq =>
          simp only [List.cons_append, List.cons.injEq] at heq
          simp only [List.all_cons, Bool.and_eq_true, heq.2.1] at h
          rw [Bool.eq_false_iff]
          intro hx
          simp only [Bool.or_eq_true, beq_iff_eq] at hx
          rcases hx with rfl | rfl <;> cases h.2.2.1
      rw [hx]
      exact htake
    · exact htake

theorem takeExponent?_append {exponent rest : List Char} (h : isExponent exponent = true)
    (hrest : Stops isNameChar rest) :
    takeExponent? (exponent ++ rest) = some exponent := by
  cases exponent with
  | nil => cases h
  | cons e tail =>
    rw [isExponent, Bool.and_eq_true] at h
    have hdigits := h.2
    simp only [isDigits, Bool.and_eq_true, Bool.not_eq_true'] at hdigits
    have htake := takeDigits?_append hdigits.1 hdigits.2
      (hrest.mono fun _ => isNameChar_of_isDigit)
    have hsign : takeSign (tail ++ rest) = takeSign tail := by
      cases tail with
      | nil => cases hdigits.1
      | cons c tail =>
        unfold takeSign
        rw [List.cons_append]
        split <;> simp_all
    have hle : (takeSign tail).length ≤ tail.length := by
      unfold takeSign
      split <;> simp
    have hdrop : (tail ++ rest).drop (takeSign tail).length =
        tail.drop (takeSign tail).length ++ rest := List.drop_append_of_le_length hle
    have htail : takeSign tail ++ tail.drop (takeSign tail).length = tail := by
      unfold takeSign
      split <;> rfl
    simp only [List.cons_append, takeExponent?, h.1, if_true, hsign, hdrop, htake, Option.map_some,
      htail]

/-- No exponent starts where no name character comes next. -/
theorem takeExponent?_eq_none {rest : List Char} (hrest : Stops isNameChar rest) :
    takeExponent? rest = none := by
  cases rest with
  | nil => rfl
  | cons e tail =>
    rw [takeExponent?, if_neg]
    intro he
    have := stops_cons.1 hrest
    simp only [Bool.or_eq_true, beq_iff_eq] at he
    rcases he with rfl | rfl <;> cases this

theorem stops_append {accepts : Char → Bool} {head rest : List Char} (hhead : Stops accepts head)
    (hrest : Stops accepts rest) : Stops accepts (head ++ rest) := by
  cases head with
  | nil => exact hrest
  | cons c head => exact stops_cons.2 (stops_cons.1 hhead)

theorem takeFloat?_append {digits rest : List Char} (h : isFloat digits = true)
    (hrest : Stops isNameChar rest) : takeFloat? (digits ++ rest) = some digits := by
  have hall : (digits.takeWhile Char.isDigit).all Char.isDigit = true := List.all_takeWhile
  have hsplit := (@List.takeWhile_append_dropWhile _ Char.isDigit digits).symm
  have hstop := hrest.mono fun _ => isNameChar_of_isDigit
  unfold isFloat at h
  split at h
  · next tail htail =>
    have hfraction : (tail.takeWhile Char.isDigit).all Char.isDigit = true := List.all_takeWhile
    have htail' := (@List.takeWhile_append_dropWhile _ Char.isDigit tail).symm
    rw [htail] at hsplit
    generalize digits.takeWhile Char.isDigit = whole at h hall hsplit
    generalize tail.takeWhile Char.isDigit = fraction at h hfraction htail'
    generalize tail.dropWhile Char.isDigit = exponent at h htail'
    subst htail' hsplit
    simp only [Bool.and_eq_true, Bool.or_eq_true] at h
    have hempty : (whole.isEmpty && fraction.isEmpty) = false := by
      rw [Bool.eq_false_iff]
      intro he
      simp only [Bool.and_eq_true] at he
      rcases h.1 with hd | hd <;> simp [isDigits, he] at hd
    -- The exponent, or else what comes after the number, ends the fraction.
    have hend : Stops Char.isDigit (exponent ++ rest) ∧
        (takeExponent? (exponent ++ rest)).getD [] = exponent := by
      rcases h.2 with he | he
      · rw [List.isEmpty_iff.1 he, List.nil_append, takeExponent?_eq_none hrest]
        exact ⟨hstop, rfl⟩
      · rw [takeExponent?_append he hrest]
        exact ⟨stops_append (stops_of_isExponent he) hstop, rfl⟩
    have hdot : Stops Char.isDigit ('.' :: (fraction ++ (exponent ++ rest))) := stops_cons.2 rfl
    simp only [List.append_assoc, List.cons_append, takeFloat?, takeWhile_append hall hdot,
      dropWhile_append hall hdot, takeWhile_append hfraction hend.1,
      dropWhile_append hfraction hend.1, hempty, hend.2]
    rfl
  · rw [Bool.and_eq_true] at h
    generalize digits.takeWhile Char.isDigit = whole at h hall hsplit
    generalize digits.dropWhile Char.isDigit = exponent at h hsplit
    subst hsplit
    have hstop' := stops_append (stops_of_isExponent h.2) hstop
    have hempty : whole.isEmpty = false := by
      have := (Bool.and_eq_true_iff.1 h.1).1
      simpa using this
    rw [List.append_assoc]
    unfold takeFloat?
    rw [takeWhile_append hall hstop', dropWhile_append hall hstop']
    split
    · next heq =>
      cases exponent with
      | nil => cases h.2
      | cons e tail =>
        cases heq
        simp [isExponent] at h
    · dsimp only
      rw [hempty, takeExponent?_append h.2 hrest]
      rfl

/-- An integer is not read as the start of a float, unless a dot follows its decimal digits. -/
theorem takeFloat?_of_isInteger {digits rest : List Char} (h : isInteger digits = true)
    (hrest : Stops isNameChar rest)
    (hdot : isDigits digits = true → Stops (· == '.') rest) :
    takeFloat? (digits ++ rest) = none := by
  by_cases hdigits : isDigits digits = true
  · have hall := (Bool.and_eq_true_iff.1 hdigits).2
    have hstop := hrest.mono fun _ => isNameChar_of_isDigit
    unfold takeFloat?
    rw [takeWhile_append hall hstop, dropWhile_append hall hstop]
    split
    · have := stops_cons.1 (hdot hdigits)
      cases this
    · rw [takeExponent?_eq_none hrest]
      simp
  · rw [isInteger, Bool.or_eq_true, or_iff_left hdigits] at h
    unfold isHexadecimal at h
    split at h
    · next x hex =>
      simp only [Bool.and_eq_true, Bool.or_eq_true, beq_iff_eq] at h
      rcases h.1.1 with rfl | rfl <;> rfl
    · cases h

theorem takeStringTail?_append {tail : List Char} (h : isStringTail tail = true)
    (rest : List Char) : takeStringTail? (tail ++ rest) = some tail := by
  fun_induction isStringTail tail with
  | case1 c tail ih => rw [List.cons_append, List.cons_append, takeStringTail?, ih h, Option.map_some]
  | case2 c tail hne hc =>
    rw [beq_iff_eq] at hc
    rw [List.isEmpty_iff.1 h, hc]
    rfl
  | case3 c tail hne hc ih =>
    rw [Bool.and_eq_true, bne_iff_ne] at h
    rw [List.cons_append, takeStringTail?, if_neg hc, ih h.2, Option.map_some]
    exact fun _ _ hc _ => h.1 hc
  | case4 => cases h

theorem takeString?_append {text : List Char} (h : isString text = true) (rest : List Char) :
    takeString? (text ++ rest) = some text := by
  unfold isString at h
  split at h
  · rw [List.cons_append, takeString?, takeStringTail?_append h, Option.map_some]
  · cases h

end Lsl.Lexeme
