import Lsl.Proofs.Roundtrip.Word
import Lsl.Proofs.Text.Indent
/-!
# Expressions stay on their line

The written form of an expression has no line ends if its strings have none, and it ends in a
character that indenting leaves alone.  So it is the same text at every depth.
-/

namespace Lsl

open Lexeme Text

variable {width : Nat}

/-! ## Words -/

theorem isPlain_of_isNameChar {c : Char} (h : isNameChar c = true) : isPlain c = true := by
  by_cases hreturn : c = '\r'
  · subst hreturn
    cases h
  · by_cases hend : c = '\n'
    · subst hend
      cases h
    · simp [isPlain, hreturn, hend]

theorem inline_of_nameChars {text : List Char} (h : text.all isNameChar = true) :
    Inline width text := by
  refine inline_of_plain (List.all_eq_true.2 fun c hc => ?_)
  exact isPlain_of_isNameChar (List.all_eq_true.1 h c hc)

theorem inline_of_isName {text : List Char} (h : isName text = true) : Inline width text :=
  inline_of_nameChars (all_of_isWord (Bool.and_eq_true_iff.1 h).1)

theorem inline_of_isMember {text : List Char} (h : isMember text = true) : Inline width text := by
  unfold isMember at h
  split at h
  · next tail htail =>
    rw [Bool.and_eq_true] at h
    rw [← List.takeWhile_append_dropWhile (p := isNameChar) (l := text), htail]
    exact (inline_of_isName h.1).append
      (.cons rfl (inline_of_nameChars (all_of_isWord h.2)))
  · cases h

theorem inline_of_digits {text : List Char} (h : text.all Char.isDigit = true) :
    Inline width text := by
  refine inline_of_nameChars (List.all_eq_true.2 fun c hc => ?_)
  exact isNameChar_of_isDigit (List.all_eq_true.1 h c hc)

theorem inline_of_isInteger {text : List Char} (h : isInteger text = true) :
    Inline width text := by
  rw [isInteger, Bool.or_eq_true] at h
  rcases h with h | h
  · unfold isHexadecimal at h
    split at h
    · next x rest =>
      rw [Bool.and_eq_true, Bool.and_eq_true] at h
      obtain ⟨⟨hx, -⟩, hrest⟩ := h
      have hx' : isPlain x = true := by
        rw [Bool.or_eq_true, beq_iff_eq, beq_iff_eq] at hx
        rcases hx with rfl | rfl <;> rfl
      refine .cons rfl (.cons hx' (inline_of_nameChars (List.all_eq_true.2 fun c hc => ?_)))
      exact isNameChar_of_hexDigit (List.all_eq_true.1 hrest c hc)
    · cases h
  · exact inline_of_digits (Bool.and_eq_true_iff.1 h).2

theorem takeSign_append_drop (text : List Char) :
    takeSign text ++ text.drop (takeSign text).length = text := by
  unfold takeSign
  split <;> rfl

theorem inline_of_isExponent {text : List Char} (h : isExponent text = true) :
    Inline width text := by
  cases text with
  | nil => cases h
  | cons e rest =>
    rw [isExponent, Bool.and_eq_true, Bool.or_eq_true, beq_iff_eq, beq_iff_eq] at h
    have he : isPlain e = true := by rcases h.1 with rfl | rfl <;> rfl
    have hsign : Inline width (takeSign rest) := by
      unfold takeSign
      split <;> exact inline_of_plain rfl
    have hrest := hsign.append (inline_of_digits (Bool.and_eq_true_iff.1 h.2).2)
    rw [takeSign_append_drop] at hrest
    exact .cons he hrest

theorem inline_of_isFloat {text : List Char} (h : isFloat text = true) : Inline width text := by
  have hwhole (text : List Char) : Inline width (text.takeWhile Char.isDigit) :=
    inline_of_digits List.all_takeWhile
  rw [← List.takeWhile_append_dropWhile (p := Char.isDigit) (l := text)]
  refine (hwhole text).append ?_
  unfold isFloat at h
  split at h
  · next rest hrest =>
    rw [hrest, ← List.takeWhile_append_dropWhile (p := Char.isDigit) (l := rest)]
    refine .cons rfl ((hwhole rest).append ?_)
    rcases Bool.or_eq_true_iff.1 (Bool.and_eq_true_iff.1 h).2 with hnone | hexponent
    · rw [List.isEmpty_iff.1 hnone]
      exact inline_of_plain rfl
    · exact inline_of_isExponent hexponent
  · exact inline_of_isExponent (Bool.and_eq_true_iff.1 h).2

theorem getLast?_of_isStringTail {text : List Char} (h : isStringTail text = true) :
    text.getLast? = some '"' := by
  fun_induction isStringTail text with
  | case1 c rest ih => rw [List.getLast?_cons, List.getLast?_cons, ih h]; rfl
  | case2 c rest _ hc => rw [beq_iff_eq.1 hc, List.isEmpty_iff.1 h]; rfl
  | case3 c rest _ _ ih =>
    rw [Bool.and_eq_true] at h
    rw [List.getLast?_cons, ih h.2]
    rfl
  | case4 => cases h

/-- Where no line end comes after a carriage return, and none is followed by blanks, a text is tidy if
its last character is no part of a line end. -/
theorem tidyFrom_of_hasReturn {text : List Char} {last : Char} (hline : width = 0 ∨ '\n' ∉ text)
    (hreturn : hasReturn (last :: text) = false)
    (hplain : ∀ c ∈ (last :: text).getLast?, isPlain c = true) : TidyFrom width last text := by
  induction text generalizing last with
  | nil =>
    have hlast := hplain last rfl
    rwa [isPlain, Bool.and_eq_true, bne_iff_ne, bne_iff_ne] at hlast
  | cons c text ih =>
    rw [hasReturn, Bool.or_eq_false_iff] at hreturn
    refine ⟨?_, ih (hline.imp_right fun h hmem => h (List.mem_cons_of_mem _ hmem)) hreturn.2 hplain⟩
    rintro rfl
    refine ⟨?_, hline.imp_right fun h => absurd List.mem_cons_self h⟩
    rintro rfl
    cases hreturn.1

theorem hasReturn_of_not_mem {text : List Char} (h : '\n' ∉ text) : hasReturn text = false := by
  induction text with
  | nil => rfl
  | cons c text ih =>
    rw [List.mem_cons, not_or] at h
    have hhead : text.head? ≠ some '\n' := fun heq => h.2 (List.mem_of_mem_head? heq)
    rw [hasReturn, ih h.2, beq_eq_false_iff_ne.2 hhead, Bool.and_false, Bool.or_false]

theorem inline_of_isString {text : String} (h : isString text.toList = true)
    (hunmoved : isUnmoved width text = true) : Inline width text.toList := by
  have hfacts : (width = 0 ∨ '\n' ∉ text.toList) ∧ hasReturn text.toList = false := by
    rw [isUnmoved, Bool.or_eq_true, Bool.and_eq_true, beq_iff_eq, Bool.not_eq_true'] at hunmoved
    rcases hunmoved with hline | ⟨hwidth, hreturn⟩
    · have hmem : '\n' ∉ text.toList := by simpa [isLine] using hline
      exact ⟨.inr hmem, hasReturn_of_not_mem hmem⟩
    · exact ⟨.inl hwidth, hreturn⟩
  refine ⟨hfacts.1, fun last hreturn hend => tidyFrom_of_hasReturn hfacts.1 ?_ ?_⟩
  · rw [hasReturn, hfacts.2, beq_eq_false_iff_ne.2 hreturn]
    rfl
  · unfold isString at h
    split at h
    · next tail htail =>
      rw [htail, List.getLast?_cons, List.getLast?_cons, getLast?_of_isStringTail h]
      rintro c ⟨⟩
      rfl
    · cases h

theorem inline_of_isOperandText {text : String} (h : isOperandText text = true)
    (hunmoved : isUnmoved width text = true) : Inline width text.toList := by
  rw [isOperandText, Bool.or_eq_true, Bool.or_eq_true, Bool.or_eq_true] at h
  rcases h with ((h | h) | h) | h
  · exact inline_of_isName h
  · exact inline_of_isInteger h
  · exact inline_of_isFloat h
  · exact inline_of_isString h hunmoved

theorem inline_of_type (type : Primitive) : Inline width type.text := by
  cases type <;> exact inline_of_plain rfl

theorem inline_of_mem {symbols : List String}
    (hall : symbols.all (fun symbol => symbol.toList.all isPlain) = true) {symbol : String}
    (h : symbol ∈ symbols) : Inline width symbol.toList :=
  inline_of_plain (List.all_eq_true.1 hall symbol h)

/-! ## Expressions -/

theorem inline_of_commaText {texts : List (List Char)} (h : ∀ text ∈ texts, Inline width text) :
    Inline width (commaText texts) := by
  induction texts with
  | nil => exact inline_of_plain rfl
  | cons text texts ih =>
    rw [List.forall_mem_cons] at h
    cases texts with
    | nil =>
      rw [commaText_singleton]
      exact h.1
    | cons text' texts =>
      rw [commaText_cons_cons]
      exact h.1.append (.cons rfl (.cons rfl (ih h.2)))

/-- Expressions in brackets with commas between them. -/
theorem inline_of_brackets {before after : Char} (hbefore : isPlain before = true)
    (hafter : isPlain after = true) {os : List Operation}
    (h : ∀ o ∈ os, Inline width (o.text width)) :
    Inline width (before :: (commaText (os.map (Operation.text width)) ++ [after])) := by
  refine .cons hbefore (Inline.append (inline_of_commaText ?_) (.cons hafter (inline_of_plain rfl)))
  rw [List.forall_mem_map]
  exact h

theorem inline_of_symbolText {symbol : String} (h : (Level.of? symbol).isSome = true) :
    Inline width (symbolText symbol) := by
  unfold symbolText
  split
  · exact inline_of_plain rfl
  · refine .cons rfl (Inline.append ?_ (inline_of_plain rfl))
    exact inline_of_mem (by decide) (Rule.mem_binaryOperators h)

/-- An operation in parentheses or without them. -/
theorem inline_of_group {o : Operation} (ho : o.wellShaped = true) (h : Inline width (o.text width)) :
    Inline width (Element.operandText width (.node (.value o))) := by
  rw [Element.operandText_value ho]
  split
  · exact .cons rfl (h.append (inline_of_plain rfl))
  · exact h

section

variable {allows : String → Bool}
  (hallows : ∀ text, allows text = true → isUnmoved width text = true)

include hallows

theorem inline_cases :
    ExpressionCases
      (fun element => element.printable allows = true → Inline width (element.operandText width))
      (fun o => o.printable allows = true → Inline width (o.text width)) where
  text word h hline := by
    rw [Element.printable] at hline
    exact inline_of_isOperandText h (hallows word hline)
  group o ho h hline := by
    rw [Element.printable, Node.printable] at hline
    exact inline_of_group ho (h hline)
  call name os hname h hline := by
    simp only [Element.printable, Node.printable, arePrintableElements_map, Bool.and_eq_true,
      List.all_eq_true] at hline
    rw [Element.operandText_call name fun o ho => (h o ho).1]
    exact (inline_of_isName hname).append
      (inline_of_brackets rfl rfl fun o ho => (h o ho).2 (hline.1 o ho))
  list os h hline := by
    simp only [Element.printable, Node.printable, arePrintableElements_map, Bool.and_eq_true,
      List.all_eq_true] at hline
    rw [Element.operandText_list fun o ho => (h o ho).1]
    exact inline_of_brackets rfl rfl fun o ho => (h o ho).2 (hline.1 o ho)
  vector x y z h _ hline := by
    simp only [List.forall_mem_cons] at h
    obtain ⟨⟨hx, hlx⟩, ⟨hy, hly⟩, ⟨hz, hlz⟩, -⟩ := h
    simp only [Element.printable, Node.printable, Bool.and_eq_true] at hline
    rw [Element.operandText_vector hx hy hz]
    exact inline_of_brackets rfl rfl (by simp [hlx hline.1.1.1, hly hline.1.1.2, hlz hline.1.2])
  quaternion x y z s h _ hline := by
    simp only [List.forall_mem_cons] at h
    obtain ⟨⟨hx, hlx⟩, ⟨hy, hly⟩, ⟨hz, hlz⟩, ⟨hs, hls⟩, -⟩ := h
    simp only [Element.printable, Node.printable, Bool.and_eq_true] at hline
    rw [Element.operandText_quaternion hx hy hz hs]
    exact inline_of_brackets rfl rfl (by
      simp [hlx hline.1.1.1.1, hly hline.1.1.1.2, hlz hline.1.1.2, hls hline.1.2])
  cast type value htype hvalue h hline := by
    simp only [Element.printable, Node.printable] at hline
    rw [Element.operandText_cast htype hvalue]
    exact .cons rfl ((inline_of_type type).append (.cons rfl (h hline)))
  preMod symbol value hsymbol hvalue h hline := by
    simp only [Element.printable, Node.printable] at hline
    rw [Element.operandText_preMod symbol hvalue]
    have hgap : Inline width (modifierGap (value.operandText width)) := by
      unfold modifierGap
      split
      · split <;> exact inline_of_plain rfl
      · exact inline_of_plain rfl
    exact (inline_of_mem (by decide) hsymbol).append (hgap.append (h hline))
  postMod symbol name hsymbol hname _ := by
    have hname' : Inline width name.toList :=
      (Bool.or_eq_true_iff.1 hname).elim inline_of_isName inline_of_isMember
    rw [Element.operandText_postMod]
    exact hname'.append (inline_of_mem (by decide) hsymbol)
  leaf center _ _ h hline := by
    rw [Operation.printable_leaf] at hline
    rw [Operation.text_leaf]
    exact h hline
  binary left symbol right hleft hlevel hright h h' hline := by
    simp only [Operation.printable, Node.printable, Bool.and_eq_true] at hline
    rw [Operation.text_binary]
    exact (inline_of_group hleft (h hline.1.1)).append
      ((inline_of_symbolText hlevel).append (inline_of_group hright (h' hline.1.2)))

theorem inline_of_operation (o : Operation) (hshaped : o.wellShaped = true)
    (hline : o.printable allows = true) : Inline width (o.text width) :=
  (inline_cases hallows).of_operation o hshaped hline

end

end Lsl
