import Lsl.Proofs.Syntax.Run
import Mathlib.Data.List.TakeWhile
/-!
# Operands side by side

Grouping is given up where two operands stand side by side with no operator between them.  Operators
may stand anywhere, doubled or at either end.  Splitting only cuts at operators, so a series of operands
stays in one piece down to where it is given up; and as the left side of a split is grouped first, the
series that is reported is the leftmost one.
-/

namespace Lsl

/-- An element that is not the text of a binary operator. -/
def Element.isOperand (element : Element) : Bool :=
  element.level?.isNone

/-- The first series of two operands or more. -/
def firstClash? : List Element → Option (List Element)
  | first :: second :: rest =>
    if first.isOperand && second.isOperand then
      some (first :: second :: rest.takeWhile Element.isOperand)
    else firstClash? (second :: rest)
  | _ => none

section

variable {values before after clash rest : List Element} {value first second center : Element}

theorem Element.isOperand_eq_false_iff : value.isOperand = false ↔ value.level?.isSome = true := by
  cases h : value.level? <;> simp [isOperand, h]

/-! ## The first series -/

theorem takeWhile_isOperand_append (hcenter : center.isOperand = false) :
    (before ++ center :: after).takeWhile Element.isOperand = before.takeWhile Element.isOperand := by
  induction before with
  | nil => simp [hcenter]
  | cons value before ih => simp [List.takeWhile_cons, ih]

/-- An operator cuts no series in two. -/
theorem firstClash?_append (hcenter : center.isOperand = false) :
    firstClash? (before ++ center :: after) = (firstClash? before).or (firstClash? after) := by
  fun_induction firstClash? before with
  | case1 first second rest hboth =>
    rw [List.cons_append, List.cons_append, firstClash?, if_pos hboth,
      takeWhile_isOperand_append hcenter]
    rfl
  | case2 first second rest hboth ih =>
    rw [List.cons_append] at ih
    rw [List.cons_append, List.cons_append, firstClash?, if_neg hboth, ih]
  | case3 values hshort =>
    have hnext : firstClash? (center :: after) = firstClash? after := by
      cases after with
      | nil => rfl
      | cons value after => simp [firstClash?, hcenter]
    match values with
    | [] => exact hnext
    | [value] => simpa [firstClash?, hcenter] using hnext
    | first :: second :: rest => exact absurd rfl (hshort first second rest)

/-- Operands only are one series. -/
theorem firstClash?_of_operands (hall : ∀ value ∈ values, value.isOperand = true)
    (hlength : 1 < values.length) : firstClash? values = some values := by
  match values, hlength with
  | first :: second :: rest, _ =>
    have hrest : rest.takeWhile Element.isOperand = rest :=
      List.takeWhile_eq_self_iff.2 fun value hvalue => hall value (by simp [hvalue])
    rw [firstClash?, hall first (by simp), hall second (by simp), hrest]
    rfl

/-- The result is the failure of the first series of the elements, or a success if there is none. -/
def Reports {α : Type} (values : List Element) (result : Except Error α) : Prop :=
  match firstClash? values with
  | some clash => result = .error (.partialExpression (Element.describeAll clash))
  | none => ∃ a, result = .ok a

/-- The left side of an operator is reported first. -/
theorem Reports.bind {α β γ : Type} {left : Except Error α} {right : Except Error β} (f : α → β → γ)
    (hcenter : center.isOperand = false) (hleft : Reports before left) (hright : Reports after right) :
    Reports (before ++ center :: after) (do return f (← left) (← right)) := by
  unfold Reports at hleft hright ⊢
  rw [firstClash?_append hcenter]
  cases hbefore : firstClash? before with
  | some clash =>
    rw [hbefore] at hleft
    dsimp only at hleft
    rw [hleft]
    rfl
  | none =>
    rw [hbefore] at hleft
    obtain ⟨a, rfl⟩ := hleft
    cases hafter : firstClash? after with
    | some clash =>
      rw [hafter] at hright
      dsimp only at hright
      rw [hright]
      rfl
    | none =>
      rw [hafter] at hright
      obtain ⟨b, rfl⟩ := hright
      exact ⟨f a b, rfl⟩

theorem level?_of_splitAtLevel {level : Level}
    (h : splitAtLevel level values = some (before, center, after)) : center.level? = some level := by
  induction values generalizing before with
  | nil => cases h
  | cons value rest ih =>
    rw [splitAtLevel] at h
    split at h
    · next hvalue =>
      cases h
      exact hvalue
    · obtain ⟨⟨_, _, _⟩, hrest, heq⟩ := Option.map_eq_some_iff.1 h
      cases heq
      exact ih hrest

theorem level?_of_splitAtLevel_eq_none {level : Level} (h : splitAtLevel level values = none) :
    ∀ value ∈ values, value.level? ≠ some level := by
  induction values with
  | nil => exact nofun
  | cons value rest ih =>
    rw [splitAtLevel] at h
    split at h
    · cases h
    · next hvalue => exact List.forall_mem_cons.2 ⟨hvalue, ih (Option.map_eq_none_iff.1 h)⟩

/-- A split is at an operator. -/
theorem isOperand_of_splitLoosest? (h : splitLoosest? values = some (before, center, after)) :
    center.isOperand = false := by
  obtain ⟨level, -, h⟩ := Option.bind_eq_some_iff.1 h
  rw [Element.isOperand_eq_false_iff, level?_of_splitAtLevel h]
  rfl

/-- Only operands are not split. -/
theorem operands_of_splitLoosest? (h : splitLoosest? values = none) :
    ∀ value ∈ values, value.isOperand = true := by
  intro value hvalue
  rw [← Bool.not_eq_false, Element.isOperand_eq_false_iff, Option.isSome_iff_exists]
  rintro ⟨level, hlevel⟩
  obtain ⟨loosest, hloosest⟩ := exists_loosestLevel? (List.mem_filterMap.2 ⟨value, hvalue, hlevel⟩)
  obtain ⟨other, hother, hlevel'⟩ := List.mem_filterMap.1 (loosestLevel?_eq_some hloosest).1
  rw [splitLoosest?, hloosest] at h
  exact level?_of_splitAtLevel_eq_none h other hother hlevel'

/-- A side reports what the grouping of its elements does. -/
theorem Reports.side (h : 1 < values.length → Reports values (assemble values)) :
    Reports values (assembleSide values) := by
  match values with
  | [] => exact ⟨none, by rw [assembleSide]⟩
  | [value] => exact ⟨some value.toOperand, by rw [assembleSide]⟩
  | first :: second :: rest =>
    have hmade := h (by simp)
    unfold Reports at hmade ⊢
    rw [assembleSide]
    split at hmade
    · rw [hmade]
      rfl
    · obtain ⟨operation, hoperation⟩ := hmade
      rw [hoperation]
      exact ⟨some (.value operation), rfl⟩

/-- Grouping reports the first series of operands side by side, and else succeeds. -/
theorem reports_assemble (hne : values ≠ []) : Reports values (assemble values) := by
  induction hn : values.length using Nat.strongRecOn generalizing values with
  | ind n ih =>
    match values with
    | [] => exact absurd rfl hne
    | [value] => exact ⟨.leaf value, by rw [assemble]⟩
    | first :: second :: rest =>
      have hlength : 1 < (first :: second :: rest).length := by simp
      cases hsplit : splitLoosest? (first :: second :: rest) with
      | none =>
        rw [assemble_eq_group, Splitting.group_of_unsplit hlength hsplit]
        unfold Reports
        rw [firstClash?_of_operands (operands_of_splitLoosest? hsplit) hlength]
      | some parts =>
        obtain ⟨before, center, after⟩ := parts
        obtain ⟨hbefore, hafter⟩ := length_of_splitLoosest? hsplit
        rw [hn] at hbefore hafter
        have reports {side : List Element} (hside : side.length < n) :
            Reports side (assembleSide side) :=
          .side fun hlong => ih _ hside (List.ne_nil_of_length_pos (by omega)) rfl
        rw [assemble_of_split hlength hsplit, eq_of_splitLoosest? hsplit]
        exact .bind (fun left? right? => Operation.mk left? (some center) right?)
          (isOperand_of_splitLoosest? hsplit) (reports hbefore) (reports hafter)

end

end Lsl
