import Lsl.Syntax.Operator
/-!
# Ways to group elements

`assemble` groups elements by splitting them at an operator and grouping both sides in the same way.
Here the place of the split is left open: a `Splitting` says where elements are split, and `group`
and `side` follow it down.  `assemble` is the grouping that splits at the leftmost operator of the
loosest level.
-/

namespace Lsl

/-- A choice of the operator that elements are split at. -/
structure Splitting where
  /-- The elements before an operator, that operator, and the elements after it. -/
  split? : List Element → Option (List Element × Element × List Element)
  eq_of_split? : ∀ {values before after : List Element} {center : Element},
    split? values = some (before, center, after) → values = before ++ center :: after

namespace Splitting

variable (s : Splitting)

theorem length_of_split? {values before after : List Element} {center : Element}
    (h : s.split? values = some (before, center, after)) :
    before.length < values.length ∧ after.length < values.length := by
  have hlength := congrArg List.length (s.eq_of_split? h)
  rw [List.length_append, List.length_cons] at hlength
  omega

mutual

/-- Groups elements into an operation, splitting them as chosen. -/
def group (values : List Element) : Except Error Operation :=
  match values with
  | [] => .error .emptyExpression
  | [value] => .ok (.leaf value)
  | first :: second :: rest =>
    match _h : s.split? (first :: second :: rest) with
    | some (before, center, after) => do
      let left? ← side before
      let right? ← side after
      return ⟨left?, some center, right?⟩
    | none => .error (.partialExpression (Element.describeAll (first :: second :: rest)))
  termination_by (values.length, 0)
  decreasing_by
    · exact Prod.Lex.left _ _ (s.length_of_split? _h).1
    · exact Prod.Lex.left _ _ (s.length_of_split? _h).2

/-- One side of an operator: nothing, a lone operand, or elements grouped in turn. -/
def side (values : List Element) : Except Error (Option Node) :=
  match values with
  | [] => .ok none
  | [value] => .ok (some value.toOperand)
  | first :: second :: rest => do return some (.value (← group (first :: second :: rest)))
  termination_by (values.length, 1)
  decreasing_by exact Prod.Lex.right _ (by omega)

end

variable {s}

/-- Elements that are split are grouped side by side. -/
theorem group_of_split {values before after : List Element} {center : Element}
    (hlength : 1 < values.length) (h : s.split? values = some (before, center, after)) :
    s.group values = do
      let left? ← s.side before
      let right? ← s.side after
      return ⟨left?, some center, right?⟩ := by
  match values, hlength with
  | first :: second :: rest, _ =>
    rw [group]
    split
    · next hsome =>
      cases h.symm.trans hsome
      rfl
    · next hnone => cases h.symm.trans hnone

theorem group_of_unsplit {values : List Element} (hlength : 1 < values.length)
    (h : s.split? values = none) :
    s.group values = .error (.partialExpression (Element.describeAll values)) := by
  match values, hlength with
  | first :: second :: rest, _ =>
    rw [group]
    split
    · next hsome => cases h.symm.trans hsome
    · rfl

section

variable {made : List Element → Operation → Prop} {sided : List Element → Option Node → Prop}
  (leaf : ∀ value, made [value] (.leaf value))
  (split : ∀ {before after center left? right?}, sided before left? → sided after right? →
    made (before ++ center :: after) ⟨left?, some center, right?⟩)
  (absent : sided [] none) (operand : ∀ value, sided [value] (some value.toOperand))
  (nested : ∀ {values operation}, made values operation → sided values (some (.value operation)))
  (values : List Element)

include absent operand nested

theorem sided_of_made
    (hmade : ∀ {operation}, s.group values = .ok operation → made values operation)
    {side? : Option Node} (h : s.side values = .ok side?) : sided values side? := by
  match values with
  | [] =>
    rw [side] at h
    cases h
    exact absent
  | [value] =>
    rw [side] at h
    cases h
    exact operand value
  | first :: second :: rest =>
    rw [side] at h
    obtain ⟨operation, hgroup, h⟩ := exists_of_bind_eq_ok h
    cases h
    exact nested (hmade hgroup)

variable (made sided)

include leaf split

/-- What holds of lone operands and of an absent side, and of an operation when it holds of its
sides, holds of all that is grouped. -/
theorem group_induction :
    (∀ {operation}, s.group values = .ok operation → made values operation) ∧
    ∀ {side?}, s.side values = .ok side? → sided values side? := by
  induction hn : values.length using Nat.strongRecOn generalizing values with
  | ind n ih =>
    have hmade {operation : Operation} (h : s.group values = .ok operation) :
        made values operation := by
      match values with
      | [] =>
        rw [group] at h
        cases h
      | [value] =>
        rw [group] at h
        cases h
        exact leaf value
      | first :: second :: rest =>
        rw [group] at h
        split at h
        · next before center after hsplit =>
          obtain ⟨hbefore, hafter⟩ := s.length_of_split? hsplit
          rw [hn] at hbefore hafter
          obtain ⟨left?, hleft, h⟩ := exists_of_bind_eq_ok h
          obtain ⟨right?, hright, h⟩ := exists_of_bind_eq_ok h
          cases h
          rw [s.eq_of_split? hsplit]
          exact split ((ih _ hbefore before rfl).2 hleft) ((ih _ hafter after rfl).2 hright)
        · cases h
    exact ⟨hmade, sided_of_made absent operand nested values hmade⟩

end

/-- The split at the leftmost operator of the loosest level. -/
def leftmost : Splitting where
  split? := splitLoosest?
  eq_of_split? := eq_of_splitLoosest?

end Splitting

theorem assembleSide_eq_of_assemble_eq {values : List Element}
    (h : assemble values = Splitting.leftmost.group values) :
    assembleSide values = Splitting.leftmost.side values := by
  match values with
  | [] => rw [assembleSide, Splitting.side]
  | [value] => rw [assembleSide, Splitting.side]
  | first :: second :: rest => rw [assembleSide, Splitting.side, h]

/-- `assemble` groups by the leftmost operator of the loosest level. -/
theorem assemble_eq_group (values : List Element) :
    assemble values = Splitting.leftmost.group values := by
  induction hn : values.length using Nat.strongRecOn generalizing values with
  | ind n ih =>
    match values with
    | [] => rw [assemble, Splitting.group]
    | [value] => rw [assemble, Splitting.group]
    | first :: second :: rest =>
      have hlength : 1 < (first :: second :: rest).length := by simp
      rw [assemble]
      split
      · next before center after hsplit =>
        obtain ⟨hbefore, hafter⟩ := length_of_splitLoosest? hsplit
        rw [hn] at hbefore hafter
        rw [Splitting.group_of_split hlength hsplit,
          assembleSide_eq_of_assemble_eq (ih _ hbefore before rfl),
          assembleSide_eq_of_assemble_eq (ih _ hafter after rfl)]
      · next hsplit => rw [Splitting.group_of_unsplit hlength hsplit]

theorem assembleSide_eq_side (values : List Element) :
    assembleSide values = Splitting.leftmost.side values :=
  assembleSide_eq_of_assemble_eq (assemble_eq_group values)

theorem assemble_of_split {values before after : List Element} {center : Element}
    (hlength : 1 < values.length) (h : splitLoosest? values = some (before, center, after)) :
    assemble values = do
      let left? ← assembleSide before
      let right? ← assembleSide after
      return ⟨left?, some center, right?⟩ := by
  rw [assemble_eq_group, assembleSide_eq_side, assembleSide_eq_side]
  exact Splitting.group_of_split hlength h

end Lsl
