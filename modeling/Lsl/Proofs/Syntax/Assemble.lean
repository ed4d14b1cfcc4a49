import Lsl.Proofs.Syntax.Run
import Lsl.Proofs.Syntax.WellShaped
/-!
# Grouping runs of operands and operators

A run of operands with binary operators between them always groups into an operation, and the
operation has both sides at every operator.
-/

namespace Lsl

/-- An operand of a run: well shaped, and not taken for an operator. -/
def Element.isPlainOperand (element : Element) : Bool :=
  element.isWellShapedOperand && element.level?.isNone

/-- Rounds of binary operators and operands. -/
def wellShapedRounds (rounds : List (String × Element)) : Bool :=
  rounds.all fun round => (Level.of? round.1).isSome && round.2.isPlainOperand

theorem level?_eq_none {element : Element} (h : element.isPlainOperand = true) :
    element.level? = none := by
  simpa using (Bool.and_eq_true_iff.1 h).2

theorem isRun_of_wellShaped {first : Element} {rounds : List (String × Element)}
    (hfirst : first.isPlainOperand = true) (hrounds : wellShapedRounds rounds = true) :
    IsRun first rounds where
  first := level?_eq_none hfirst
  rounds round hround := by
    have hround' := List.all_eq_true.1 hrounds round hround
    rw [Bool.and_eq_true] at hround'
    exact ⟨hround'.1, level?_eq_none hround'.2⟩

/-- A lone operand as the side of an operation is a well-shaped value. -/
theorem toOperand_eq_value {operand : Element} (h : operand.isPlainOperand = true) :
    ∃ o, operand.toOperand = .value o ∧ o.wellShaped = true := by
  cases operand with
  | text text => exact ⟨.leaf (.text text), rfl, h⟩
  | node node =>
    cases hexpr : node.kind.isExpression with
    | false => exact ⟨.leaf (.node node), by rw [Element.toOperand, hexpr]; rfl, h⟩
    | true =>
      have hshaped := (Bool.and_eq_true_iff.1 h).1
      rw [Element.isWellShapedOperand, Bool.and_eq_true] at hshaped
      match node, hexpr, hshaped with
      | .value o, _, hshaped =>
        rw [Node.wellShaped_value] at hshaped
        exact ⟨o, rfl, hshaped.2⟩
      | .expression _, _, hshaped => cases hshaped.1
      | .condition _, _, hshaped => cases hshaped.1

theorem fitsLast_leaf {operand : Element} (h : operand.level? = none) :
    (Operation.leaf operand).fitsLast = true := by
  cases operand with
  | node node => rfl
  | text text =>
    simp only [Operation.leaf, Operation.fitsLast, isClosingOperator, Bool.not_eq_true',
      Bool.or_eq_false_iff, beq_eq_false_iff_ne]
    constructor <;> rintro rfl <;> cases h

/-- A run groups into a well-shaped operation, the operator of which is one of the run's. -/
theorem assemble_flatRun {first : Element} {rounds : List (String × Element)}
    (hfirst : first.isPlainOperand = true) (hrounds : wellShapedRounds rounds = true) :
    ∃ o, assemble (flatRun first rounds) = .ok o ∧ o.wellShaped = true ∧
      (rounds.all (fun round => !isClosingOperator round.1) = true → o.fitsLast = true) := by
  induction hn : rounds.length using Nat.strongRecOn generalizing first rounds with
  | ind n ih =>
    -- One side of the split: a lone operand, or a shorter run.
    have side {first : Element} {rounds : List (String × Element)}
        (hfirst : first.isPlainOperand = true) (hrounds : wellShapedRounds rounds = true)
        (hlt : rounds.length < n) :
        ∃ o, assembleSide (flatRun first rounds) = .ok (some (.value o)) ∧
          o.wellShaped = true := by
      cases rounds with
      | nil =>
        obtain ⟨o, ho, hshaped⟩ := toOperand_eq_value hfirst
        refine ⟨o, ?_, hshaped⟩
        rw [flatRun_nil, assembleSide, ho]
      | cons round rounds =>
        obtain ⟨o, ho, hshaped, -⟩ := ih _ hlt hfirst hrounds rfl
        refine ⟨o, ?_, hshaped⟩
        rw [flatRun_cons] at ho ⊢
        rw [assembleSide, ho]
        rfl
    cases rounds with
    | nil =>
      refine ⟨.leaf first, ?_, hfirst, fun _ => fitsLast_leaf (level?_eq_none hfirst)⟩
      rw [flatRun_nil, assemble]
    | cons round rounds =>
      obtain ⟨before, symbol, operand, after, hsplit, -, -, heq⟩ :=
        splitLoosest?_flatRun (isRun_of_wellShaped hfirst hrounds) (List.cons_ne_nil _ _)
      rw [hsplit] at hrounds hn ⊢
      simp only [wellShapedRounds, List.all_append, List.all_cons, Bool.and_eq_true] at hrounds
      obtain ⟨hbefore, ⟨hsymbol, hoperand⟩, hafter⟩ := hrounds
      rw [List.length_append, List.length_cons] at hn
      obtain ⟨left, hleft, hleft'⟩ := side hfirst hbefore (by omega)
      obtain ⟨right, hright, hright'⟩ := side hoperand hafter (by omega)
      refine ⟨⟨some (.value left), some (.text symbol), some (.value right)⟩, ?_, ?_, ?_⟩
      · have hlength := @one_lt_length_flatRun first (round :: rounds) (List.cons_ne_nil _ _)
        rw [← hsplit, assemble_of_split hlength heq, hleft, hright]
        rfl
      · simp only [Operation.wellShaped, hleft', hsymbol, hright', Bool.and_self]
      · intro hall
        simp only [List.all_append, List.all_cons, Bool.and_eq_true] at hall
        exact hall.2.1

end Lsl
