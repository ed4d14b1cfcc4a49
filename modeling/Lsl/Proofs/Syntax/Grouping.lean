import Lsl.Proofs.Syntax.Run
/-!
# Grouping by precedence

`Grouped` says which operation groups a run, without saying how to find it: the operator in the
center is looser than all operators before it, no operator after it is looser, and both sides are
grouped in turn.  A run is grouped by exactly one operation, and `assemble` finds it.
-/

namespace Lsl

/-- The operation groups the run by the tightness of its operators. -/
inductive Grouped : Element → List (String × Element) → Operation → Prop
  | leaf (first : Element) : Grouped first [] (.leaf first)
  | split {first operand : Element} {symbol : String} {before after : List (String × Element)}
      {left right : Operation}
      (tighter : ∀ round ∈ before, tightness symbol < tightness round.1)
      (noLooser : ∀ round ∈ after, tightness symbol ≤ tightness round.1)
      (groupedLeft : Grouped first before left) (groupedRight : Grouped operand after right) :
      Grouped first (before ++ (symbol, operand) :: after)
        ⟨some (sideNode first before left), some (.text symbol),
          some (sideNode operand after right)⟩

/-! ## Uniqueness -/

/-- A run has only one place with tighter operators before it and no looser ones after it. -/
theorem split_unique {before before' after after' : List (String × Element)}
    {center center' : String × Element}
    (heq : before ++ center :: after = before' ++ center' :: after')
    (tighter : ∀ round ∈ before, tightness center.1 < tightness round.1)
    (noLooser : ∀ round ∈ after, tightness center.1 ≤ tightness round.1)
    (tighter' : ∀ round ∈ before', tightness center'.1 < tightness round.1)
    (noLooser' : ∀ round ∈ after', tightness center'.1 ≤ tightness round.1) :
    before = before' ∧ center = center' ∧ after = after' := by
  rcases append_cons_cases heq with hsame | ⟨between, rfl, rfl⟩ | ⟨between, rfl, rfl⟩
  · exact hsame
  -- Of two such places the operator at the first would be both looser and not looser.
  · have hlt := tighter' center (by simp)
    have hle := noLooser center' (by simp)
    omega
  · have hlt := tighter center' (by simp)
    have hle := noLooser' center (by simp)
    omega

/-- A run is grouped by at most one operation. -/
theorem Grouped.unique {first : Element} {rounds : List (String × Element)}
    {operation other : Operation} (h : Grouped first rounds operation)
    (h' : Grouped first rounds other) : operation = other := by
  induction h generalizing other with
  | leaf first =>
    generalize hrounds : ([] : List (String × Element)) = rounds at h'
    cases h' with
    | leaf => rfl
    | split => simp at hrounds
  | @split first operand symbol before after left right tighter noLooser _ _ ihLeft ihRight =>
    generalize hrounds : before ++ (symbol, operand) :: after = rounds at h'
    cases h' with
    | leaf => simp at hrounds
    | split tighter' noLooser' groupedLeft groupedRight =>
      obtain ⟨rfl, hcenter, rfl⟩ := split_unique hrounds tighter noLooser tighter' noLooser'
      cases hcenter
      rw [ihLeft groupedLeft, ihRight groupedRight]

/-! ## Existence -/

/-- What a run is grouped into by its leftmost operator of the loosest level groups it. -/
theorem exists_grouped {first : Element} {rounds : List (String × Element)}
    (h : IsRun first rounds) :
    ∃ operation, Splitting.leftmost.group (flatRun first rounds) = .ok operation ∧
      Grouped first rounds operation := by
  induction hn : rounds.length using Nat.strongRecOn generalizing first rounds with
  | ind n ih =>
    by_cases hne : rounds = []
    · subst hne
      refine ⟨.leaf first, ?_, .leaf first⟩
      rw [flatRun_nil, Splitting.group]
    · obtain ⟨before, symbol, operand, after, rfl, tighter, noLooser, hsplit⟩ :=
        splitLoosest?_flatRun h hne
      rw [List.length_append, List.length_cons] at hn
      obtain ⟨left, hleft, groupedLeft⟩ := ih before.length (by omega) h.left rfl
      obtain ⟨right, hright, groupedRight⟩ := ih after.length (by omega) h.right rfl
      exact ⟨_, Splitting.group_flatRun hsplit hleft hright,
        .split tighter noLooser groupedLeft groupedRight⟩

/-- A run of operands with binary operators between them is always grouped, and the result is the
one and only operation that groups it by the tightness of its operators. -/
theorem assemble_flatRun_eq_grouped {first : Element} {rounds : List (String × Element)}
    (h : IsRun first rounds) :
    ∃ operation, assemble (flatRun first rounds) = .ok operation ∧
      ∀ other, Grouped first rounds other ↔ other = operation := by
  obtain ⟨operation, hgroup, hgrouped⟩ := exists_grouped h
  refine ⟨operation, (assemble_eq_group _).trans hgroup, ?_⟩
  intro other
  constructor
  · intro hother
    exact hother.unique hgrouped
  · rintro rfl
    exact hgrouped

/-- `x = a - b * c - d`, where `d` is an expression already. -/
theorem assemble_flatRun_eq_grouped_sample :
    IsRun (.text "x") [("=", .text "a"), ("-", .text "b"), ("*", .text "c"),
      ("-", .node (.expression (.leaf (.text "d"))))] ∧
    assemble [.text "x", .text "=", .text "a", .text "-", .text "b", .text "*", .text "c", .text "-",
      .node (.expression (.leaf (.text "d")))] =
    .ok ⟨some (.value (.leaf (.text "x"))), some (.text "="),
      some (.value ⟨some (.value (.leaf (.text "a"))), some (.text "-"),
        some (.value ⟨some (.value ⟨some (.value (.leaf (.text "b"))), some (.text "*"),
          some (.value (.leaf (.text "c")))⟩), some (.text "-"),
          some (.expression (.leaf (.text "d")))⟩)⟩)⟩ := by
  have hrun : IsRun (.text "x") [("=", .text "a"), ("-", .text "b"), ("*", .text "c"),
      ("-", .node (.expression (.leaf (.text "d"))))] := ⟨by decide, by decide⟩
  obtain ⟨operation, hassemble, hunique⟩ := assemble_flatRun_eq_grouped hrun
  have hproduct : Grouped (.text "b") [("*", .text "c")] _ :=
    @Grouped.split _ _ _ [] [] _ _ (by decide) (by decide) (.leaf _) (.leaf _)
  have hlast : Grouped (.text "b") [("*", .text "c"), ("-", .node (.expression (.leaf (.text "d"))))]
      _ :=
    @Grouped.split _ _ _ [("*", .text "c")] [] _ _ (by decide) (by decide) hproduct (.leaf _)
  have hdifference : Grouped (.text "a") [("-", .text "b"), ("*", .text "c"),
      ("-", .node (.expression (.leaf (.text "d"))))] _ :=
    @Grouped.split _ _ _ [] _ _ _ (by decide) (by decide) (.leaf _) hlast
  have hassignment : Grouped (.text "x") [("=", .text "a"), ("-", .text "b"), ("*", .text "c"),
      ("-", .node (.expression (.leaf (.text "d"))))] _ :=
    @Grouped.split _ _ _ [] _ _ _ (by decide) (by decide) (.leaf _) hdifference
  rw [← (hunique _).1 hassignment] at hassemble
  exact ⟨hrun, hassemble⟩

end Lsl
