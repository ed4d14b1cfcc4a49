import Lsl.Proofs.Syntax.Splitting
/-!
# Flat runs of operands and operators

The flat form of an expression is an operand, followed by rounds of a binary operator and an
operand.  Here are the levels of its operators, and where it is split at its loosest one: every
operator before that place binds tighter, and none after it binds looser.
-/

namespace Lsl

/-- The flat form of an expression: an operand, and rounds of an operator and an operand. -/
def flatRun (first : Element) (rounds : List (String × Element)) : List Element :=
  first :: rounds.flatMap fun (symbol, operand) => [.text symbol, operand]

@[simp] theorem flatRun_nil (first : Element) : flatRun first [] = [first] := rfl

@[simp] theorem flatRun_cons (first operand : Element) (symbol : String)
    (rounds : List (String × Element)) :
    flatRun first ((symbol, operand) :: rounds) = first :: .text symbol :: flatRun operand rounds :=
  rfl

theorem flatRun_append (first operand : Element) (symbol : String)
    (before after : List (String × Element)) :
    flatRun first (before ++ (symbol, operand) :: after) =
      flatRun first before ++ .text symbol :: flatRun operand after := by
  simp [flatRun]

theorem one_lt_length_flatRun {first : Element} {rounds : List (String × Element)}
    (hne : rounds ≠ []) : 1 < (flatRun first rounds).length := by
  cases rounds with
  | nil => exact absurd rfl hne
  | cons round rounds => simp [flatRun]

@[simp] theorem Element.level?_text (symbol : String) :
    (Element.text symbol).level? = Level.of? symbol := rfl

/-- Operands that are not taken for operators, with binary operators between them. -/
structure IsRun (first : Element) (rounds : List (String × Element)) : Prop where
  first : first.level? = none
  rounds : ∀ round ∈ rounds, (Level.of? round.1).isSome = true ∧ round.2.level? = none

namespace IsRun

variable {first operand : Element} {symbol : String} {rounds before after : List (String × Element)}

theorem tail (h : IsRun first ((symbol, operand) :: rounds)) : IsRun operand rounds where
  first := (h.rounds _ List.mem_cons_self).2
  rounds round hround := h.rounds round (List.mem_cons_of_mem _ hround)

/-- What stands before an operator of a run is a run. -/
theorem left (h : IsRun first (before ++ (symbol, operand) :: after)) : IsRun first before where
  first := h.first
  rounds round hround := h.rounds round (List.mem_append_left _ hround)

/-- What stands after an operator of a run is a run. -/
theorem right (h : IsRun first (before ++ (symbol, operand) :: after)) : IsRun operand after where
  first := (h.rounds _ (List.mem_append_right _ List.mem_cons_self)).2
  rounds round hround :=
    h.rounds round (List.mem_append_right _ (List.mem_cons_of_mem _ hround))

end IsRun

/-! ## Levels -/

theorem Level.mem_all (level : Level) : level ∈ Level.all := by
  cases level <;> decide

theorem Level.rank_injective {level other : Level} (h : level.rank = other.rank) :
    level = other := by
  cases level <;> cases other <;> first | rfl | cases h

/-- The levels are listed from the loosest to the tightest. -/
theorem Level.pairwise_all : Level.all.Pairwise fun level other => level.rank < other.rank := by
  decide

/-- The place of an operator's level in the order of tightness; 0 for a text that is no operator. -/
def tightness (symbol : String) : Nat :=
  ((Level.of? symbol).map Level.rank).getD 0

theorem tightness_eq {symbol : String} {level : Level} (h : Level.of? symbol = some level) :
    tightness symbol = level.rank := by
  rw [tightness, h]
  rfl

/-- The operators of a level bind alike, and no other operator binds like them. -/
theorem tightness_eq_iff {symbol other : String} (hsymbol : (Level.of? symbol).isSome = true)
    (hother : (Level.of? other).isSome = true) :
    tightness symbol = tightness other ↔ Level.of? symbol = Level.of? other := by
  obtain ⟨level, hlevel⟩ := Option.isSome_iff_exists.1 hsymbol
  obtain ⟨level', hlevel'⟩ := Option.isSome_iff_exists.1 hother
  rw [tightness_eq hlevel, tightness_eq hlevel', hlevel, hlevel', Option.some.injEq]
  constructor
  · exact Level.rank_injective
  · exact congrArg Level.rank

/-- The levels of the operators among the elements. -/
def levels (values : List Element) : List Level :=
  values.filterMap Element.level?

/-- The loosest level occurs, and no operator is looser. -/
theorem loosestLevel?_eq_some {values : List Element} {level : Level}
    (h : loosestLevel? values = some level) :
    level ∈ levels values ∧ ∀ other ∈ levels values, level.rank ≤ other.rank := by
  have hoccurs (level : Level) :
      (values.any fun value => value.level? = some level) = true ↔ level ∈ levels values := by
    simp [levels]
  obtain ⟨hlevel, looser, tighter, hall, hlooser⟩ := List.find?_eq_some_iff_append.1 h
  refine ⟨(hoccurs level).1 hlevel, ?_⟩
  intro other hother
  have hmem : other ∈ looser ++ level :: tighter := hall ▸ other.mem_all
  have hnot : other ∉ looser := by
    intro hother'
    have habsent := hlooser other hother'
    rw [(hoccurs other).2 hother] at habsent
    cases habsent
  rcases List.mem_cons.1 ((List.mem_append.1 hmem).resolve_left hnot) with rfl | hother'
  · exact Nat.le_refl _
  · have hpairs := (List.pairwise_append.1 (hall ▸ Level.pairwise_all)).2.1
    exact Nat.le_of_lt (List.rel_of_pairwise_cons hpairs hother')

theorem exists_loosestLevel? {values : List Element} {level : Level} (h : level ∈ levels values) :
    ∃ loosest, loosestLevel? values = some loosest := by
  rw [← Option.isSome_iff_exists, loosestLevel?, List.find?_isSome]
  refine ⟨level, level.mem_all, ?_⟩
  simpa [levels] using h

/-- The operators of a run are those of its rounds. -/
theorem IsRun.levels_eq {first : Element} {rounds : List (String × Element)}
    (h : IsRun first rounds) :
    levels (flatRun first rounds) = rounds.filterMap fun round => Level.of? round.1 := by
  induction rounds generalizing first with
  | nil => simp [levels, h.first]
  | cons round rounds ih =>
    obtain ⟨symbol, operand⟩ := round
    have hrest := ih h.tail
    unfold levels at hrest ⊢
    rw [flatRun_cons, List.filterMap_cons_none h.first, List.filterMap_cons, List.filterMap_cons,
      hrest]
    rfl

/-- A run with an operator has a loosest level. -/
theorem IsRun.exists_loosest {first : Element} {rounds : List (String × Element)}
    (h : IsRun first rounds) (hne : rounds ≠ []) :
    ∃ level, loosestLevel? (flatRun first rounds) = some level ∧
      (∃ round ∈ rounds, Level.of? round.1 = some level) ∧
      ∀ round ∈ rounds, level.rank ≤ tightness round.1 := by
  have hmem {round : String × Element} {level : Level} (hround : round ∈ rounds)
      (hlevel : Level.of? round.1 = some level) : level ∈ levels (flatRun first rounds) := by
    rw [h.levels_eq]
    exact List.mem_filterMap.2 ⟨round, hround, hlevel⟩
  obtain ⟨round, hround⟩ := List.exists_mem_of_ne_nil _ hne
  obtain ⟨level, hlevel⟩ := Option.isSome_iff_exists.1 (h.rounds round hround).1
  obtain ⟨loosest, hloosest⟩ := exists_loosestLevel? (hmem hround hlevel)
  obtain ⟨hoccurs, hle⟩ := loosestLevel?_eq_some hloosest
  rw [h.levels_eq] at hoccurs
  refine ⟨loosest, hloosest, List.mem_filterMap.1 hoccurs, ?_⟩
  intro other hother
  obtain ⟨level', hlevel'⟩ := Option.isSome_iff_exists.1 (h.rounds other hother).1
  rw [tightness_eq hlevel']
  exact hle level' (hmem hother hlevel')

/-! ## Splitting -/

/-- Two places of one list are the same, or one of them comes before the other. -/
theorem append_cons_cases {α : Type} {before before' after after' : List α} {center center' : α}
    (h : before ++ center :: after = before' ++ center' :: after') :
    (before = before' ∧ center = center' ∧ after = after') ∨
    (∃ between, before' = before ++ center :: between ∧ after = between ++ center' :: after') ∨
    (∃ between, before = before' ++ center' :: between ∧ after' = between ++ center :: after) := by
  rcases List.append_eq_append_iff.1 h with ⟨between, hbefore', hrest⟩ | ⟨between, hbefore, hrest⟩
  · cases between with
    | nil =>
      cases hrest
      exact .inl ⟨by rw [hbefore', List.append_nil], rfl, rfl⟩
    | cons round between =>
      cases hrest
      exact .inr (.inl ⟨between, hbefore', rfl⟩)
  · cases between with
    | nil =>
      cases hrest
      exact .inl ⟨by rw [hbefore, List.append_nil], rfl, rfl⟩
    | cons round between =>
      cases hrest
      exact .inr (.inr ⟨between, hbefore, rfl⟩)

/-- A run that has an operator of a level is split at the first round of it. -/
theorem splitAtLevel_flatRun {level : Level} {first : Element} {rounds : List (String × Element)}
    (h : IsRun first rounds) (hlevel : ∃ round ∈ rounds, Level.of? round.1 = some level) :
    ∃ before symbol operand after, rounds = before ++ (symbol, operand) :: after ∧
      Level.of? symbol = some level ∧ (∀ round ∈ before, Level.of? round.1 ≠ some level) ∧
      splitAtLevel level (flatRun first rounds) =
        some (flatRun first before, .text symbol, flatRun operand after) := by
  induction rounds generalizing first with
  | nil =>
    obtain ⟨_, hround, -⟩ := hlevel
    cases hround
  | cons round rounds ih =>
    obtain ⟨symbol, operand⟩ := round
    by_cases hsymbol : Level.of? symbol = some level
    · refine ⟨[], symbol, operand, rounds, rfl, hsymbol, by simp, ?_⟩
      simp [splitAtLevel, h.first, hsymbol]
    · have hlevel' : ∃ round ∈ rounds, Level.of? round.1 = some level := by
        simpa [hsymbol] using hlevel
      obtain ⟨before, symbol', operand', after, hsplit, hsymbol', hbefore, heq⟩ := ih h.tail hlevel'
      refine ⟨(symbol, operand) :: before, symbol', operand', after, ?_, hsymbol', ?_, ?_⟩
      · rw [hsplit]
        rfl
      · exact List.forall_mem_cons.2 ⟨hsymbol, hbefore⟩
      · simp [splitAtLevel, h.first, hsymbol, heq]

/-- A run with an operator is split at the first of its loosest operators. -/
theorem splitLoosest?_flatRun {first : Element} {rounds : List (String × Element)}
    (h : IsRun first rounds) (hne : rounds ≠ []) :
    ∃ before symbol operand after, rounds = before ++ (symbol, operand) :: after ∧
      (∀ round ∈ before, tightness symbol < tightness round.1) ∧
      (∀ round ∈ after, tightness symbol ≤ tightness round.1) ∧
      splitLoosest? (flatRun first rounds) =
        some (flatRun first before, .text symbol, flatRun operand after) := by
  obtain ⟨level, hloosest, hoccurs, hle⟩ := h.exists_loosest hne
  obtain ⟨before, symbol, operand, after, rfl, hsymbol, hbefore, heq⟩ := splitAtLevel_flatRun h hoccurs
  refine ⟨before, symbol, operand, after, rfl, ?_, ?_, ?_⟩
  · intro round hround
    have hround' := List.mem_append_left ((symbol, operand) :: after) hround
    have hne : tightness symbol ≠ tightness round.1 := by
      rw [Ne, tightness_eq_iff (by rw [hsymbol]; rfl) (h.rounds round hround').1, hsymbol]
      exact fun heq => hbefore round hround heq.symm
    have hle' := hle round hround'
    rw [← tightness_eq hsymbol] at hle'
    omega
  · intro round hround
    rw [tightness_eq hsymbol]
    exact hle round (List.mem_append_right _ (List.mem_cons_of_mem _ hround))
  · rw [splitLoosest?, hloosest]
    exact heq

/-! ## Sides -/

/-- The node that a run is as one side of an operator: a lone expression is that expression itself,
and any other run is a value that holds the operation of the run. -/
def sideNode (first : Element) (rounds : List (String × Element)) (operation : Operation) : Node :=
  match first, rounds with
  | .node node, [] => if node.kind.isExpression then node else .value operation
  | _, _ => .value operation

/-- As a side, a run stands for the operation that it is grouped into. -/
theorem Splitting.side_flatRun {s : Splitting} {first : Element} {rounds : List (String × Element)}
    {operation : Operation} (h : s.group (flatRun first rounds) = .ok operation) :
    s.side (flatRun first rounds) = .ok (some (sideNode first rounds operation)) := by
  cases rounds with
  | nil =>
    rw [flatRun_nil, group] at h
    cases h
    rw [flatRun_nil, side]
    cases first <;> rfl
  | cons round rounds =>
    rw [flatRun_cons] at h ⊢
    rw [side, h]
    cases first <;> rfl

/-- A run that is split at one of its rounds is grouped when both of its sides are. -/
theorem Splitting.group_flatRun {s : Splitting} {first operand : Element} {symbol : String}
    {before after : List (String × Element)} {left right : Operation}
    (hsplit : s.split? (flatRun first (before ++ (symbol, operand) :: after)) =
      some (flatRun first before, .text symbol, flatRun operand after))
    (hleft : s.group (flatRun first before) = .ok left)
    (hright : s.group (flatRun operand after) = .ok right) :
    s.group (flatRun first (before ++ (symbol, operand) :: after)) =
      .ok ⟨some (sideNode first before left), some (.text symbol),
        some (sideNode operand after right)⟩ := by
  rw [group_of_split (one_lt_length_flatRun (by simp)) hsplit, side_flatRun hleft,
    side_flatRun hright]
  rfl

end Lsl
