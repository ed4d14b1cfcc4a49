import Lsl.Proofs.Syntax.Lexemes
import Lsl.Proofs.Syntax.Run
/-!
# The conventional grouping

By convention operators of one level are taken from left to right, and only assignments from right
to left.  Grouping at the leftmost operator of the loosest level takes all of them from right to
left. The two agree on a run exactly if it has no chain: no two operators of one level, other than
assignments, without a looser one between them.
-/

namespace Lsl

/-- The elements before the last operator of a level, that operator, and the elements after it. -/
def splitAtLast (level : Level) : List Element → Option (List Element × Element × List Element)
  | [] => none
  | value :: rest =>
    match splitAtLast level rest with
    | some (before, center, after) => some (value :: before, center, after)
    | none => if value.level? = some level then some ([], value, rest) else none

theorem eq_of_splitAtLast {level : Level} {values before after : List Element} {center : Element}
    (h : splitAtLast level values = some (before, center, after)) :
    values = before ++ center :: after := by
  induction values generalizing before with
  | nil => cases h
  | cons value rest ih =>
    rw [splitAtLast] at h
    split at h
    · next hrest =>
      cases h
      rw [ih hrest, List.cons_append]
    · split at h
      · cases h
        rfl
      · cases h

/-- A run split by convention: at the leftmost assignment if there is one, and else at the rightmost
operator of the loosest level. -/
def splitConventional? (values : List Element) : Option (List Element × Element × List Element) :=
  (loosestLevel? values).bind fun level =>
    if level = .assign then splitAtLevel level values else splitAtLast level values

theorem eq_of_splitConventional? {values before after : List Element} {center : Element}
    (h : splitConventional? values = some (before, center, after)) :
    values = before ++ center :: after := by
  obtain ⟨level, -, h⟩ := Option.bind_eq_some_iff.1 h
  split at h
  · exact eq_of_splitAtLevel h
  · exact eq_of_splitAtLast h

/-- The split that takes assignments from right to left and all other operators from left to right.
-/
def Splitting.conventional : Splitting where
  split? := splitConventional?
  eq_of_split? := eq_of_splitConventional?

/-! ## Where runs are split -/

theorem splitAtLast_eq_none {level : Level} {values : List Element} (h : level ∉ levels values) :
    splitAtLast level values = none := by
  induction values with
  | nil => rfl
  | cons value rest ih =>
    have hvalue : value.level? ≠ some level := by
      intro hvalue
      exact h (List.mem_filterMap.2 ⟨value, List.mem_cons_self, hvalue⟩)
    have hrest : level ∉ levels rest := by
      intro hrest
      obtain ⟨other, hother, hlevel⟩ := List.mem_filterMap.1 hrest
      exact h (List.mem_filterMap.2 ⟨other, List.mem_cons_of_mem _ hother, hlevel⟩)
    rw [splitAtLast, ih hrest]
    exact if_neg hvalue

/-- A run that has an operator of a level is split at the last round of it. -/
theorem splitAtLast_flatRun {level : Level} {first : Element} {rounds : List (String × Element)}
    (h : IsRun first rounds) (hlevel : ∃ round ∈ rounds, Level.of? round.1 = some level) :
    ∃ before symbol operand after, rounds = before ++ (symbol, operand) :: after ∧
      Level.of? symbol = some level ∧ (∀ round ∈ after, Level.of? round.1 ≠ some level) ∧
      splitAtLast level (flatRun first rounds) =
        some (flatRun first before, .text symbol, flatRun operand after) := by
  induction rounds generalizing first with
  | nil =>
    obtain ⟨_, hround, -⟩ := hlevel
    cases hround
  | cons round rounds ih =>
    obtain ⟨symbol, operand⟩ := round
    by_cases hrest : ∃ round ∈ rounds, Level.of? round.1 = some level
    · obtain ⟨before, symbol', operand', after, hsplit, hsymbol', hafter, heq⟩ := ih h.tail hrest
      refine ⟨(symbol, operand) :: before, symbol', operand', after, ?_, hsymbol', hafter, ?_⟩
      · rw [hsplit]
        rfl
      · simp [splitAtLast, heq]
    · have hsymbol : Level.of? symbol = some level := by
        obtain ⟨round, hround, hround'⟩ := hlevel
        rcases List.mem_cons.1 hround with rfl | hmem
        · exact hround'
        · exact absurd ⟨round, hmem, hround'⟩ hrest
      have hnone : splitAtLast level (flatRun operand rounds) = none := by
        apply splitAtLast_eq_none
        rw [h.tail.levels_eq]
        intro hmem
        exact hrest (List.mem_filterMap.1 hmem)
      refine ⟨[], symbol, operand, rounds, rfl, hsymbol, ?_, ?_⟩
      · intro round hround hround'
        exact hrest ⟨round, hround, hround'⟩
      · simp [splitAtLast, hnone, hsymbol]

/-- The two ways to split a run at a loosest operator meet, if this is an assignment or the only one
of its level, or else the conventional place is further to the right. -/
theorem splits_flatRun {first : Element} {rounds : List (String × Element)}
    (h : IsRun first rounds) (hne : rounds ≠ []) :
    ∃ before symbol operand after, rounds = before ++ (symbol, operand) :: after ∧
      (∀ round ∈ rounds, tightness symbol ≤ tightness round.1) ∧
      Splitting.leftmost.split? (flatRun first rounds) =
        some (flatRun first before, .text symbol, flatRun operand after) ∧
      ((Splitting.conventional.split? (flatRun first rounds) =
          some (flatRun first before, .text symbol, flatRun operand after) ∧
        ∀ round ∈ before ++ after, Level.of? round.1 = Level.of? symbol →
          Level.of? symbol = some .assign) ∨
      ∃ between symbol' operand' after', after = between ++ (symbol', operand') :: after' ∧
        Level.of? symbol = Level.of? symbol' ∧ Level.of? symbol ≠ some .assign ∧
        Splitting.conventional.split? (flatRun first rounds) =
          some (flatRun first (before ++ (symbol, operand) :: between), .text symbol',
            flatRun operand' after')) := by
  obtain ⟨level, hloosest, hoccurs, hle⟩ := h.exists_loosest hne
  obtain ⟨before, symbol, operand, after, hrounds, hsymbol, hbefore, hleft⟩ :=
    splitAtLevel_flatRun h hoccurs
  have hleftmost : Splitting.leftmost.split? (flatRun first rounds) =
      some (flatRun first before, .text symbol, flatRun operand after) := by
    show splitLoosest? _ = _
    rw [splitLoosest?, hloosest]
    exact hleft
  have hconventional : Splitting.conventional.split? (flatRun first rounds) =
      if level = .assign then splitAtLevel level (flatRun first rounds)
      else splitAtLast level (flatRun first rounds) := by
    show splitConventional? _ = _
    rw [splitConventional?, hloosest]
    rfl
  rw [← tightness_eq hsymbol] at hle
  refine ⟨before, symbol, operand, after, hrounds, hle, hleftmost, ?_⟩
  by_cases hassign : level = .assign
  · rw [if_pos hassign, hleft] at hconventional
    exact .inl ⟨hconventional, fun _ _ _ => hassign ▸ hsymbol⟩
  · obtain ⟨before', symbol', operand', after', hrounds', hsymbol', hafter', hlast⟩ :=
      splitAtLast_flatRun h hoccurs
    rw [if_neg hassign, hlast] at hconventional
    rcases append_cons_cases (hrounds.symm.trans hrounds') with
      ⟨rfl, hcenter, rfl⟩ | ⟨between, rfl, rfl⟩ | ⟨between, rfl, -⟩
    · cases hcenter
      refine .inl ⟨hconventional, ?_⟩
      intro round hround hsame
      rw [hsymbol] at hsame
      rcases List.mem_append.1 hround with hround | hround
      · exact absurd hsame (hbefore round hround)
      · exact absurd hsame (hafter' round hround)
    · refine .inr ⟨between, symbol', operand', after', rfl, ?_, ?_, hconventional⟩
      · rw [hsymbol, hsymbol']
      · rw [hsymbol]
        exact fun heq => hassign (Option.some.inj heq)
    -- The last operator of the level cannot stand before the first one.
    · exact absurd hsymbol' (hbefore _ (List.mem_append_right _ List.mem_cons_self))

/-! ## Chains -/

/-- Two operators of one level, which is not that of assignments, with no looser operator between
them. -/
def HasChain (rounds : List (String × Element)) : Prop :=
  ∃ before first between second after, rounds = before ++ first :: (between ++ second :: after) ∧
    Level.of? first.1 = Level.of? second.1 ∧ Level.of? first.1 ≠ some .assign ∧
    ∀ round ∈ between, tightness first.1 ≤ tightness round.1

theorem HasChain.append_right {rounds : List (String × Element)} (h : HasChain rounds)
    (after : List (String × Element)) : HasChain (rounds ++ after) := by
  obtain ⟨before, first, between, second, rest, rfl, halike⟩ := h
  exact ⟨before, first, between, second, rest ++ after, by simp, halike⟩

theorem HasChain.append_left {rounds : List (String × Element)} (h : HasChain rounds)
    (before : List (String × Element)) : HasChain (before ++ rounds) := by
  obtain ⟨rest, first, between, second, after, rfl, halike⟩ := h
  exact ⟨before ++ rest, first, between, second, after, by simp, halike⟩

/-- A loosest operator that is an assignment or the only one of its level is no part of a chain, and
parts every other. -/
theorem hasChain_split_iff {before after : List (String × Element)} {center : String × Element}
    (hoperators : ∀ round ∈ before ++ center :: after, (Level.of? round.1).isSome = true)
    (hloosest : ∀ round ∈ before ++ center :: after, tightness center.1 ≤ tightness round.1)
    (hsole : ∀ round ∈ before ++ after, Level.of? round.1 = Level.of? center.1 →
      Level.of? center.1 = some .assign) :
    HasChain (before ++ center :: after) ↔ HasChain before ∨ HasChain after := by
  constructor
  · rintro ⟨before', first, between, second, after', heq, hlevels, hassign, htight⟩
    rcases append_cons_cases heq with ⟨rfl, rfl, rfl⟩ | ⟨rest, rfl, rfl⟩ | ⟨rest, rfl, hrest⟩
    · -- The chain starts at the center.
      exact absurd (hsole second (by simp) hlevels.symm) hassign
    · -- It starts after the center.
      exact .inr ⟨rest, first, between, second, after', rfl, hlevels, hassign, htight⟩
    · have hfirst := hsole first (by simp)
      rcases append_cons_cases hrest with ⟨rfl, rfl, rfl⟩ | ⟨rest', rfl, rfl⟩ | ⟨rest', rfl, rfl⟩
      · -- It ends at the center.
        exact absurd (hlevels.trans (hfirst hlevels)) hassign
      · -- It ends before the center.
        exact .inl ⟨before', first, between, second, rest', rfl, hlevels, hassign, htight⟩
      · -- The center lies inside it, and then binds like its ends.
        have hle := htight center (by simp)
        have hle' := hloosest first (by simp)
        have hsame : Level.of? first.1 = Level.of? center.1 := by
          rw [← tightness_eq_iff (hoperators first (by simp)) (hoperators center (by simp))]
          omega
        exact absurd (hsame.trans (hfirst hsame)) hassign
  · rintro (h | h)
    · exact h.append_right _
    · have h' := h.append_left (before ++ [center])
      rwa [List.append_assoc, List.singleton_append] at h'

/-! ## Trees that agree -/

section

variable {s t : Splitting} {first operand : Element} {symbol : String}
  {rounds before between : List (String × Element)} {operation operation' : Operation}

/-- As sides, a run's operations are told apart. -/
theorem sideNode_eq_iff (h : s.group (flatRun first rounds) = .ok operation)
    (h' : t.group (flatRun first rounds) = .ok operation') :
    sideNode first rounds operation = sideNode first rounds operation' ↔
      operation = operation' := by
  constructor
  · intro heq
    cases rounds with
    | nil =>
      rw [flatRun_nil, Splitting.group] at h h'
      cases h
      cases h'
      rfl
    | cons round rounds =>
      cases first <;> exact Node.value.inj heq
  · rintro rfl
    rfl

/-- A run and a longer one that it begins differ as sides, however they are grouped: the longer one
has more words. -/
theorem sideNode_ne_of_longer (h : s.group (flatRun first before) = .ok operation)
    (h' : t.group (flatRun first (before ++ (symbol, operand) :: between)) = .ok operation') :
    sideNode first before operation ≠
      sideNode first (before ++ (symbol, operand) :: between) operation' := by
  intro heq
  have hwords := (Splitting.lexemes_group _).2 (Splitting.side_flatRun h)
  have hwords' := (Splitting.lexemes_group _).2 (Splitting.side_flatRun h')
  rw [heq, hwords', flatRun_append, List.flatMap_append, List.flatMap_cons,
    Element.lexemes_text] at hwords
  have hlength := congrArg List.length hwords
  simp only [List.length_append, List.length_singleton] at hlength
  omega

end

/-- Both ways group every run, and the operations are the same exactly if the run has no chain. -/
theorem exists_groups {first : Element} {rounds : List (String × Element)}
    (h : IsRun first rounds) :
    ∃ operation operation', Splitting.leftmost.group (flatRun first rounds) = .ok operation ∧
      Splitting.conventional.group (flatRun first rounds) = .ok operation' ∧
      (operation = operation' ↔ ¬ HasChain rounds) := by
  induction hn : rounds.length using Nat.strongRecOn generalizing first rounds with
  | ind n ih =>
    by_cases hne : rounds = []
    · subst hne
      refine ⟨.leaf first, .leaf first, by rw [flatRun_nil, Splitting.group],
        by rw [flatRun_nil, Splitting.group], ?_⟩
      simp [HasChain]
    · obtain ⟨before, symbol, operand, after, rfl, hloosest, hsplit, hcases⟩ := splits_flatRun h hne
      rw [List.length_append, List.length_cons] at hn
      obtain ⟨left, left', hleft, hleft', hleftChain⟩ := ih before.length (by omega) h.left rfl
      obtain ⟨right, right', hright, hright', hrightChain⟩ := ih after.length (by omega) h.right rfl
      have hgroup := Splitting.group_flatRun hsplit hleft hright
      rcases hcases with ⟨hsplit', hsole⟩ |
        ⟨between, symbol', operand', after', rfl, hlevels, hassign, hsplit'⟩
      · -- Both are split at the same place, so they agree if their sides do.
        refine ⟨_, _, hgroup, Splitting.group_flatRun hsplit' hleft' hright', ?_⟩
        have hoperators := fun round hround => (h.rounds round hround).1
        rw [hasChain_split_iff hoperators hloosest hsole, not_or, ← hleftChain, ← hrightChain,
          ← sideNode_eq_iff hleft hleft', ← sideNode_eq_iff hright hright']
        simp
      · -- The conventional split is further to the right: there is a chain, and the left sides differ.
        rw [List.length_append, List.length_cons] at hn
        have hrun : IsRun first
            ((before ++ (symbol, operand) :: between) ++ (symbol', operand') :: after') := by
          simpa using h
        obtain ⟨_, left'', -, hleft'', -⟩ :=
          ih (before ++ (symbol, operand) :: between).length (by simp; omega) hrun.left rfl
        obtain ⟨_, right'', -, hright'', -⟩ := ih after'.length (by omega) hrun.right rfl
        have hassoc : before ++ (symbol, operand) :: (between ++ (symbol', operand') :: after') =
            (before ++ (symbol, operand) :: between) ++ (symbol', operand') :: after' := by simp
        rw [hassoc] at hsplit'
        have hgroup' := Splitting.group_flatRun hsplit' hleft'' hright''
        rw [← hassoc] at hgroup'
        refine ⟨_, _, hgroup, hgroup', ?_⟩
        have hchain : HasChain
            (before ++ (symbol, operand) :: (between ++ (symbol', operand') :: after')) :=
          ⟨before, (symbol, operand), between, (symbol', operand'), after', rfl, hlevels, hassign,
            fun round hround => hloosest round (by simp [hround])⟩
        have hdiffer := sideNode_ne_of_longer hleft hleft''
        simp [hchain, hdiffer]

/-- The grouping of a run is the conventional one exactly if the run has no chain: no two operators
of one level other than assignments without a looser operator between them. -/
theorem assemble_eq_conventional_iff {first : Element} {rounds : List (String × Element)}
    (h : IsRun first rounds) :
    assemble (flatRun first rounds) = Splitting.conventional.group (flatRun first rounds) ↔
      ¬ HasChain rounds := by
  obtain ⟨operation, operation', hgroup, hgroup', hchain⟩ := exists_groups h
  rw [assemble_eq_group, hgroup, hgroup', ← hchain, Except.ok.injEq]

/-- The subtractions of `a - b * c - d` make a chain, and the assignments of `x = y = z` do not. -/
theorem assemble_eq_conventional_iff_sample :
    (IsRun (.text "a") [("-", .text "b"), ("*", .text "c"), ("-", .text "d")] ∧
      assemble (flatRun (.text "a") [("-", .text "b"), ("*", .text "c"), ("-", .text "d")]) ≠
        Splitting.conventional.group
          (flatRun (.text "a") [("-", .text "b"), ("*", .text "c"), ("-", .text "d")])) ∧
    IsRun (.text "x") [("=", .text "y"), ("=", .text "z")] ∧
      assemble (flatRun (.text "x") [("=", .text "y"), ("=", .text "z")]) =
        Splitting.conventional.group
          (flatRun (.text "x") [("=", .text "y"), ("=", .text "z")]) := by
  have hminus : IsRun (.text "a") [("-", .text "b"), ("*", .text "c"), ("-", .text "d")] :=
    ⟨by decide, by decide⟩
  have hassign : IsRun (.text "x") [("=", .text "y"), ("=", .text "z")] := ⟨by decide, by decide⟩
  refine ⟨⟨hminus, ?_⟩, hassign, ?_⟩
  · intro heq
    apply (assemble_eq_conventional_iff hminus).1 heq
    exact ⟨[], ("-", .text "b"), [("*", .text "c")], ("-", .text "d"), [], rfl, rfl, by decide,
      by decide⟩
  · apply (assemble_eq_conventional_iff hassign).2
    rintro ⟨before, first, between, second, after, heq, -, hfirst, -⟩
    have hall : ∀ round ∈ [("=", Element.text "y"), ("=", Element.text "z")],
        Level.of? round.1 = some .assign := by decide
    exact hfirst (hall first (by simp [heq]))

end Lsl
