import Lsl.Proofs.Peg.Progress
/-!
# The calls of a match

Matching a pattern comes down to matching parts of it, each where the parts before it led to.  A table
of ranks shows that these calls cannot go on for ever: from one call to the next either a character is
consumed or the height of the pattern falls.  Hence matching comes to an end, and no rule comes back
to itself before a character is consumed.
-/

namespace Lsl.Peg

variable {ρ : Type}

/-- A pattern to be matched at a cursor, inside an atomic rule or not. -/
structure Goal (ρ : Type) where
  atomic : Bool
  pattern : Pattern ρ
  start : Cursor

/-- Matching the first goal calls for matching the second. A later part of a pattern is called for
only if the parts before it let the match come that far. -/
inductive Grammar.Calls (g : Grammar ρ) : Goal ρ → Goal ρ → Prop
  | rule {atomic r c} :
      Calls g ⟨atomic, .rule r, c⟩ ⟨atomic || g.isAtomic r, g.pattern r, c⟩
  | seqFirst {atomic p q c} : Calls g ⟨atomic, .seq p q, c⟩ ⟨atomic, p, c⟩
  | seqBetween {atomic p q c c₁ ts} : Derives g atomic p c (some (c₁, ts)) →
      Calls g ⟨atomic, .seq p q, c⟩ ⟨true, g.between atomic, c₁⟩
  | seqSecond {atomic p q c c₁ c₂ ts gs} : Derives g atomic p c (some (c₁, ts)) →
      Derives g true (g.between atomic) c₁ (some (c₂, gs)) →
      Calls g ⟨atomic, .seq p q, c⟩ ⟨atomic, q, c₂⟩
  | altFirst {atomic p q c} : Calls g ⟨atomic, .alt p q, c⟩ ⟨atomic, p, c⟩
  | altSecond {atomic p q c} : Derives g atomic p c none →
      Calls g ⟨atomic, .alt p q, c⟩ ⟨atomic, q, c⟩
  | starFirst {atomic p c} : Calls g ⟨atomic, .star p, c⟩ ⟨atomic, p, c⟩
  | starMore {atomic p c c₁ ts} : Derives g atomic p c (some (c₁, ts)) →
      Calls g ⟨atomic, .star p, c⟩ ⟨atomic, .more p, c₁⟩
  | moreBetween {atomic p c} : Calls g ⟨atomic, .more p, c⟩ ⟨true, g.between atomic, c⟩
  | moreRound {atomic p c c₁ gs} : Derives g true (g.between atomic) c (some (c₁, gs)) →
      Calls g ⟨atomic, .more p, c⟩ ⟨atomic, p, c₁⟩
  | moreMore {atomic p c c₁ c₂ gs ts} : Derives g true (g.between atomic) c (some (c₁, gs)) →
      Derives g atomic p c₁ (some (c₂, ts)) → Calls g ⟨atomic, .more p, c⟩ ⟨atomic, .more p, c₂⟩
  | ahead {atomic p c} : Calls g ⟨atomic, .ahead p, c⟩ ⟨atomic, p, c⟩
  | notAhead {atomic p c} : Calls g ⟨atomic, .notAhead p, c⟩ ⟨atomic, p, c⟩
  | push {atomic p c} : Calls g ⟨atomic, .push p, c⟩ ⟨atomic, p, c⟩

/-- Whatever such goals call for is such a goal as well. -/
def Grammar.Closed (g : Grammar ρ) (goals : Goal ρ → Prop) : Prop :=
  ∀ ⦃goal goal'⦄, goals goal → g.Calls goal goal' → goals goal'

theorem Grammar.closed_true (g : Grammar ρ) : g.Closed fun _ => True :=
  fun _ _ _ _ => trivial

/-- A call goes on where the match has come to. -/
theorem Grammar.Calls.spans {g : Grammar ρ} {goal goal' : Goal ρ} (h : g.Calls goal goal') :
    ∃ text, goal.start.Spans text goal'.start := by
  cases h with
  | seqBetween h₁ => exact h₁.spans
  | starMore h₁ => exact h₁.spans
  | moreRound h₁ => exact h₁.spans
  | seqSecond h₁ h₂ =>
    obtain ⟨_, hs₁⟩ := h₁.spans
    obtain ⟨_, hs₂⟩ := h₂.spans
    exact ⟨_, hs₁.trans hs₂⟩
  | moreMore h₁ h₂ =>
    obtain ⟨_, hs₁⟩ := h₁.spans
    obtain ⟨_, hs₂⟩ := h₂.spans
    exact ⟨_, hs₁.trans hs₂⟩
  | _ => exact ⟨_, .refl _⟩

/-! ## A match ends if its calls do -/

namespace Grammar

variable {g : Grammar ρ}

private theorem andThen_ne_stuck {o : Outcome ρ}
    {next : Cursor → List (ParseTree ρ) → Outcome ρ} (ho : o ≠ .stuck)
    (hnext : ∀ c ts, o = .ok c ts → next c ts ≠ .stuck) : o.andThen next ≠ .stuck := by
  cases o with
  | ok c ts => exact hnext c ts rfl
  | fail => exact nofun
  | stuck => exact absurd rfl ho

private theorem orElse_ne_stuck {o next : Outcome ρ} (ho : o ≠ .stuck)
    (hnext : o = .fail → next ≠ .stuck) : o.orElse next ≠ .stuck := by
  cases o with
  | ok => exact nofun
  | fail => exact hnext rfl
  | stuck => exact absurd rfl ho

private theorem derives_ok {n : Nat} {atomic : Bool} {p : Pattern ρ} {c c' : Cursor}
    {ts : List (ParseTree ρ)} (h : g.outcome n atomic p c = .ok c' ts) :
    Derives g atomic p c (some (c', ts)) :=
  derives_of_outcome h

private theorem derives_fail {n : Nat} {atomic : Bool} {p : Pattern ρ} {c : Cursor}
    (h : g.outcome n atomic p c = .fail) : Derives g atomic p c none :=
  derives_of_outcome h

/-- One level of depth more than its calls need is enough for a match. -/
theorem outcome_ne_stuck_of_calls {n : Nat} {atomic : Bool} {p : Pattern ρ} {c : Cursor}
    (h : ∀ atomic' p' c', g.Calls ⟨atomic, p, c⟩ ⟨atomic', p', c'⟩ →
      g.outcome n atomic' p' c' ≠ .stuck) : g.outcome (n + 1) atomic p c ≠ .stuck := by
  have basic {f : Cursor → Option Cursor} (hf : p.step? = some f) :
      g.outcome (n + 1) atomic p c ≠ .stuck := by
    rw [outcome_step g n atomic c hf]
    exact Result.toOutcome_ne_stuck _
  cases p with
  | lit | caseless | one | startOfInput | endOfInput | pushLit | drop | peek => exact basic rfl
  | rule r =>
    cases hs : g.isSilent r with
    | true =>
      rw [outcome_silent g n atomic c hs]
      exact h _ _ _ .rule
    | false =>
      rw [outcome_node g n atomic c hs]
      exact andThen_ne_stuck (h _ _ _ .rule) fun _ _ _ => nofun
  | seq p q =>
    rw [outcome_seq]
    apply andThen_ne_stuck (h _ _ _ .seqFirst)
    intro c₁ ts h₁
    apply andThen_ne_stuck (h _ _ _ (.seqBetween (derives_ok h₁)))
    intro c₂ gs h₂
    apply andThen_ne_stuck (h _ _ _ (.seqSecond (derives_ok h₁) (derives_ok h₂)))
    exact fun _ _ _ => nofun
  | alt p q =>
    rw [outcome_alt]
    apply orElse_ne_stuck (h _ _ _ .altFirst)
    exact fun h₁ => h _ _ _ (.altSecond (derives_fail h₁))
  | star p =>
    rw [outcome_star]
    refine orElse_ne_stuck ?_ fun _ => nofun
    apply andThen_ne_stuck (h _ _ _ .starFirst)
    intro c₁ ts h₁
    apply andThen_ne_stuck (h _ _ _ (.starMore (derives_ok h₁)))
    exact fun _ _ _ => nofun
  | more p =>
    rw [outcome_more]
    refine orElse_ne_stuck ?_ fun _ => nofun
    apply andThen_ne_stuck
    · apply andThen_ne_stuck (h _ _ _ .moreBetween)
      exact fun c₁ gs h₁ => h _ _ _ (.moreRound (derives_ok h₁))
    · intro c₂ ts h₂
      obtain ⟨c₁, gs, h₁, h₂⟩ | ⟨-, h₂⟩ :=
        Result.andThen_eq (h₂.trans rfl : _ = Result.toOutcome (some (c₂, ts)))
      · apply andThen_ne_stuck (h _ _ _ (.moreMore (derives_ok h₁) (derives_ok h₂)))
        exact fun _ _ _ => nofun
      · cases h₂
  | ahead p =>
    rw [outcome_ahead]
    exact andThen_ne_stuck (h _ _ _ .ahead) fun _ _ _ => nofun
  | notAhead p =>
    rw [outcome_notAhead]
    cases h₁ : g.outcome n atomic p c with
    | stuck => exact absurd h₁ (h _ _ _ .notAhead)
    | ok | fail => exact nofun
  | push p =>
    rw [outcome_push]
    exact andThen_ne_stuck (h _ _ _ .push) fun _ _ _ => nofun

end Grammar

/-! ## Ranks -/

/-- A table that shows that matching ends: the rules that consume a character, and for every rule
how deep the recursion can go below it before a character is consumed. -/
structure Ranking (ρ : Type) where
  consumes : ρ → Bool
  rank : ρ → Nat
  /-- The depth below a gap. -/
  gap : Nat

namespace Ranking

variable (k : Ranking ρ)

/-- The depth below what stands between the parts of a pattern. -/
def between (atomic : Bool) : Nat :=
  if atomic then 1 else k.gap

/-- How deep the recursion can go at a pattern before a character is consumed. -/
def height (atomic : Bool) : Pattern ρ → Nat
  | .rule r => k.rank r + 1
  | .seq p q =>
    max (height atomic p)
      (max (k.between atomic) (if p.consumes k.consumes then 0 else height atomic q)) + 1
  | .alt p q => max (height atomic p) (height atomic q) + 1
  | .star p | .ahead p | .notAhead p | .push p => height atomic p + 1
  | .more p => max (k.between atomic) (height atomic p) + 1
  | _ => 1

/-- All parts of the pattern are below the limit, and its repetitions consume in every round. -/
def bounds (limit : Nat) (atomic : Bool) : Pattern ρ → Bool
  | .seq p q | .alt p q =>
    k.height atomic q ≤ limit && bounds limit atomic p && bounds limit atomic q
  | .star p | .more p =>
    p.consumes k.consumes && k.height atomic (.more p) ≤ limit && bounds limit atomic p
  | .ahead p | .notAhead p | .push p => bounds limit atomic p
  | _ => true

/-- The table is right for a grammar. -/
structure Fits (g : Grammar ρ) (limit : Nat) : Prop where
  consuming : g.Consuming k.consumes
  height_le (atomic : Bool) (r : ρ) :
    k.height (atomic || g.isAtomic r) (g.pattern r) ≤ k.rank r
  bounds (atomic : Bool) (r : ρ) :
    k.bounds limit (atomic || g.isAtomic r) (g.pattern r) = true
  height_gap : k.height true g.gap ≤ k.gap
  bounds_gap : k.bounds limit true g.gap = true

/-- A depth that is enough for a goal: `limit` levels for each character that remains, and the height
of the pattern. -/
def depth (limit : Nat) (goal : Goal ρ) : Nat :=
  limit * goal.start.rest.length + k.height goal.atomic goal.pattern

theorem height_pos (atomic : Bool) (p : Pattern ρ) : 0 < k.height atomic p := by
  cases p <;> simp [height]

variable {k} {limit : Nat} {goal goal' : Goal ρ}

theorem depth_lt_of_height_lt (hlength : goal'.start.rest.length ≤ goal.start.rest.length)
    (hheight : k.height goal'.atomic goal'.pattern < k.height goal.atomic goal.pattern) :
    k.depth limit goal' < k.depth limit goal := by
  have := Nat.mul_le_mul_left limit hlength
  unfold depth
  omega

/-- After a character is consumed there is room for any part below the limit. -/
theorem depth_lt_of_length_lt (hlength : goal'.start.rest.length < goal.start.rest.length)
    (hlimit : k.height goal'.atomic goal'.pattern ≤ limit) :
    k.depth limit goal' < k.depth limit goal := by
  have hroom := Nat.mul_le_mul_left limit (Nat.succ_le_of_lt hlength)
  have := k.height_pos goal.atomic goal.pattern
  rw [Nat.mul_succ] at hroom
  unfold depth
  omega

end Ranking

/-- The table bounds the pattern of the goal. -/
def Goal.Bounded (k : Ranking ρ) (limit : Nat) (goal : Goal ρ) : Prop :=
  k.bounds limit goal.atomic goal.pattern = true

namespace Grammar

variable {g : Grammar ρ} {k : Ranking ρ} {limit : Nat}

theorem height_between (hk : k.Fits g limit) (atomic : Bool) :
    k.height true (g.between atomic) ≤ k.between atomic := by
  unfold between Ranking.between
  split
  · exact Nat.le_refl 1
  · exact hk.height_gap

theorem bounds_between (hk : k.Fits g limit) (atomic : Bool) :
    k.bounds limit true (g.between atomic) = true := by
  unfold between
  split
  · rfl
  · exact hk.bounds_gap

/-- With every call the depth that is still needed falls. -/
theorem Calls.depth_lt (hk : k.Fits g limit) {goal goal' : Goal ρ} (h : g.Calls goal goal')
    (hgoal : goal.Bounded k limit) :
    goal'.Bounded k limit ∧ k.depth limit goal' < k.depth limit goal := by
  unfold Goal.Bounded at hgoal ⊢
  cases h with
  | rule =>
    refine ⟨hk.bounds _ _, Ranking.depth_lt_of_height_lt (Nat.le_refl _) ?_⟩
    exact Nat.lt_succ_of_le (hk.height_le _ _)
  | seqFirst =>
    simp only [Ranking.bounds, Bool.and_eq_true] at hgoal
    refine ⟨hgoal.1.2, Ranking.depth_lt_of_height_lt (Nat.le_refl _) ?_⟩
    simp only [Ranking.height]
    omega
  | @seqBetween atomic p q c c₁ ts h₁ =>
    refine ⟨bounds_between hk atomic, Ranking.depth_lt_of_height_lt h₁.length_le ?_⟩
    have := height_between hk atomic
    simp only [Ranking.height]
    omega
  | @seqSecond atomic p q c c₁ c₂ ts gs h₁ h₂ =>
    simp only [Ranking.bounds, Bool.and_eq_true, decide_eq_true_eq] at hgoal
    have hle₁ := h₁.length_le
    have hle₂ := h₂.length_le
    refine ⟨hgoal.2, ?_⟩
    by_cases hp : p.consumes k.consumes = true
    · have hlt := h₁.length_lt hk.consuming hp
      exact Ranking.depth_lt_of_length_lt (Nat.lt_of_le_of_lt hle₂ hlt) hgoal.1.1
    · apply Ranking.depth_lt_of_height_lt (Nat.le_trans hle₂ hle₁)
      simp only [Ranking.height, if_neg hp]
      omega
  | altFirst =>
    simp only [Ranking.bounds, Bool.and_eq_true] at hgoal
    refine ⟨hgoal.1.2, Ranking.depth_lt_of_height_lt (Nat.le_refl _) ?_⟩
    simp only [Ranking.height]
    omega
  | altSecond =>
    simp only [Ranking.bounds, Bool.and_eq_true] at hgoal
    refine ⟨hgoal.2, Ranking.depth_lt_of_height_lt (Nat.le_refl _) ?_⟩
    simp only [Ranking.height]
    omega
  | starFirst =>
    simp only [Ranking.bounds, Bool.and_eq_true] at hgoal
    exact ⟨hgoal.2, Ranking.depth_lt_of_height_lt (Nat.le_refl _) (Nat.lt_succ_self _)⟩
  | starMore h₁ =>
    have hmore := hgoal
    simp only [Ranking.bounds, Bool.and_eq_true, decide_eq_true_eq] at hgoal
    have hlt := h₁.length_lt hk.consuming hgoal.1.1
    exact ⟨hmore, Ranking.depth_lt_of_length_lt hlt hgoal.1.2⟩
  | @moreBetween atomic p c =>
    refine ⟨bounds_between hk atomic, Ranking.depth_lt_of_height_lt (Nat.le_refl _) ?_⟩
    have := height_between hk atomic
    simp only [Ranking.height]
    omega
  | moreRound h₁ =>
    simp only [Ranking.bounds, Bool.and_eq_true] at hgoal
    refine ⟨hgoal.2, Ranking.depth_lt_of_height_lt h₁.length_le ?_⟩
    simp only [Ranking.height]
    omega
  | moreMore h₁ h₂ =>
    have hmore := hgoal
    simp only [Ranking.bounds, Bool.and_eq_true, decide_eq_true_eq] at hgoal
    have hlt := h₂.length_lt hk.consuming hgoal.1.1
    exact ⟨hmore, Ranking.depth_lt_of_length_lt (Nat.lt_of_lt_of_le hlt h₁.length_le) hgoal.1.2⟩
  | ahead | notAhead | push =>
    exact ⟨hgoal, Ranking.depth_lt_of_height_lt (Nat.le_refl _) (Nat.lt_succ_self _)⟩

/-- A run whose depth is bounded by the characters that remain, with `limit` levels for each, and by
the height of its pattern comes to an end. -/
theorem outcome_ne_stuck (hk : k.Fits g limit) {n : Nat} {atomic : Bool} {p : Pattern ρ}
    {c : Cursor} (hp : k.bounds limit atomic p = true)
    (hn : limit * c.rest.length + k.height atomic p ≤ n) : g.outcome n atomic p c ≠ .stuck := by
  induction n generalizing atomic p c with
  | zero =>
    have := k.height_pos atomic p
    omega
  | succ n ih =>
    apply outcome_ne_stuck_of_calls
    intro atomic' p' c' hcall
    obtain ⟨hp', hlt⟩ := hcall.depth_lt hk hp
    unfold Ranking.depth at hlt
    dsimp only at hlt
    exact ih hp' (by omega)

/-- Where the recursion is bounded, a pattern matches or fails. -/
theorem exists_derives (hk : k.Fits g limit) (atomic : Bool) {p : Pattern ρ}
    (hp : k.bounds limit atomic p = true) (c : Cursor) : ∃ res, Derives g atomic p c res := by
  have h : g.outcome (limit * c.rest.length + k.height atomic p) atomic p c ≠ .stuck :=
    outcome_ne_stuck hk hp (Nat.le_refl _)
  cases ho : g.outcome (limit * c.rest.length + k.height atomic p) atomic p c with
  | ok c' ts => exact ⟨some (c', ts), derives_of_outcome ho⟩
  | fail => exact ⟨none, derives_of_outcome ho⟩
  | stuck => exact absurd ho h

/-! ## No way back -/

/-- Along any calls the depth that is still needed falls. -/
theorem depth_lt_of_transGen (hk : k.Fits g limit) {goal goal' : Goal ρ}
    (h : Relation.TransGen g.Calls goal goal') (hgoal : goal.Bounded k limit) :
    goal'.Bounded k limit ∧ k.depth limit goal' < k.depth limit goal := by
  induction h with
  | single hcall => exact hcall.depth_lt hk hgoal
  | tail _ hcall ih =>
    obtain ⟨hmiddle, hlt⟩ := ih
    obtain ⟨hgoal', hlt'⟩ := hcall.depth_lt hk hmiddle
    exact ⟨hgoal', Nat.lt_trans hlt' hlt⟩

theorem spans_of_transGen {goal goal' : Goal ρ} (h : Relation.TransGen g.Calls goal goal') :
    ∃ text, goal.start.Spans text goal'.start := by
  induction h with
  | single hcall => exact hcall.spans
  | tail _ hcall ih =>
    obtain ⟨_, hs⟩ := ih
    obtain ⟨_, hs'⟩ := hcall.spans
    exact ⟨_, hs.trans hs'⟩

/-- A match that comes to call for a pattern no lower than its own has consumed a character. -/
theorem position_lt_of_transGen (hk : k.Fits g limit) {goal goal' : Goal ρ}
    (h : Relation.TransGen g.Calls goal goal') (hgoal : goal.Bounded k limit)
    (hheight : k.height goal.atomic goal.pattern ≤ k.height goal'.atomic goal'.pattern) :
    goal.start.position < goal'.start.position := by
  obtain ⟨text, hspans⟩ := spans_of_transGen h
  obtain ⟨-, hlt⟩ := depth_lt_of_transGen hk h hgoal
  have hlength := hspans.length
  have hposition := hspans.2
  have hne : text.length ≠ 0 := by
    intro hzero
    have hrest : goal.start.rest.length = goal'.start.rest.length := by omega
    unfold Ranking.depth at hlt
    rw [hrest] at hlt
    omega
  omega

end Grammar

/-! ## Repetitions -/

/-- The patterns that a pattern repeats, wherever they stand in it. -/
def Pattern.repeated : Pattern ρ → List (Pattern ρ)
  | .seq p q | .alt p q => p.repeated ++ q.repeated
  | .star p | .more p => p :: p.repeated
  | .ahead p | .notAhead p | .push p => p.repeated
  | _ => []

theorem Ranking.consumes_of_mem_repeated {k : Ranking ρ} {limit : Nat} {atomic : Bool}
    {p round : Pattern ρ} (hp : k.bounds limit atomic p = true) (hround : round ∈ p.repeated) :
    round.consumes k.consumes = true := by
  induction p with
  | seq p q ihp ihq | alt p q ihp ihq =>
    simp only [bounds, Bool.and_eq_true] at hp
    exact (List.mem_append.1 hround).elim (ihp hp.1.2) (ihq hp.2)
  | star p ih | more p ih =>
    simp only [bounds, Bool.and_eq_true] at hp
    rcases List.mem_cons.1 hround with rfl | hround
    · exact hp.1.1
    · exact ih hp.2 hround
  | ahead p ih | notAhead p ih | push p ih => exact ih hp hround
  | _ => cases hround

/-- A pattern that has to consume a character moves the match on. -/
theorem Derives.position_lt {g : Grammar ρ} {rules : ρ → Bool} (hrules : g.Consuming rules)
    {atomic : Bool} {p : Pattern ρ} {c c' : Cursor} {ts : List (ParseTree ρ)}
    (h : Derives g atomic p c (some (c', ts))) (hp : p.consumes rules = true) :
    c.position < c'.position := by
  obtain ⟨text, hspans⟩ := h.spans
  have hlt := h.length_lt hrules hp
  have hlength := hspans.length
  have hposition := hspans.2
  omega

end Lsl.Peg
