import Lsl.Peg.Independence
/-!
# Derivations

A match without a bound on its depth and without the record of attempts, as a relation: `Derives`
says where a pattern stops and which nodes it yields, or that it fails.  A run with enough depth ends
in exactly what can be derived, so the two are interchangeable.
-/

namespace Lsl.Peg

variable {ρ : Type}

/-- What matching comes to once it has come to an end: a cursor with the nodes, or a failure. -/
abbrev Result (ρ : Type) : Type :=
  Option (Cursor × List (ParseTree ρ))

/-- The outcome that is a given result. -/
def Result.toOutcome : Result ρ → Outcome ρ
  | some (cursor, trees) => .ok cursor trees
  | none => .fail

/-- The step that a pattern without parts stands for. -/
def Pattern.step? : Pattern ρ → Option (Cursor → Option Cursor)
  | .lit chars => some fun c => c.accept? chars
  | .caseless chars => some fun c => c.acceptCaseless? chars
  | .one cls => some fun c => c.acceptOne? cls
  | .startOfInput => some fun c => if c.position = 0 then some c else none
  | .endOfInput => some fun c => if c.rest.isEmpty then some c else none
  | .pushLit chars => some fun c => some (c.pushed chars)
  | .drop => some Cursor.pop?
  | .peek => some Cursor.acceptTop?
  | _ => none

/-- What stands between the parts of a pattern: nothing inside an atomic rule. -/
def Grammar.between (g : Grammar ρ) (atomic : Bool) : Pattern ρ :=
  if atomic then .lit [] else g.gap

/-- The nodes that a rule leaves in place of those inside it. -/
def ParseTree.wrap (atomic : Bool) (rule : ρ) (start stop : Cursor) (trees : List (ParseTree ρ)) :
    List (ParseTree ρ) :=
  if atomic then [] else [⟨rule, String.ofList (start.textTo stop), trees⟩]

/-- Where a pattern stops from a cursor on and which nodes it yields, or that it fails. The first
argument says whether the match is inside an atomic rule. -/
inductive Derives (g : Grammar ρ) : Bool → Pattern ρ → Cursor → Result ρ → Prop
  | step {atomic p c f} : p.step? = some f → Derives g atomic p c ((f c).map (·, []))
  | silent {atomic r c res} : g.isSilent r = true →
      Derives g (atomic || g.isAtomic r) (g.pattern r) c res → Derives g atomic (.rule r) c res
  | node {atomic r c c' ts} : g.isSilent r = false →
      Derives g (atomic || g.isAtomic r) (g.pattern r) c (some (c', ts)) →
      Derives g atomic (.rule r) c (some (c', ParseTree.wrap atomic r c c' ts))
  | nodeFail {atomic r c} : g.isSilent r = false →
      Derives g (atomic || g.isAtomic r) (g.pattern r) c none → Derives g atomic (.rule r) c none
  | seq {atomic p q c c₁ c₂ c₃ ts gs us} : Derives g atomic p c (some (c₁, ts)) →
      Derives g true (g.between atomic) c₁ (some (c₂, gs)) →
      Derives g atomic q c₂ (some (c₃, us)) → Derives g atomic (.seq p q) c (some (c₃, ts ++ us))
  | seqFirst {atomic p q c} : Derives g atomic p c none → Derives g atomic (.seq p q) c none
  | seqBetween {atomic p q c c₁ ts} : Derives g atomic p c (some (c₁, ts)) →
      Derives g true (g.between atomic) c₁ none → Derives g atomic (.seq p q) c none
  | seqSecond {atomic p q c c₁ c₂ ts gs} : Derives g atomic p c (some (c₁, ts)) →
      Derives g true (g.between atomic) c₁ (some (c₂, gs)) →
      Derives g atomic q c₂ none → Derives g atomic (.seq p q) c none
  | altFirst {atomic p q c r} : Derives g atomic p c (some r) →
      Derives g atomic (.alt p q) c (some r)
  | altSecond {atomic p q c res} : Derives g atomic p c none → Derives g atomic q c res →
      Derives g atomic (.alt p q) c res
  | starNone {atomic p c} : Derives g atomic p c none → Derives g atomic (.star p) c (some (c, []))
  | starSome {atomic p c c₁ c₂ ts us} : Derives g atomic p c (some (c₁, ts)) →
      Derives g atomic (.more p) c₁ (some (c₂, us)) →
      Derives g atomic (.star p) c (some (c₂, ts ++ us))
  | moreBetween {atomic p c} : Derives g true (g.between atomic) c none →
      Derives g atomic (.more p) c (some (c, []))
  | moreNone {atomic p c c₁ gs} : Derives g true (g.between atomic) c (some (c₁, gs)) →
      Derives g atomic p c₁ none → Derives g atomic (.more p) c (some (c, []))
  | moreSome {atomic p c c₁ c₂ c₃ gs ts us} : Derives g true (g.between atomic) c (some (c₁, gs)) →
      Derives g atomic p c₁ (some (c₂, ts)) → Derives g atomic (.more p) c₂ (some (c₃, us)) →
      Derives g atomic (.more p) c (some (c₃, ts ++ us))
  | ahead {atomic p c r} : Derives g atomic p c (some r) →
      Derives g atomic (.ahead p) c (some (c, []))
  | aheadFail {atomic p c} : Derives g atomic p c none → Derives g atomic (.ahead p) c none
  | notAhead {atomic p c} : Derives g atomic p c none →
      Derives g atomic (.notAhead p) c (some (c, []))
  | notAheadFail {atomic p c r} : Derives g atomic p c (some r) →
      Derives g atomic (.notAhead p) c none
  | push {atomic p c c₁ ts} : Derives g atomic p c (some (c₁, ts)) →
      Derives g atomic (.push p) c (some (c₁.pushed (c.textTo c₁), ts))
  | pushFail {atomic p c} : Derives g atomic p c none → Derives g atomic (.push p) c none

/-! ## Runs without their record -/

namespace Outcome

/-- Goes on from a match; a failure stays one. -/
def andThen (outcome : Outcome ρ) (next : Cursor → List (ParseTree ρ) → Outcome ρ) : Outcome ρ :=
  match outcome with
  | ok cursor trees => next cursor trees
  | fail => fail
  | stuck => stuck

/-- Goes on from a failure; a match stays one. -/
def orElse (outcome next : Outcome ρ) : Outcome ρ :=
  match outcome with
  | ok cursor trees => ok cursor trees
  | fail => next
  | stuck => stuck

end Outcome

namespace Run

theorem fst_andThen (run : Run ρ) (next : Cursor → List (ParseTree ρ) → Attempts ρ → Run ρ)
    (next' : Cursor → List (ParseTree ρ) → Outcome ρ)
    (h : ∀ cursor trees a, (next cursor trees a).1 = next' cursor trees) :
    (run.andThen next).1 = run.1.andThen next' := by
  obtain ⟨outcome, a⟩ := run
  cases outcome with
  | ok cursor trees => exact h cursor trees a
  | fail => rfl
  | stuck => rfl

theorem fst_orElse (run : Run ρ) (next : Attempts ρ → Run ρ) (next' : Outcome ρ)
    (h : ∀ a, (next a).1 = next') : (run.orElse next).1 = run.1.orElse next' := by
  obtain ⟨outcome, a⟩ := run
  cases outcome with
  | ok cursor trees => rfl
  | fail => exact h a
  | stuck => rfl

end Run

namespace Grammar

/-- The outcome of a match with a bound on the depth of the recursion. -/
def outcome (g : Grammar ρ) (bound : Nat) (atomic : Bool) (p : Pattern ρ) (c : Cursor) :
    Outcome ρ :=
  (g.run bound ⟨atomic, .none⟩ p c .initial).1

theorem fst_run (g : Grammar ρ) (bound : Nat) (ctx : Context) (p : Pattern ρ) (c : Cursor)
    (a : Attempts ρ) : (g.run bound ctx p c a).1 = g.outcome bound ctx.atomic p c :=
  fst_run_congr ..

variable (g : Grammar ρ) (n : Nat) (atomic : Bool) (c : Cursor)

@[simp] theorem outcome_zero (p : Pattern ρ) : g.outcome 0 atomic p c = .stuck := rfl

theorem outcome_step {p : Pattern ρ} {f : Cursor → Option Cursor} (h : p.step? = some f) :
    g.outcome (n + 1) atomic p c = Result.toOutcome ((f c).map (·, [])) := by
  cases p <;> simp only [Pattern.step?, Option.some.injEq, reduceCtorEq] at h <;> subst h <;>
    first
    | rfl
    | (simp only [outcome, run]
       split <;> simp_all [Run.ofStep, Result.toOutcome])
    | (simp only [outcome, run, Run.ofStep]
       split <;> simp_all [Result.toOutcome])

private theorem fst_skip (ctx : Context) (a : Attempts ρ) :
    (if ctx.atomic then (Outcome.ok c [], a)
      else g.run (n + 1) { ctx with atomic := true } g.gap c a : Run ρ).1 =
    g.outcome (n + 1) true (g.between ctx.atomic) c := by
  unfold between
  split
  · rfl
  · exact fst_run ..

theorem outcome_seq (p q : Pattern ρ) :
    g.outcome (n + 1) atomic (.seq p q) c =
      (g.outcome n atomic p c).andThen fun c₁ ts =>
        (g.outcome n true (g.between atomic) c₁).andThen fun c₂ _ =>
          (g.outcome n atomic q c₂).andThen fun c₃ us => .ok c₃ (ts ++ us) := by
  cases n with
  | zero => rfl
  | succ n =>
      refine Run.fst_andThen _ _ _ fun c₁ ts a => ?_
      rw [← fst_skip g n c₁ ⟨atomic, .none⟩ a]
      refine Run.fst_andThen _ _ _ fun c₂ _ a => ?_
      rw [Run.prepend, ← fst_run g _ ⟨atomic, .none⟩ q c₂ a]
      exact Run.fst_andThen _ _ _ fun _ _ _ => rfl

theorem outcome_alt (p q : Pattern ρ) :
    g.outcome (n + 1) atomic (.alt p q) c =
      (g.outcome n atomic p c).orElse (g.outcome n atomic q c) :=
  Run.fst_orElse _ _ _ fun a => fst_run g n ⟨atomic, .none⟩ q c a

theorem outcome_star (p : Pattern ρ) :
    g.outcome (n + 1) atomic (.star p) c =
      ((g.outcome n atomic p c).andThen fun c₁ ts =>
        (g.outcome n atomic (.more p) c₁).andThen fun c₂ us => .ok c₂ (ts ++ us)).orElse
          (.ok c []) := by
  refine (Run.fst_orElse _ _ (.ok c []) fun _ => rfl).trans (congrArg (Outcome.orElse · _) ?_)
  refine Run.fst_andThen _ _ _ fun c₁ ts a => ?_
  rw [Run.prepend, ← fst_run g n ⟨atomic, .none⟩ (.more p) c₁ a]
  exact Run.fst_andThen _ _ _ fun _ _ _ => rfl

theorem outcome_more (p : Pattern ρ) :
    g.outcome (n + 1) atomic (.more p) c =
      (((g.outcome n true (g.between atomic) c).andThen fun c₁ _ =>
        g.outcome n atomic p c₁).andThen fun c₂ ts =>
          (g.outcome n atomic (.more p) c₂).andThen fun c₃ us => .ok c₃ (ts ++ us)).orElse
            (.ok c []) := by
  cases n with
  | zero => cases atomic <;> rfl
  | succ n =>
      refine (Run.fst_orElse _ _ (.ok c []) fun _ => rfl).trans (congrArg (Outcome.orElse · _) ?_)
      refine (Run.fst_andThen _ _ (fun c₂ ts => (g.outcome (n + 1) atomic (.more p) c₂).andThen
        fun c₃ us => .ok c₃ (ts ++ us)) fun c₂ ts a => ?_).trans
          (congrArg (Outcome.andThen · _) ?_)
      · rw [Run.prepend, ← fst_run g _ ⟨atomic, .none⟩ (.more p) c₂ a]
        exact Run.fst_andThen _ _ _ fun _ _ _ => rfl
      · rw [← fst_skip g n c ⟨atomic, .none⟩ .initial]
        exact Run.fst_andThen _ _ _ fun c₁ _ a => fst_run g _ ⟨atomic, .none⟩ p c₁ a

theorem outcome_ahead (p : Pattern ρ) :
    g.outcome (n + 1) atomic (.ahead p) c =
      (g.outcome n atomic p c).andThen fun _ _ => .ok c [] := by
  rw [← fst_run g n ⟨atomic, Lookahead.none.ahead⟩ p c .initial]
  exact Run.fst_andThen _ _ _ fun _ _ _ => rfl

theorem outcome_notAhead (p : Pattern ρ) :
    g.outcome (n + 1) atomic (.notAhead p) c =
      match g.outcome n atomic p c with
      | .ok _ _ => .fail
      | .fail => .ok c []
      | .stuck => .stuck := by
  rw [← fst_run g n ⟨atomic, Lookahead.none.notAhead⟩ p c .initial]
  simp only [outcome, run]
  generalize g.run n ⟨atomic, Lookahead.none.notAhead⟩ p c .initial = r
  obtain ⟨_ | _ | _, a⟩ := r <;> rfl

theorem outcome_push (p : Pattern ρ) :
    g.outcome (n + 1) atomic (.push p) c =
      (g.outcome n atomic p c).andThen fun c₁ ts => .ok (c₁.pushed (c.textTo c₁)) ts :=
  Run.fst_andThen _ _ _ fun _ _ _ => rfl

theorem outcome_silent {r : ρ} (h : g.isSilent r = true) :
    g.outcome (n + 1) atomic (.rule r) c =
      g.outcome n (atomic || g.isAtomic r) (g.pattern r) c := by
  simp only [outcome, run, h, if_true]

theorem outcome_node {r : ρ} (h : g.isSilent r = false) :
    g.outcome (n + 1) atomic (.rule r) c =
      (g.outcome n (atomic || g.isAtomic r) (g.pattern r) c).andThen fun c' ts =>
        .ok c' (ParseTree.wrap atomic r c c' ts) := by
  simp only [outcome, run, h, Bool.false_eq_true, if_false]
  generalize g.run n ⟨atomic || g.isAtomic r, .none⟩ (g.pattern r) c .initial = x
  obtain ⟨_ | _ | _, a⟩ := x <;> cases atomic <;> rfl

end Grammar

/-! ## Runs and derivations agree -/

namespace Result

theorem andThen_eq {o : Outcome ρ} {next : Cursor → List (ParseTree ρ) → Outcome ρ}
    {res : Result ρ} (h : o.andThen next = res.toOutcome) :
    (∃ c ts, o = toOutcome (some (c, ts)) ∧ next c ts = res.toOutcome) ∨
      (o = toOutcome none ∧ res = none) := by
  cases o with
  | ok c ts => exact .inl ⟨c, ts, rfl, h⟩
  | fail =>
      right
      cases res with
      | none => exact ⟨rfl, rfl⟩
      | some r => cases h
  | stuck => rcases res with _ | ⟨_, _⟩ <;> cases h

theorem orElse_eq {o next : Outcome ρ} {res : Result ρ} (h : o.orElse next = res.toOutcome) :
    (∃ r, res = some r ∧ o = res.toOutcome) ∨ (o = toOutcome none ∧ next = res.toOutcome) := by
  cases o with
  | ok c ts =>
      left
      rcases res with _ | ⟨c', ts'⟩
      · cases h
      · exact ⟨_, rfl, h⟩
  | fail => exact .inr ⟨rfl, h⟩
  | stuck => rcases res with _ | ⟨_, _⟩ <;> cases h

theorem eq_some_of_ok {r : Result ρ} {c : Cursor} {ts : List (ParseTree ρ)}
    (h : .ok c ts = r.toOutcome) : r = some (c, ts) := by
  rcases r with _ | ⟨_, _⟩ <;> cases h
  rfl

theorem eq_none_of_fail {r : Result ρ} (h : .fail = r.toOutcome) : r = none := by
  rcases r with _ | ⟨_, _⟩ <;> cases h
  rfl

theorem toOutcome_injective {r r' : Result ρ} (h : r.toOutcome = r'.toOutcome) : r = r' := by
  rcases r with _ | ⟨_, _⟩ <;> rcases r' with _ | ⟨_, _⟩ <;> cases h <;> rfl

theorem toOutcome_ne_stuck (r : Result ρ) : r.toOutcome ≠ .stuck := by
  rcases r with _ | ⟨_, _⟩ <;> simp [toOutcome]

end Result

namespace Grammar

open Result

variable {g : Grammar ρ}

/-- Later rounds of a repetition never fail. -/
theorem outcome_more_ne_fail (n : Nat) (atomic : Bool) (p : Pattern ρ) (c : Cursor) :
    g.outcome n atomic (.more p) c ≠ .fail := by
  cases n with
  | zero => simp
  | succ n =>
      rw [outcome_more]
      intro h
      obtain ⟨r, hr, -⟩ | ⟨-, h⟩ := orElse_eq (h.trans rfl : _ = toOutcome none)
      · cases hr
      · cases h

/-- Whatever a run ends in can be derived. -/
theorem derives_of_outcome {n : Nat} {atomic : Bool} {p : Pattern ρ} {c : Cursor} {res : Result ρ}
    (h : g.outcome n atomic p c = res.toOutcome) : Derives g atomic p c res := by
  induction n generalizing atomic p c res with
  | zero => exact absurd h.symm (toOutcome_ne_stuck res)
  | succ n ih =>
    have basic {f : Cursor → Option Cursor} (hf : p.step? = some f) : Derives g atomic p c res := by
      rw [outcome_step g n atomic c hf] at h
      rw [← toOutcome_injective h]
      exact .step hf
    cases p with
    | lit | caseless | one | startOfInput | endOfInput | pushLit | drop | peek => exact basic rfl
    | rule r =>
      cases hs : g.isSilent r with
      | true =>
        rw [outcome_silent g n atomic c hs] at h
        exact .silent hs (ih h)
      | false =>
        rw [outcome_node g n atomic c hs] at h
        obtain ⟨c', ts, h₁, h₂⟩ | ⟨h₁, rfl⟩ := andThen_eq h
        · obtain rfl := eq_some_of_ok h₂
          exact .node hs (ih h₁)
        · exact .nodeFail hs (ih h₁)
    | seq p q =>
      rw [outcome_seq] at h
      obtain ⟨c₁, ts, h₁, h⟩ | ⟨h₁, rfl⟩ := andThen_eq h
      · obtain ⟨c₂, gs, h₂, h⟩ | ⟨h₂, rfl⟩ := andThen_eq h
        · obtain ⟨c₃, us, h₃, h⟩ | ⟨h₃, rfl⟩ := andThen_eq h
          · obtain rfl := eq_some_of_ok h
            exact .seq (ih h₁) (ih h₂) (ih h₃)
          · exact .seqSecond (ih h₁) (ih h₂) (ih h₃)
        · exact .seqBetween (ih h₁) (ih h₂)
      · exact .seqFirst (ih h₁)
    | alt p q =>
      rw [outcome_alt] at h
      obtain ⟨r, rfl, h₁⟩ | ⟨h₁, h₂⟩ := orElse_eq h
      · exact .altFirst (ih h₁)
      · exact .altSecond (ih h₁) (ih h₂)
    | star p =>
      rw [outcome_star] at h
      obtain ⟨r, rfl, h⟩ | ⟨h₁, h₂⟩ := orElse_eq h
      · obtain ⟨c₁, ts, h₁, h⟩ | ⟨-, h⟩ := andThen_eq h
        · obtain ⟨c₂, us, h₂, h⟩ | ⟨-, h⟩ := andThen_eq h
          · rw [eq_some_of_ok h]
            exact .starSome (ih h₁) (ih h₂)
          · cases h
        · cases h
      · obtain ⟨c₁, ts, -, h⟩ | ⟨h₁, -⟩ := andThen_eq h₁
        · obtain ⟨c₂, us, -, h⟩ | ⟨h, -⟩ := andThen_eq h
          · cases h
          · exact absurd h (outcome_more_ne_fail n atomic p _)
        · obtain rfl := eq_some_of_ok h₂
          exact .starNone (ih h₁)
    | more p =>
      rw [outcome_more] at h
      obtain ⟨r, rfl, h⟩ | ⟨h₁, h₂⟩ := orElse_eq h
      · obtain ⟨c₂, ts, h₂, h⟩ | ⟨-, h⟩ := andThen_eq h
        · obtain ⟨c₁, gs, h₁, h₂⟩ | ⟨-, h⟩ := andThen_eq h₂
          · obtain ⟨c₃, us, h₃, h⟩ | ⟨-, h⟩ := andThen_eq h
            · rw [eq_some_of_ok h]
              exact .moreSome (ih h₁) (ih h₂) (ih h₃)
            · cases h
          · cases h
        · cases h
      · obtain rfl := eq_some_of_ok h₂
        obtain ⟨c₂, ts, -, h⟩ | ⟨h, -⟩ := andThen_eq h₁
        · obtain ⟨c₃, us, -, h⟩ | ⟨h, -⟩ := andThen_eq h
          · cases h
          · exact absurd h (outcome_more_ne_fail n atomic p _)
        · obtain ⟨c₁, gs, h₁, h⟩ | ⟨h₁, -⟩ := andThen_eq h
          · exact .moreNone (ih h₁) (ih h)
          · exact .moreBetween (ih h₁)
    | ahead p =>
      rw [outcome_ahead] at h
      obtain ⟨c₁, ts, h₁, h⟩ | ⟨h₁, rfl⟩ := andThen_eq h
      · obtain rfl := eq_some_of_ok h
        exact .ahead (ih h₁)
      · exact .aheadFail (ih h₁)
    | notAhead p =>
      rw [outcome_notAhead] at h
      cases h₁ : g.outcome n atomic p c with
      | ok c₁ ts =>
        rw [h₁] at h
        obtain rfl := eq_none_of_fail h
        exact .notAheadFail (ih (h₁.trans rfl : _ = toOutcome (some (c₁, ts))))
      | fail =>
        rw [h₁] at h
        obtain rfl := eq_some_of_ok h
        exact .notAhead (ih (h₁.trans rfl : _ = toOutcome none))
      | stuck =>
        rw [h₁] at h
        exact absurd h.symm (toOutcome_ne_stuck res)
    | push p =>
      rw [outcome_push] at h
      obtain ⟨c₁, ts, h₁, h⟩ | ⟨h₁, rfl⟩ := andThen_eq h
      · obtain rfl := eq_some_of_ok h
        exact .push (ih h₁)
      · exact .pushFail (ih h₁)

/-- What can be derived is what every run with enough depth ends in. -/
theorem outcome_of_derives {atomic : Bool} {p : Pattern ρ} {c : Cursor} {res : Result ρ}
    (h : Derives g atomic p c res) : ∃ n, ∀ m, n ≤ m → g.outcome m atomic p c = res.toOutcome := by
  -- A pattern needs one level more than its parts, so the largest of their bounds and one suffices.
  suffices hs : ∃ n, ∀ m, n ≤ m → g.outcome (m + 1) atomic p c = res.toOutcome by
    obtain ⟨n, hn⟩ := hs
    refine ⟨n + 1, fun m hm => ?_⟩
    cases m with
    | zero => omega
    | succ m => exact hn m (by omega)
  have enough {atomic : Bool} {p : Pattern ρ} {c : Cursor} {res : Result ρ} {n k : Nat}
      (h : ∀ m, n ≤ m → g.outcome (m + 1) atomic p c = res.toOutcome) (hk : n < k) :
      g.outcome k atomic p c = res.toOutcome := by
    cases k with
    | zero => omega
    | succ k => exact h k (by omega)
  induction h with
  | @step atomic p c f hf => exact ⟨0, fun m _ => outcome_step g m atomic c hf⟩
  | silent hs _ ih =>
    obtain ⟨n, hn⟩ := ih
    exact ⟨n + 1, fun m hm => by rw [outcome_silent _ _ _ _ hs, enough hn hm]⟩
  | node hs _ ih =>
    obtain ⟨n, hn⟩ := ih
    exact ⟨n + 1, fun m hm => by rw [outcome_node _ _ _ _ hs, enough hn hm]; rfl⟩
  | nodeFail hs _ ih =>
    obtain ⟨n, hn⟩ := ih
    exact ⟨n + 1, fun m hm => by rw [outcome_node _ _ _ _ hs, enough hn hm]; rfl⟩
  | seq _ _ _ ih₁ ih₂ ih₃ =>
    obtain ⟨n₁, h₁⟩ := ih₁
    obtain ⟨n₂, h₂⟩ := ih₂
    obtain ⟨n₃, h₃⟩ := ih₃
    refine ⟨n₁ + n₂ + n₃ + 1, fun m hm => ?_⟩
    rw [outcome_seq, enough h₁ (by omega)]
    simp only [toOutcome, Outcome.andThen]
    rw [enough h₂ (by omega)]
    simp only [toOutcome]
    rw [enough h₃ (by omega)]
    rfl
  | seqFirst _ ih =>
    obtain ⟨n, hn⟩ := ih
    exact ⟨n + 1, fun m hm => by rw [outcome_seq, enough hn hm]; rfl⟩
  | seqBetween _ _ ih₁ ih₂ =>
    obtain ⟨n₁, h₁⟩ := ih₁
    obtain ⟨n₂, h₂⟩ := ih₂
    refine ⟨n₁ + n₂ + 1, fun m hm => ?_⟩
    rw [outcome_seq, enough h₁ (by omega)]
    simp only [toOutcome, Outcome.andThen]
    rw [enough h₂ (by omega)]
    rfl
  | seqSecond _ _ _ ih₁ ih₂ ih₃ =>
    obtain ⟨n₁, h₁⟩ := ih₁
    obtain ⟨n₂, h₂⟩ := ih₂
    obtain ⟨n₃, h₃⟩ := ih₃
    refine ⟨n₁ + n₂ + n₃ + 1, fun m hm => ?_⟩
    rw [outcome_seq, enough h₁ (by omega)]
    simp only [toOutcome, Outcome.andThen]
    rw [enough h₂ (by omega)]
    simp only [toOutcome]
    rw [enough h₃ (by omega)]
    rfl
  | altFirst _ ih =>
    obtain ⟨n, hn⟩ := ih
    exact ⟨n + 1, fun m hm => by rw [outcome_alt, enough hn hm]; rfl⟩
  | altSecond _ _ ih₁ ih₂ =>
    obtain ⟨n₁, h₁⟩ := ih₁
    obtain ⟨n₂, h₂⟩ := ih₂
    refine ⟨n₁ + n₂ + 1, fun m hm => ?_⟩
    rw [outcome_alt, enough h₁ (by omega)]
    simp only [toOutcome, Outcome.orElse]
    exact enough h₂ (by omega)
  | starNone _ ih =>
    obtain ⟨n, hn⟩ := ih
    exact ⟨n + 1, fun m hm => by rw [outcome_star, enough hn hm]; rfl⟩
  | starSome _ _ ih₁ ih₂ =>
    obtain ⟨n₁, h₁⟩ := ih₁
    obtain ⟨n₂, h₂⟩ := ih₂
    refine ⟨n₁ + n₂ + 1, fun m hm => ?_⟩
    rw [outcome_star, enough h₁ (by omega)]
    simp only [toOutcome, Outcome.andThen]
    rw [enough h₂ (by omega)]
    rfl
  | moreBetween _ ih =>
    obtain ⟨n, hn⟩ := ih
    exact ⟨n + 1, fun m hm => by rw [outcome_more, enough hn hm]; rfl⟩
  | moreNone _ _ ih₁ ih₂ =>
    obtain ⟨n₁, h₁⟩ := ih₁
    obtain ⟨n₂, h₂⟩ := ih₂
    refine ⟨n₁ + n₂ + 1, fun m hm => ?_⟩
    rw [outcome_more, enough h₁ (by omega)]
    simp only [toOutcome, Outcome.andThen]
    rw [enough h₂ (by omega)]
    rfl
  | moreSome _ _ _ ih₁ ih₂ ih₃ =>
    obtain ⟨n₁, h₁⟩ := ih₁
    obtain ⟨n₂, h₂⟩ := ih₂
    obtain ⟨n₃, h₃⟩ := ih₃
    refine ⟨n₁ + n₂ + n₃ + 1, fun m hm => ?_⟩
    rw [outcome_more, enough h₁ (by omega)]
    simp only [toOutcome, Outcome.andThen]
    rw [enough h₂ (by omega)]
    simp only [toOutcome]
    rw [enough h₃ (by omega)]
    rfl
  | ahead _ ih =>
    obtain ⟨n, hn⟩ := ih
    exact ⟨n + 1, fun m hm => by rw [outcome_ahead, enough hn hm]; rfl⟩
  | aheadFail _ ih =>
    obtain ⟨n, hn⟩ := ih
    exact ⟨n + 1, fun m hm => by rw [outcome_ahead, enough hn hm]; rfl⟩
  | notAhead _ ih =>
    obtain ⟨n, hn⟩ := ih
    exact ⟨n + 1, fun m hm => by rw [outcome_notAhead, enough hn hm]; rfl⟩
  | notAheadFail _ ih =>
    obtain ⟨n, hn⟩ := ih
    exact ⟨n + 1, fun m hm => by rw [outcome_notAhead, enough hn hm]; rfl⟩
  | push _ ih =>
    obtain ⟨n, hn⟩ := ih
    exact ⟨n + 1, fun m hm => by rw [outcome_push, enough hn hm]; rfl⟩
  | pushFail _ ih =>
    obtain ⟨n, hn⟩ := ih
    exact ⟨n + 1, fun m hm => by rw [outcome_push, enough hn hm]; rfl⟩

end Grammar

/-- A pattern has one result at a cursor. -/
theorem Derives.unique {g : Grammar ρ} {atomic : Bool} {p : Pattern ρ} {c : Cursor}
    {r r' : Result ρ} (h : Derives g atomic p c r) (h' : Derives g atomic p c r') : r = r' := by
  obtain ⟨n, hn⟩ := Grammar.outcome_of_derives h
  obtain ⟨n', hn'⟩ := Grammar.outcome_of_derives h'
  refine Result.toOutcome_injective ?_
  rw [← hn (n + n') (by omega), hn' (n + n') (by omega)]

namespace Grammar

open Result

variable {g : Grammar ρ}

/-- A run that comes to an end comes to what can be derived. -/
theorem outcome_eq_of_derives {n : Nat} {atomic : Bool} {p : Pattern ρ} {c : Cursor}
    {r : Result ρ} (h : Derives g atomic p c r) (hn : g.outcome n atomic p c ≠ .stuck) :
    g.outcome n atomic p c = r.toOutcome := by
  cases ho : g.outcome n atomic p c with
  | ok c' ts =>
    have ho' : g.outcome n atomic p c = toOutcome (some (c', ts)) := ho
    rw [h.unique (derives_of_outcome ho')]
    rfl
  | fail =>
    have ho' : g.outcome n atomic p c = toOutcome none := ho
    rw [h.unique (derives_of_outcome ho')]
    rfl
  | stuck => exact absurd ho hn

end Grammar

/-! ## Derivations taken apart -/

namespace Derives

variable {g : Grammar ρ} {atomic : Bool} {p q : Pattern ρ} {c c' : Cursor}
  {ts : List (ParseTree ρ)}

theorem of_seq (h : Derives g atomic (.seq p q) c (some (c', ts))) :
    ∃ c₁ c₂ us gs vs, Derives g atomic p c (some (c₁, us)) ∧
      Derives g true (g.between atomic) c₁ (some (c₂, gs)) ∧
      Derives g atomic q c₂ (some (c', vs)) ∧ ts = us ++ vs := by
  generalize hres : (some (c', ts) : Result ρ) = res at h
  cases h with
  | step hf => cases hf
  | seq h₁ h₂ h₃ => cases hres; exact ⟨_, _, _, _, _, h₁, h₂, h₃, rfl⟩
  | _ => cases hres

/-- A sequence fails with its first part, in the gap, or with its second part. -/
theorem of_seq_fail (h : Derives g atomic (.seq p q) c none) :
    Derives g atomic p c none ∨ ∃ c₁ us, Derives g atomic p c (some (c₁, us)) ∧
      (Derives g true (g.between atomic) c₁ none ∨
        ∃ c₂ gs, Derives g true (g.between atomic) c₁ (some (c₂, gs)) ∧
          Derives g atomic q c₂ none) := by
  generalize hres : (none : Result ρ) = res at h
  cases h with
  | step hf => cases hf
  | seqFirst h => exact .inl h
  | seqBetween h₁ h₂ => exact .inr ⟨_, _, h₁, .inl h₂⟩
  | seqSecond h₁ h₂ h₃ => exact .inr ⟨_, _, h₁, .inr ⟨_, _, h₂, h₃⟩⟩
  | _ => cases hres

theorem of_alt (h : Derives g atomic (.alt p q) c (some (c', ts))) :
    Derives g atomic p c (some (c', ts)) ∨ Derives g atomic q c (some (c', ts)) := by
  generalize hres : (some (c', ts) : Result ρ) = res at h
  cases h with
  | step hf => cases hf
  | altFirst h => cases hres; exact .inl h
  | altSecond _ h => cases hres; exact .inr h

theorem of_alt_fail (h : Derives g atomic (.alt p q) c none) :
    Derives g atomic p c none ∧ Derives g atomic q c none := by
  generalize hres : (none : Result ρ) = res at h
  cases h with
  | step hf => cases hf
  | altFirst => cases hres
  | altSecond h₁ h₂ => cases hres; exact ⟨h₁, h₂⟩

theorem of_star (h : Derives g atomic (.star p) c (some (c', ts))) :
    (Derives g atomic p c none ∧ c' = c ∧ ts = []) ∨
      ∃ c₁ us vs, Derives g atomic p c (some (c₁, us)) ∧
        Derives g atomic (.more p) c₁ (some (c', vs)) ∧ ts = us ++ vs := by
  generalize hres : (some (c', ts) : Result ρ) = res at h
  cases h with
  | step hf => cases hf
  | starNone h => cases hres; exact .inl ⟨h, rfl, rfl⟩
  | starSome h₁ h₂ => cases hres; exact .inr ⟨_, _, _, h₁, h₂, rfl⟩

theorem not_star_fail (h : Derives g atomic (.star p) c none) : False := by
  generalize hres : (none : Result ρ) = res at h
  cases h with
  | step hf => cases hf
  | _ => cases hres

theorem of_more (h : Derives g atomic (.more p) c (some (c', ts))) :
    (Derives g true (g.between atomic) c none ∧ c' = c ∧ ts = []) ∨
      ∃ c₁ gs, Derives g true (g.between atomic) c (some (c₁, gs)) ∧
        ((Derives g atomic p c₁ none ∧ c' = c ∧ ts = []) ∨
          ∃ c₂ us vs, Derives g atomic p c₁ (some (c₂, us)) ∧
            Derives g atomic (.more p) c₂ (some (c', vs)) ∧ ts = us ++ vs) := by
  generalize hres : (some (c', ts) : Result ρ) = res at h
  cases h with
  | step hf => cases hf
  | moreBetween hgap => cases hres; exact .inl ⟨hgap, rfl, rfl⟩
  | moreNone hgap hp => cases hres; exact .inr ⟨_, _, hgap, .inl ⟨hp, rfl, rfl⟩⟩
  | moreSome hgap hp hmore =>
    cases hres
    exact .inr ⟨_, _, hgap, .inr ⟨_, _, _, hp, hmore, rfl⟩⟩

theorem not_more_fail (h : Derives g atomic (.more p) c none) : False := by
  generalize hres : (none : Result ρ) = res at h
  cases h with
  | step hf => cases hf
  | _ => cases hres

theorem of_ahead (h : Derives g atomic (.ahead p) c (some (c', ts))) :
    (∃ r, Derives g atomic p c (some r)) ∧ c' = c ∧ ts = [] := by
  generalize hres : (some (c', ts) : Result ρ) = res at h
  cases h with
  | step hf => cases hf
  | ahead h => cases hres; exact ⟨⟨_, h⟩, rfl, rfl⟩
  | aheadFail => cases hres

theorem of_notAhead_fail (h : Derives g atomic (.notAhead p) c none) :
    ∃ r, Derives g atomic p c (some r) := by
  generalize hres : (none : Result ρ) = res at h
  cases h with
  | step hf => cases hf
  | notAhead => cases hres
  | notAheadFail h => exact ⟨_, h⟩

theorem of_notAhead (h : Derives g atomic (.notAhead p) c (some (c', ts))) :
    Derives g atomic p c none ∧ c' = c ∧ ts = [] := by
  generalize hres : (some (c', ts) : Result ρ) = res at h
  cases h with
  | step hf => cases hf
  | notAhead h => cases hres; exact ⟨h, rfl, rfl⟩
  | notAheadFail => cases hres

theorem of_lit {chars : List Char} (h : Derives g atomic (.lit chars) c (some (c', ts))) :
    c.accept? chars = some c' := by
  have hstep : Derives g atomic (.lit chars) c _ := .step rfl
  obtain ⟨_, haccept, heq⟩ := Option.map_eq_some_iff.1 (hstep.unique h)
  cases heq
  exact haccept

theorem of_node {r : ρ} (hr : g.isSilent r = false)
    (h : Derives g atomic (.rule r) c (some (c', ts))) :
    ∃ us, Derives g (atomic || g.isAtomic r) (g.pattern r) c (some (c', us)) ∧
      ts = ParseTree.wrap atomic r c c' us := by
  generalize hres : (some (c', ts) : Result ρ) = res at h
  cases h with
  | step hf => cases hf
  | silent hs => rw [hr] at hs; cases hs
  | node _ h => cases hres; exact ⟨_, h, rfl⟩
  | nodeFail => cases hres

theorem of_node_fail {r : ρ} (hr : g.isSilent r = false) (h : Derives g atomic (.rule r) c none) :
    Derives g (atomic || g.isAtomic r) (g.pattern r) c none := by
  generalize hres : (none : Result ρ) = res at h
  cases h with
  | step hf => cases hf
  | silent hs => rw [hr] at hs; cases hs
  | node => cases hres
  | nodeFail _ h => exact h

theorem of_silent {r : ρ} {res : Result ρ} (hr : g.isSilent r = true)
    (h : Derives g atomic (.rule r) c res) :
    Derives g (atomic || g.isAtomic r) (g.pattern r) c res := by
  cases h with
  | step hf => cases hf
  | silent _ h => exact h
  | node hs => rw [hr] at hs; cases hs
  | nodeFail hs => rw [hr] at hs; cases hs

/-- A sequence is split wherever there are parts on both sides. -/
theorem cat_append {ps qs : List (Pattern ρ)} :
    Derives g atomic (.cat (p :: ps ++ q :: qs)) c (some (c', ts)) ↔
      Derives g atomic (.seq (.cat (p :: ps)) (.cat (q :: qs))) c (some (c', ts)) := by
  induction ps generalizing p c ts with
  | nil => rfl
  | cons p' ps ih =>
    constructor
    · intro h
      obtain ⟨_, _, us, _, _, hp, hgap, hrest, rfl⟩ := of_seq h
      obtain ⟨_, _, vs, _, ws, hps, hgap', hqs, rfl⟩ := (ih.1 hrest).of_seq
      rw [← List.append_assoc]
      exact .seq (.seq hp hgap hps) hgap' hqs
    · intro h
      obtain ⟨_, _, _, _, ws, hfirst, hgap', hqs, rfl⟩ := h.of_seq
      obtain ⟨_, _, us, _, vs, hp, hgap, hps, rfl⟩ := of_seq hfirst
      rw [List.append_assoc]
      exact .seq hp hgap (ih.2 (.seq hps hgap' hqs))

end Derives

end Lsl.Peg
