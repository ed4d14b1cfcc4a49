import Lsl.Proofs.Grammar.Enclosed
import Lsl.Proofs.Roundtrip.Word
/-!
# Values in front of other text

A text that is a value closes its strings, parentheses and square brackets.  So where a comma or a
closing parenthesis comes after it, all of it is read as if the text ended there, as long as the literals
in it are.
-/

namespace Lsl.Rule

open Peg Pattern Lexeme

/-! ## Parentheses and square brackets -/

/-- Parentheses and square brackets count. A comma is inside of some, unless it is free. -/
def pair (free : Bool) (chars : List Char) (n : Nat) : Option Nat :=
  if chars = ['('] ∨ chars = ['['] then some (n + 1)
  else if chars = [')'] ∨ chars = [']'] then if n = 0 then none else some (n - 1)
  else if chars = [','] then if free || n != 0 then some n else none
  else if chars.all isInert then some n
  else none

section

variable {free : Bool} {chars : List Char} {n n' : Nat}

theorem pair_cases (h : pair free chars n = some n') :
    ((chars = ['('] ∨ chars = ['[']) ∧ n' = n + 1) ∨
    ((chars = [')'] ∨ chars = [']']) ∧ n = n' + 1) ∨
    (chars = [','] ∧ n' = n ∧ (free = true ∨ n ≠ 0)) ∨
    (chars.all isInert = true ∧ n' = n) := by
  unfold pair at h
  split at h
  · next hopen =>
    cases h
    exact .inl ⟨hopen, rfl⟩
  split at h
  · next hclose =>
    split at h <;> cases h
    exact .inr (.inl ⟨hclose, by omega⟩)
  split at h
  · next hcomma =>
    split at h
    · next hinside =>
      cases h
      exact .inr (.inr (.inl ⟨hcomma, rfl, by simpa using hinside⟩))
    · cases h
  split at h
  · next hinert =>
    cases h
    exact .inr (.inr (.inr ⟨hinert, rfl⟩))
  · cases h

theorem clear_of_pair (h : pair free chars n = some n') :
    chars.all (fun c => c != '"' && c != '/') = true := by
  rcases pair_cases h with ⟨rfl | rfl, -⟩ | ⟨rfl | rfl, -⟩ | ⟨rfl, -⟩ | ⟨hinert, -⟩
  · rfl
  · rfl
  · rfl
  · rfl
  · rfl
  · exact (all_of_inert hinert).1

theorem nested_of_pair (h : pair free chars n = some n') (m : Nat) (code : List Char) :
    nested .inner (m + n) (chars ++ code) = nested .inner (m + n') code := by
  rcases pair_cases h with ⟨rfl | rfl, rfl⟩ | ⟨rfl | rfl, rfl⟩ | ⟨rfl, rfl, -⟩ | ⟨hinert, rfl⟩
  · rfl
  · rfl
  · rfl
  · rfl
  · rfl
  · exact nested_append (ignores_of_all (all_of_inert hinert).2) _ code

/-- What a value takes may be put back in front of a text that is closed. -/
theorem recedes_inner : Recedes (pair true) (anywhere isFlat)
    fun n text => '/' ∉ text → Shut .inner [] n text where
  isPart {r _} hr := by cases r <;> first | rfl | cases hr
  pattern {r n} hr ha hangle := by
    refine ⟨0, Nat.zero_le n, ?_⟩
    cases r <;> first | (cases hr; done) | (cases ha; done) | contradiction | decide
  gap h hslash := .gap (.nil _) (.inr hslash) (h fun hmem => hslash (List.mem_of_mem_drop hmem))
  lit hpair h hslash := (h fun hmem => hslash (List.mem_append_right _ hmem)).lit
    (clear_of_pair hpair) (nested_of_pair hpair _)
  word ha hs hscans htake hstill hstar h hslash :=
    (h fun hmem => hslash (List.mem_append_right _ hmem)).word ha hs hscans htake hstill hstar

/-- A text that is a value from its start to its end is closed. -/
theorem shut_of_value {c c' : Cursor} {ts : List (ParseTree Rule)}
    (h : Derives grammar false (.rule .value) c (some (c', ts))) (hend : c'.rest = [])
    (hslash : '/' ∉ c.rest) : Shut .inner [] 0 c.rest := by
  obtain ⟨x, rest, hrest, hx⟩ := starts_of_derives rfl h
  have hstill : takePiece? c.rest = none :=
    hrest ▸ takePiece?_of_solid (solid_of_startsOperand hx)
  refine recedes_of_derives recedes_inner h rfl rfl rfl hstill (fun _ => ?_) hslash
  exact ⟨[], [], rfl, rfl, hend⟩

end

/-! ## Reading up to a comma or a closing parenthesis -/

/-- The second text is the first with more after it, and the first has a property. -/
def Beside (P : List Char → Prop) (close : List Char) (n : Nat) (text text' : List Char) : Prop :=
  Alongside .inner [] close n text text' ∧ P text

/-- The rules of a value, of which those for lists are inside of brackets. -/
def isTerm (r : Rule) (n : Nat) : Bool :=
  r.isFlat && r != .closingAngle && (n != 0 || !(r == .arguments || r == .params))

theorem visible_of_isTerm {r : Rule} {n : Nat} (hr : isTerm r n = true) (ha : r.isAtomic = true) :
    r.isSilent = false := by
  cases r <;> first | (cases ha; done) | rfl | cases hr

/-- One character is at the head of a text whatever comes after it. -/
theorem isPrefixOf_single {y : Char} {head : List Char} (h : head ≠ []) (close : List Char) :
    [y].isPrefixOf (head ++ close) = [y].isPrefixOf head := by
  obtain ⟨c, head, rfl⟩ := List.exists_cons_of_ne_nil h
  simp [List.isPrefixOf]

section

variable {P : List Char → Prop} {x : Char} {tail : List Char} (hx : x = ',' ∨ x = ')')
  (hP : ∀ text k, P text → P (text.drop k))

include hx

theorem bounds_of_eq : Bounds (x :: tail) := by
  rcases hx with rfl | rfl <;> exact bounds_cons rfl rfl tail

theorem isPrefixOf_inside {free : Bool} (hfree : free = false ∨ x = ')') {m n n' : Nat}
    {chars head code : List Char} (hpair : pair free chars n = some n')
    (hcode : codeOf? .code head = some code) (hnested : nested .inner (m + n) code = true) :
    chars.isPrefixOf (head ++ x :: tail) = chars.isPrefixOf head := by
  cases head with
  | nil =>
    -- Outside of all brackets a literal closes none, and it is no comma if one comes next.
    cases hcode
    have hzero : m + n = 0 := by simpa [nested] using hnested
    refine isPrefixOf_of_notMem ?_ [] tail
    rcases pair_cases hpair with ⟨rfl | rfl, -⟩ | ⟨-, hclose⟩ | ⟨rfl, -, hinside⟩ | ⟨hinert, -⟩
    · rcases hx with rfl | rfl <;> rfl
    · rcases hx with rfl | rfl <;> rfl
    · omega
    · rcases hfree with rfl | rfl
      · exact absurd hinside (by simp; omega)
      · rfl
    · rw [Bool.eq_false_iff, ne_eq, List.contains_iff_mem]
      intro hmem
      have hall := List.all_eq_true.1 hinert x hmem
      rcases hx with rfl | rfl <;> cases hall
  | cons c head =>
    have hne := List.cons_ne_nil c head
    rcases pair_cases hpair with ⟨rfl | rfl, -⟩ | ⟨rfl | rfl, -⟩ | ⟨rfl, -⟩ | ⟨hinert, -⟩
    · exact isPrefixOf_single hne _
    · exact isPrefixOf_single hne _
    · exact isPrefixOf_single hne _
    · exact isPrefixOf_single hne _
    · exact isPrefixOf_single hne _
    · refine isPrefixOf_append_of_stops hinert (stops_cons.2 ?_)
      rcases hx with rfl | rfl <;> rfl

theorem operator_fails_of_eq (s : List (List Char)) :
    Fails (.rule .binaryOperator) s (x :: tail) := by
  rcases hx with rfl | rfl <;> exact fails_binaryOperator rfl (solid_cons rfl)

include hP

theorem Beside.gap {n : Nat} {text text' : List Char} (h : Beside P (x :: tail) n text text') :
    Beside P (x :: tail) n (afterGap text) (afterGap text') :=
  ⟨h.1.gap bounds_nil (bounds_of_eq hx), hP _ _ h.2⟩

theorem tracks_beside {free : Bool} (hfree : free = false ∨ x = ')') {rules : Rule → Nat → Bool}
    {goals : Goal Rule → Prop} (hcalls : grammar.Closed goals)
    (hatomic : ∀ {r n}, rules r n = true → r.isAtomic = true → r.isSilent = false)
    (hpattern : ∀ {r n}, rules r n = true → r.isAtomic = false →
      (∃ k ≤ n, flow (pair free) rules r.pattern k = some k) ∨
        ∀ m, InStep goals (Beside P (x :: tail) (m + n)) (.rule r) (Beside P (x :: tail) (m + n))) :
    Tracks goals (pair free) rules (Beside P (x :: tail)) where
  calls := hcalls
  pattern := hpattern
  atomic := hatomic
  gap := .gap hx hP
  lit := by
    rintro m n n' chars text text' hpair ⟨⟨head, code, hcode, hnested, rfl, rfl⟩, htext⟩ - -
    rcases alongside_lit (clear_of_pair hpair) (nested_of_pair hpair m) hcode hnested
      (by rw [List.append_nil]) (isPrefixOf_inside hx hfree hpair hcode hnested) with
      ⟨rest, rest', hrest, hrest', halong⟩ | hnone
    · refine .inl ⟨rest, rest', hrest, hrest', halong, ?_⟩
      have hdrop := hP _ chars.length htext
      rwa [hrest, List.drop_left] at hdrop
    · exact .inr hnone
  word := by
    rintro r take? m n text text' hr ha hscans ⟨halong, htext⟩ hstill -
    rcases halong.word ha (hatomic hr ha) hscans bounds_nil.delimited (bounds_of_eq hx).delimited
      hstill with ⟨taken, rest, rest', htake, htake', rfl, rfl, hrests⟩ | hnone
    · refine .inl ⟨taken, rest, rest', htake, htake', rfl, rfl, hrests, ?_⟩
      have hdrop := hP _ taken.length htext
      rwa [List.drop_left] at hdrop
    · exact .inr hnone

/-- Where operators are all that is read. -/
theorem tracks_operator : Tracks (fun _ => True) (pair false) (fun r _ => r == .operator)
    (Beside P (x :: tail)) := by
  refine tracks_beside hx hP (.inl rfl) grammar.closed_true (fun {r _} hr _ => ?_)
    (fun {r _} hr ha => ?_)
  · obtain rfl := beq_iff_eq.1 hr
    rfl
  · obtain rfl := beq_iff_eq.1 hr
    cases ha

omit hP in
/-- Where the first text goes on, the lookahead for a closing angle sees the same on both. -/
theorem mirrors_closingAngle {m : Nat} {c : Cursor} {text : List Char} {res : Result Rule}
    (htext : Beside P (x :: tail) m c.rest text) (hne : c.rest ≠ [])
    (hstack : ∀ entry ∈ c.stack, entry ∈ brackets)
    (h : Derives grammar false (.rule .closingAngle) c res) :
    Mirrors (fun _ _ => True) (.rule .closingAngle) c.stack text res := by
  refine mirrors_silent rfl rfl (fun h => ?_) h
  obtain ⟨k, rest, _ | ⟨top, below⟩⟩ := c
  · have hfails {text : List Char} : Fails (pattern .closingAngle) [] text := .seqFirst (.peek nofun)
    cases h.unique (hfails k)
    exact hfails
  obtain ⟨⟨head, code, hcode, hnested, rfl, rfl⟩, hrest⟩ := htext
  -- The entry may be an opening bracket, so the count after it is another one.
  obtain ⟨⟨n, hpair⟩, y, rfl⟩ : (∃ n, pair true top m = some n) ∧ ∃ y, top = [y] := by
    have hentry : top ∈ brackets := hstack top List.mem_cons_self
    simp only [brackets, List.mem_cons, List.not_mem_nil, or_false] at hentry
    rcases hentry with rfl | rfl | rfl | rfl <;> exact ⟨⟨_, rfl⟩, _, rfl⟩
  have hhead : head ≠ [] := by simpa using hne
  have hlit := alongside_lit (clear_of_pair hpair) (by simpa using nested_of_pair hpair 0) hcode hnested
    (isPrefixOf_single hhead []) (isPrefixOf_single hhead (x :: tail))
  refine mirrors_seq (Alongside .inner [] (x :: tail) n)
    (fun _ _ => .gap bounds_nil (bounds_of_eq hx)) (fun hpeek => ?_) ?_ h
  · have hstep : Derives grammar false .peek ⟨k, head ++ [], [y] :: below⟩ _ := .step rfl
    rw [hpeek.unique hstep]
    exact mirrors_peek hlit hstack
  · intro c₁ text₁ res _ halong hstill hstill' hstack h
    have htracks := @tracks_operator (fun _ => True) x tail hx (fun _ _ => id)
    have hmirrors := mirrors_of_derives htracks h (m := n) (n := 0) trivial rfl ⟨halong, trivial⟩
      (.inr ⟨hstill, hstill'⟩) hstack
    exact hmirrors.mono fun _ => trivial

/-- An operator in front of a comma or a closing parenthesis ends there. -/
theorem inStep_binaryOperator (goals : Goal Rule → Prop) (m : Nat) :
    InStep goals (Beside P (x :: tail) m) (.rule .binaryOperator) (Beside P (x :: tail) m) := by
  intro c text res _ htext hstill hstill' hstack h
  by_cases hne : c.rest = []
  · -- A comma is no operator, even if it is at the top of the stack.
    obtain ⟨head, -, -, -, hhead, rfl⟩ := htext.1
    rw [hne] at hhead
    obtain rfl : head = [] := (List.append_eq_nil_iff.1 hhead.symm).1
    obtain ⟨k, rest, stack⟩ := c
    cases hne
    have hfails : Fails (.rule .binaryOperator) stack [] := fails_binaryOperator rfl solid_nil
    cases h.unique (hfails k)
    exact operator_fails_of_eq hx stack
  refine mirrors_silent rfl rfl (fun h => ?_) h
  have htracks : Tracks (fun _ => True) (pair false) (fun r _ => r == .operator)
      (Beside P (x :: tail)) := tracks_operator hx hP
  refine mirrors_seq (Beside P (x :: tail) m) (fun _ _ => .gap hx hP) (fun hangle => ?_) ?_ h
  · exact mirrors_notAhead htext hstack (mirrors_closingAngle hx htext hne hstack) hangle
  · intro c₁ text₁ res _ hrest hstill hstill' hstack h
    exact mirrors_of_derives htracks h (n := 0) trivial rfl hrest (.inr ⟨hstill, hstill'⟩) hstack

end

end Lsl.Rule
