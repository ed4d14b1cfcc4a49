import Lsl.Proofs.Grammar.Simulation
/-!
# What is enclosed is read by itself

The part of a text that a pattern has matched holds whole strings and comments only, and its brackets
are nested.  So what comes after the character that closes it plays no role in how it is read.
-/

namespace Lsl.Rule

open Peg Pattern Lexeme

/-! ## Nested brackets -/

/-- The brackets that are counted: braces, or those inside expressions. -/
inductive Pairing where
  | braces
  | inner
  deriving DecidableEq, Repr

namespace Pairing

def opens : Pairing → Char → Bool
  | braces, c => c == '\x7b'
  | inner, c => c == '(' || c == '['

def closes : Pairing → Char → Bool
  | braces, c => c == '\x7d'
  | inner, c => c == ')' || c == ']'

end Pairing

/-- The brackets of a code close as many as are open before it, and all that it opens. -/
def nested (pairing : Pairing) : Nat → List Char → Bool
  | n, [] => n == 0
  | n, c :: code =>
    if pairing.opens c then nested pairing (n + 1) code
    else if pairing.closes c then n != 0 && nested pairing (n - 1) code
    else nested pairing n code

/-- Characters that are none of the brackets. -/
def Pairing.ignores (pairing : Pairing) (chars : List Char) : Bool :=
  chars.all fun c => !pairing.opens c && !pairing.closes c

section

variable {pairing : Pairing}

theorem ignores_of_all {chars : List Char} (h : chars.all (fun c => !isBracket c) = true) :
    pairing.ignores chars = true := by
  refine List.all_eq_true.2 fun c hc => ?_
  have hbracket := List.all_eq_true.1 h c hc
  simp only [isBracket, Bool.not_eq_true', Bool.or_eq_false_iff, beq_eq_false_iff_ne] at hbracket
  cases pairing <;> simp [Pairing.opens, Pairing.closes, hbracket]

theorem nested_append {chars : List Char} (h : pairing.ignores chars = true) (n : Nat)
    (code : List Char) : nested pairing n (chars ++ code) = nested pairing n code := by
  induction chars with
  | nil => rfl
  | cons c chars ih =>
    simp only [Pairing.ignores, List.all_cons, Bool.and_eq_true, Bool.not_eq_true'] at h
    rw [List.cons_append, nested, if_neg (by simp [h.1.1]), if_neg (by simp [h.1.2]), ih]
    exact List.all_eq_true.2 fun c hc => by simpa using List.all_eq_true.1 h.2 c hc

theorem nested_unbracketed {c : Char} (h : isBracket c = false) (n : Nat) (code : List Char) :
    nested pairing n (c :: code) = nested pairing n code :=
  @nested_append pairing [c] (ignores_of_all (by simp [h])) n code

theorem nested_of_sheds {n : Nat} {code code' : List Char} (h : Sheds code code')
    (hcode : nested pairing n code = true) : nested pairing n code' = true := by
  obtain ⟨shed, rfl, hshed⟩ := h
  rwa [nested_append (ignores_of_all hshed)] at hcode

end

/-! ## Closed texts -/

/-- The text up to a given end holds whole strings and comments, and closes the given number of
brackets. -/
def Shut (pairing : Pairing) (close : List Char) (n : Nat) (text : List Char) : Prop :=
  ∃ head code, codeOf? .code head = some code ∧ nested pairing n code = true ∧ text = head ++ close

theorem codeOf?_of_isStringTail {tail : List Char} (h : isStringTail tail = true)
    (head : List Char) : codeOf? .string (tail ++ head) = codeOf? .code head := by
  fun_induction isStringTail tail with
  | case1 c rest ih => rw [List.cons_append, List.cons_append, codeOf?, ih h]
  | case2 c rest _ hquote =>
    obtain rfl : c = '"' := by simpa using hquote
    obtain rfl := List.isEmpty_iff.1 h
    rw [List.cons_append, codeOf?]
    rfl
  | case3 c rest hescape hquote ih =>
    rw [Bool.and_eq_true, bne_iff_ne] at h
    rw [List.cons_append, codeOf?, ih h.2]
    · exact fun _ _ hc => absurd hc h.1
    · simpa using hquote
  | case4 => cases h

theorem codeOf?_line {body : List Char} (h : body.all (· != '\n') = true) (head : List Char) :
    codeOf? .line (body ++ '\n' :: head) = codeOf? .code head := by
  induction body with
  | nil => rw [List.nil_append, codeOf?]
  | cons c body ih =>
    rw [List.all_cons, Bool.and_eq_true, bne_iff_ne] at h
    rw [List.cons_append, codeOf?, ih h.2]
    exact h.1

theorem head_of_takeBlockTail? {text taken : List Char} (h : takeBlockTail? text = some taken) :
    ∃ c rest taken', text = c :: rest ∧ taken = c :: taken' := by
  fun_cases takeBlockTail? text with
  | case1 rest =>
    rw [takeBlockTail?] at h
    cases h
    exact ⟨_, _, _, rfl, rfl⟩
  | case2 c rest hclose =>
    rw [takeBlockTail?] at h
    · obtain ⟨taken, -, rfl⟩ := Option.map_eq_some_iff.1 h
      exact ⟨_, _, _, rfl, rfl⟩
    · exact hclose
  | case3 => cases h

theorem codeOf?_of_takeBlockTail? {text taken : List Char} (h : takeBlockTail? text = some taken)
    (head : List Char) : codeOf? .block (taken ++ head) = codeOf? .code head := by
  fun_induction takeBlockTail? text generalizing taken with
  | case1 rest =>
    cases h
    rw [List.cons_append, List.cons_append, codeOf?]
    rfl
  | case2 c rest hclose ih =>
    obtain ⟨taken, htaken, rfl⟩ := Option.map_eq_some_iff.1 h
    rw [List.cons_append, codeOf?, ih htaken]
    obtain ⟨d, rest', taken', rfl, rfl⟩ := head_of_takeBlockTail? htaken
    rintro tail rfl htail
    cases htail
    exact hclose rest' rfl rfl
  | case3 => cases h

section

variable {pairing : Pairing} {close : List Char} {n : Nat}

/-- Characters that open neither strings nor comments. -/
theorem Shut.lit {chars text : List Char} {n' : Nat}
    (hclear : chars.all (fun c => c != '"' && c != '/') = true)
    (hcount : ∀ code, nested pairing n (chars ++ code) = nested pairing n' code)
    (h : Shut pairing close n' text) : Shut pairing close n (chars ++ text) := by
  obtain ⟨head, code, hcode, hnested, rfl⟩ := h
  refine ⟨chars ++ head, chars ++ code, ?_, ?_, (List.append_assoc ..).symm⟩
  · rw [codeOf?_append hclear, hcode]
    rfl
  · rwa [hcount]

/-- Characters that open neither strings nor comments, and no brackets. -/
theorem Shut.append {chars text : List Char}
    (hclear : chars.all (fun c => c != '"' && c != '/') = true)
    (hbrackets : chars.all (fun c => !isBracket c) = true) (h : Shut pairing close n text) :
    Shut pairing close n (chars ++ text) :=
  h.lit hclear (nested_append (ignores_of_all hbrackets) n)

theorem Shut.string {taken text : List Char} (htaken : isString taken = true)
    (h : Shut pairing close n text) : Shut pairing close n (taken ++ text) := by
  obtain ⟨head, code, hcode, hnested, rfl⟩ := h
  refine ⟨taken ++ head, code, ?_, hnested, (List.append_assoc ..).symm⟩
  unfold isString at htaken
  split at htaken
  · rw [List.cons_append, codeOf?, codeOf?_of_isStringTail htaken, hcode]
  · cases htaken

/-- A gap holds whole comments only, if anything else comes after it. -/
theorem Shut.gap {text : List Char} (hclose : Stops startsGap close)
    (hne : close ≠ [] ∨ '/' ∉ text) (h : Shut pairing close n (afterGap text)) :
    Shut pairing close n text := by
  induction hn : text.length using Nat.strongRecOn generalizing text with
  | ind m ih =>
    subst hn
    cases hpiece : takePiece? text with
    | none => rwa [afterGap_of_none hpiece] at h
    | some piece =>
      rw [afterGap_of_some hpiece] at h
      have hrest := ih _ (length_drop_piece hpiece)
        (hne.imp_right fun hslash hmem => hslash (List.mem_of_mem_drop hmem)) h rfl
      rcases piece_cases hpiece with ⟨c, rest, hc, rfl, rfl⟩ |
        ⟨body, rest, hbody, hstops, rfl, rfl⟩ | ⟨taken, rest, htaken, rfl, rfl⟩
      · rw [isBlank, Bool.or_eq_true, Bool.or_eq_true, Bool.or_eq_true, beq_iff_eq, beq_iff_eq,
          beq_iff_eq, beq_iff_eq] at hc
        rcases hc with ((rfl | rfl) | rfl) | rfl <;> exact @Shut.append _ _ _ [_] _ rfl rfl hrest
      · simp only [List.length_cons, List.drop_succ_cons, List.drop_left] at hrest
        obtain ⟨head, code, hcode, hnested, rfl⟩ := hrest
        cases head with
        | nil =>
          obtain ⟨d, close, rfl⟩ :=
            List.exists_cons_of_ne_nil (hne.resolve_right fun hslash => hslash List.mem_cons_self)
          have hd : d = '\n' := by simpa using stops_cons.1 hstops
          subst hd
          cases stops_cons.1 hclose
        | cons d head =>
          have hd : d = '\n' := by simpa using stops_cons.1 hstops
          subst hd
          rw [codeOf?_cons (by decide) (by decide)] at hcode
          obtain ⟨code', hcode', rfl⟩ := Option.map_eq_some_iff.1 hcode
          rw [nested_unbracketed rfl] at hnested
          refine ⟨'/' :: '/' :: (body ++ '\n' :: head), code', ?_, hnested, by simp⟩
          rw [codeOf?, codeOf?_line hbody, hcode']
      · simp only [List.length_cons, List.drop_succ_cons, List.drop_left] at hrest
        obtain ⟨head, code, hcode, hnested, rfl⟩ := hrest
        refine ⟨'/' :: '*' :: (taken ++ head), code, ?_, hnested, by simp⟩
        rw [codeOf?, codeOf?_of_takeBlockTail? htaken, hcode]

/-- The words of a rule without parts are whole strings, or hold no quotes, slashes and brackets. A slash
is the exception: it must not be the start of a comment. -/
theorem Shut.word {r : Rule} {taken text : List Char} {take? : List Char → Option (List Char)}
    (ha : r.isAtomic = true) (hs : r.isSilent = false) (hscans : Scans grammar (.rule r) take?)
    (htake : take? (taken ++ text) = some taken) (hstill : takePiece? (taken ++ text) = none)
    (hslash : r = .operator → taken.head? = some '/' → text.head? ≠ some '*')
    (h : Shut pairing close n text) : Shut pairing close n (taken ++ text) := by
  have inert (hr : isInertWord r = true) : Shut pairing close n (taken ++ text) := by
    obtain ⟨-, htaken⟩ := @take_of_confined _ _ (taken ++ text) [] confines_inert r hr take? hscans
      (.nil _) [] (.nil _)
    rw [List.append_nil] at htaken
    obtain ⟨hall, -⟩ := htaken taken htake
    exact h.append (all_of_inert hall).1 (all_of_inert hall).2
  cases r
  case operator =>
    rw [hscans.unique scans_operator] at htake
    obtain ⟨symbol, hfind, rfl⟩ := Option.map_eq_some_iff.1 htake
    rcases operator_cases (List.mem_of_find?_eq_some hfind) with hinert | rfl | rfl
    · exact h.append (all_of_inert hinert).1 (all_of_inert hinert).2
    · obtain ⟨head, code, hcode, hnested, rfl⟩ := h
      rw [← nested_unbracketed (c := '=') rfl, ← nested_unbracketed (c := '/') rfl] at hnested
      refine ⟨'/' :: '=' :: head, '/' :: '=' :: code, ?_, hnested, rfl⟩
      rw [codeOf?_slash (by simp) (by simp), codeOf?_cons (by decide) (by decide), hcode]
      rfl
    · obtain ⟨head, code, hcode, hnested, rfl⟩ := h
      rw [← nested_unbracketed (c := '/') rfl] at hnested
      refine ⟨'/' :: head, '/' :: code, ?_, hnested, rfl⟩
      rw [codeOf?_slash, hcode]
      · rfl
      · intro hhead
        obtain ⟨rest, rfl⟩ := List.head?_eq_some_iff.1 hhead
        cases hstill
      · intro hhead
        obtain ⟨rest, rfl⟩ := List.head?_eq_some_iff.1 hhead
        exact hslash rfl rfl rfl
  case string =>
    rw [hscans.unique scans_string] at htake
    exact h.string (takeString?_eq_some htake)
  case keyword | typeName | name | ident | member | float | integer => exact inert rfl
  all_goals first | (cases ha; done) | cases hs

end

/-! ## What a match takes is closed -/

/-- The patterns whose matches may end with an operator. -/
def lags : Pattern Rule → Bool
  | .rule r => r == .operator || r == .binaryOperator
  | .seq _ q => lags q
  | .alt p q => lags p || lags q
  | .star p | .more p => lags p
  | _ => false

/-- A match of an operand comes first. -/
def isOperandFirst : Pattern Rule → Bool
  | .rule .operand => true
  | _ => false

/-- The patterns in which an operand comes after every operator, but for one at the end. -/
def steady : Pattern Rule → Bool
  | .rule r => r != .closingAngle
  | .seq p q => steady p && steady q && (!lags p || isOperandFirst q)
  | .alt p q => steady p && steady q
  | .star p | .more p => steady p && !lags p
  | .peek => false
  | _ => true

/-- No match of the rule leaves an operator before a star, where the two would open a comment. -/
def Guards (r : Rule) (c c' : Cursor) : Prop :=
  match r with
  | .operator => c.rest.head? = some '/' → c'.rest.head? ≠ some '*'
  | .binaryOperator => c'.rest.head? ≠ some '*'
  | _ => True

/-- A property of remaining texts, at a count, that goes back over gaps, literals and words. A slash is
the exception: it must not be the start of a comment. -/
structure Recedes (move : List Char → Nat → Option Nat) (rules : Rule → Nat → Bool)
    (S : Nat → List Char → Prop) : Prop where
  isPart {r : Rule} {n : Nat} : rules r n = true → r.isPart = true
  pattern {r : Rule} {n : Nat} : rules r n = true → r.isAtomic = false → r ≠ .closingAngle →
    ∃ k ≤ n, flow move rules r.pattern k = some k
  gap {n : Nat} {text : List Char} : S n (afterGap text) → S n text
  lit {m n n' : Nat} {chars text : List Char} : move chars n = some n' → S (m + n') text →
    S (m + n) (chars ++ text)
  word {r : Rule} {n : Nat} {take? : List Char → Option (List Char)} {taken text : List Char} :
    r.isAtomic = true → r.isSilent = false → Scans grammar (.rule r) take? →
    take? (taken ++ text) = some taken → takePiece? (taken ++ text) = none →
    (r = .operator → taken.head? = some '/' → text.head? ≠ some '*') → S n text →
    S n (taken ++ text)

/-- What the rule takes may be put back: the property holds from where the match starts if it holds from
where the match ends. -/
def Backs (rules : Rule → Nat → Bool) (S : Nat → List Char → Prop) (r : Rule) : Meaning Unit :=
  fun c c' _ => (r = .operand → c.rest.head? ≠ some '*') ∧
    ∀ m n, rules r n = true → r ≠ .closingAngle → takePiece? c.rest = none → r.Guards c c' →
      S (m + n) c'.rest → S (m + n) c.rest

/-- A gap in front of no star does not start with one either. -/
theorem ne_star_of_afterGap {text : List Char} (h : (afterGap text).head? ≠ some '*') :
    text.head? ≠ some '*' := by
  intro hhead
  obtain ⟨rest, rfl⟩ := List.head?_eq_some_iff.1 hhead
  rw [afterGap_of_none (takePiece?_of_stops (stops_cons.2 rfl))] at h
  exact h rfl

theorem steady_pattern {r : Rule} (hr : r.isPart = true) (ha : r.isAtomic = false)
    (hangle : r ≠ .closingAngle) (hpost : r ≠ .postMod) :
    steady r.pattern = true ∧ (lags r.pattern = true → r = .binaryOperator) := by
  cases r <;> first | (cases hr; done) | (cases ha; done) | decide | contradiction

section

variable {move : List Char → Nat → Option Nat} {rules : Rule → Nat → Bool}
  {S : Nat → List Char → Prop}

theorem Recedes.skips (hS : Recedes move rules S) {n : Nat} {c c' : Cursor}
    (h : grammar.Skips c c') (hrest : S n c'.rest) : S n c.rest := by
  obtain ⟨_, hgap⟩ := h
  rw [(afterGap_of_derives hgap).1] at hrest
  exact hS.gap hrest

private theorem recedes_of_rounds (hS : Recedes move rules S) {p : Pattern Rule}
    {meaning : Rule → Meaning Unit} {n : Nat} {c c' : Cursor} {xs : List Unit}
    (hp : ∀ {c c' : Cursor} {xs : List Unit}, p.Yields grammar meaning c c' xs →
      takePiece? c.rest = none → S n c'.rest → S n c.rest)
    (h : Rounds grammar (p.Yields grammar meaning) c c' xs) (hrest : S n c'.rest) : S n c.rest := by
  induction h with
  | done => exact hrest
  | round hskips hround _ ih =>
    refine hS.skips hskips (hp hround ?_ (ih hrest))
    obtain ⟨_, hgap⟩ := hskips
    rw [(afterGap_of_derives hgap).1]
    exact takePiece?_afterGap _

theorem recedes_of_yields (hS : Recedes move rules S) {p : Pattern Rule} {c c' : Cursor}
    {xs : List Unit} {m n n' : Nat} (h : p.Yields grammar (Backs rules S) c c' xs)
    (hp : steady p = true) (hflow : flow move rules p n = some n')
    (hready : (∃ q, p = .more q) ∨ takePiece? c.rest = none)
    (hlags : lags p = true → c'.rest.head? ≠ some '*') (hrest : S (m + n') c'.rest) :
    S (m + n) c.rest := by
  have hskip {c c' : Cursor} (h : grammar.Skips c c') : c'.rest = afterGap c.rest := by
    obtain ⟨_, h⟩ := h
    exact (afterGap_of_derives h).1
  induction p generalizing c c' xs m n n' with
  | lit chars =>
    obtain ⟨haccept, -⟩ := h
    have hspans := (Cursor.accept?_eq_some haccept).1
    rw [hspans.1]
    exact hS.lit hflow hrest
  | rule r =>
    rw [flow] at hflow
    split at hflow
    · next hr =>
      cases hflow
      refine h.2 m n hr (bne_iff_ne.1 hp) (hready.resolve_left (by rintro ⟨_, ⟨⟩⟩)) ?_ hrest
      cases r
      case operator => exact fun _ => hlags rfl
      case binaryOperator => exact hlags rfl
      all_goals trivial
    · cases hflow
  | seq p q ihp ihq =>
    obtain ⟨c₁, c₂, ys, zs, hp', hskips, hq', -⟩ := h
    obtain ⟨n₁, hflow, hflow'⟩ := Option.bind_eq_some_iff.1 hflow
    rw [steady, Bool.and_eq_true, Bool.and_eq_true] at hp
    have hrest₂ : S (m + n₁) c₂.rest := by
      refine ihq hq' hp.1.2 hflow' (.inr ?_) hlags hrest
      rw [hskip hskips]
      exact takePiece?_afterGap _
    refine ihp hp' hp.1.1 hflow (.inr (hready.resolve_left (by rintro ⟨_, ⟨⟩⟩))) (fun hlags' => ?_)
      (hS.skips hskips hrest₂)
    rw [hlags', Bool.not_true, Bool.false_or] at hp
    unfold isOperandFirst at hp
    split at hp
    · refine ne_star_of_afterGap ?_
      rw [← hskip hskips]
      exact hq'.1 rfl
    · cases hp.2
  | alt p q ihp ihq =>
    rw [steady, Bool.and_eq_true] at hp
    rw [lags, Bool.or_eq_true] at hlags
    rw [flow] at hflow
    split at hflow
    · next hsame =>
      have hready := hready.resolve_left (by rintro ⟨_, ⟨⟩⟩)
      rcases h with h | h
      · exact ihp h hp.1 hflow (.inr hready) (fun hl => hlags (.inl hl)) hrest
      · exact ihq h hp.2 (hsame ▸ hflow) (.inr hready) (fun hl => hlags (.inr hl)) hrest
    · cases hflow
  | star p ih =>
    rw [steady, Bool.and_eq_true, Bool.not_eq_true'] at hp
    rw [flow] at hflow
    split at hflow
    · next hsame =>
      cases hflow
      have hp' {c c' : Cursor} {xs : List Unit} (h : p.Yields grammar (Backs rules S) c c' xs)
          (hstill : takePiece? c.rest = none) (hrest : S (m + n) c'.rest) : S (m + n) c.rest :=
        ih h hp.1 hsame (.inr hstill) (by rw [hp.2]; rintro ⟨⟩) hrest
      rcases h with ⟨rfl, -⟩ | ⟨c₁, _, _, hround, hrounds, -⟩
      · exact hrest
      · exact hp' hround (hready.resolve_left (by rintro ⟨_, ⟨⟩⟩))
          (recedes_of_rounds hS hp' hrounds hrest)
    · cases hflow
  | more p ih =>
    rw [steady, Bool.and_eq_true, Bool.not_eq_true'] at hp
    rw [flow] at hflow
    split at hflow
    · next hsame =>
      cases hflow
      refine recedes_of_rounds hS (fun h hstill hrest => ?_) h hrest
      exact ih h hp.1 hsame (.inr hstill) (by rw [hp.2]; rintro ⟨⟩) hrest
    · cases hflow
  | ahead p | notAhead p =>
    obtain ⟨_, _, rfl⟩ := Option.map_eq_some_iff.1 hflow
    obtain ⟨-, rfl, -⟩ := h
    exact hrest
  | push p ih =>
    cases p <;> try cases hflow
    case lit chars =>
      rw [flow] at hflow
      split at hflow
      · obtain ⟨c₁, hlit, rfl⟩ := h
        exact ih hlit rfl hflow (.inr (hready.resolve_left (by rintro ⟨_, ⟨⟩⟩))) (by rintro ⟨⟩) hrest
      · cases hflow
  | pushLit chars =>
    rw [flow] at hflow
    split at hflow <;> cases hflow
    obtain ⟨rfl, -⟩ := h
    exact hrest
  | drop =>
    cases hflow
    obtain ⟨_, -, hspans⟩ := Cursor.pop?_eq_some h.1
    rw [hspans.1]
    exact hrest
  | peek => cases hp
  | caseless | one | startOfInput | endOfInput => cases hflow

/-- The operator after what it modifies is no slash. -/
theorem recedes_postMod (hS : Recedes move rules S) {c c' : Cursor} {xs : List Unit} {m n : Nat}
    (h : (pattern .postMod).Yields grammar (Backs rules S) c c' xs)
    (hflow : flow move rules (pattern .postMod) n = some n) (hstill : takePiece? c.rest = none)
    (hrest : S (m + n) c'.rest) : S (m + n) c.rest := by
  obtain ⟨_, hname', hflow⟩ := Option.bind_eq_some_iff.1 hflow
  obtain ⟨_, hahead', hoperator'⟩ := Option.bind_eq_some_iff.1 hflow
  obtain ⟨_, -, rfl⟩ := Option.map_eq_some_iff.1 hahead'
  obtain ⟨hoperator', hn⟩ := Option.ite_none_right_eq_some.1 hoperator'
  cases hn
  obtain ⟨hsame, hname'⟩ := Option.ite_none_right_eq_some.1 hname'
  have hmember := (Option.ite_none_right_eq_some.1 hname').1
  have hident := (Option.ite_none_right_eq_some.1 (hsame.symm.trans hname')).1
  obtain ⟨c₁, c₂, _, _, hname, hskips, h₁, -⟩ := h
  obtain ⟨c₃, c₄, _, _, ⟨⟨_, hahead⟩, rfl, -⟩, hskips', hoperator, -⟩ := h₁
  obtain ⟨word, hword, hspans, -⟩ := hahead.of_words
  have hrest₄ : c₄.rest = afterGap c₃.rest := by
    obtain ⟨_, hgap⟩ := hskips'
    exact (afterGap_of_derives hgap).1
  have hsolid : Solid c₃.rest := by
    rw [hspans.1]
    simp only [List.mem_cons, List.not_mem_nil, or_false] at hword
    rcases hword with rfl | rfl <;> exact solid_cons rfl
  have hback₄ : S (m + n) c₄.rest := by
    refine hoperator.2 m n hoperator' nofun ?_ ?_ hrest
    · rw [hrest₄]
      exact takePiece?_afterGap _
    · intro hslash
      rw [hrest₄, afterGap_of_none (takePiece?_of_solid hsolid), hspans.1] at hslash
      simp only [List.mem_cons, List.not_mem_nil, or_false] at hword
      rcases hword with rfl | rfl <;> cases hslash
  have hback₁ := hS.skips hskips (hS.skips hskips' hback₄)
  rcases hname with hname | hname
  · exact hname.2 m n hmember nofun hstill trivial hback₁
  · exact hname.2 m n hident nofun hstill trivial hback₁

/-- What a match takes may be put back. -/
theorem means_backs (hS : Recedes move rules S) :
    grammar.Means (fun _ _ => True) (Backs rules S) where
  silent {r c c' ts xs} hs ha hd h := by
    refine ⟨?_, fun m n hr hangle hstill hguards hrest => ?_⟩
    · rintro rfl hhead
      obtain ⟨y, rest, hrest, hy⟩ := starts_of_derives rfl hd
      rw [hrest] at hhead
      cases hhead
      cases hy
    have hpost : r ≠ .postMod := by rintro rfl; cases hs
    obtain ⟨hsteady, hlags⟩ := steady_pattern (hS.isPart hr) ha hangle hpost
    obtain ⟨k, hk, hflow⟩ := hS.pattern hr ha hangle
    obtain ⟨d, rfl⟩ := Nat.exists_eq_add_of_le' hk
    rw [← Nat.add_assoc] at hrest ⊢
    refine recedes_of_yields hS h hsteady hflow (.inr hstill) ?_ hrest
    intro hlag
    cases hlags hlag
    exact hguards
  node {r c c' ts xs} hs ha hd _ h := by
    refine ⟨(), trivial, ?_, fun m n hr hangle hstill _ hrest => ?_⟩
    · rintro rfl
      cases hs
    obtain ⟨k, hk, hflow⟩ := hS.pattern hr ha hangle
    obtain ⟨d, rfl⟩ := Nat.exists_eq_add_of_le' hk
    rw [← Nat.add_assoc] at hrest ⊢
    by_cases hpost : r = .postMod
    · subst hpost
      exact recedes_postMod hS h hflow hstill hrest
    obtain ⟨hsteady, hlags⟩ := steady_pattern (hS.isPart hr) ha hangle hpost
    refine recedes_of_yields hS h hsteady hflow (.inr hstill) ?_ hrest
    intro hlag
    cases hlags hlag
    cases hs
  silentAtomic {r c c'} hs ha hd := by
    refine ⟨?_, fun m n hr => ?_⟩
    · rintro rfl
      cases ha
    · have hpart := hS.isPart hr
      cases r <;> first | (cases hs; done) | (cases ha; done) | cases hpart
  nodeAtomic {r c c'} hs ha hd := by
    refine ⟨(), trivial, ?_, fun m n hr hangle hstill hguards hrest => ?_⟩
    · rintro rfl
      cases ha
    have hrule : Derives grammar true (.rule r) c (some (c', [])) := .node hs hd
    obtain ⟨take?, hscans⟩ := exists_scans ha
    obtain ⟨taken, htake, hspans⟩ := hscans.eq_some hrule
    rw [hspans.1] at htake hstill ⊢
    refine hS.word ha hs hscans htake hstill ?_ hrest
    rintro rfl hslash
    refine hguards ?_
    rw [hspans.1, List.head?_append, hslash]
    rfl

theorem recedes_of_derives (hS : Recedes move rules S) {p : Pattern Rule} {c c' : Cursor}
    {ts : List (ParseTree Rule)} {n : Nat} (h : Derives grammar false p c (some (c', ts)))
    (hp : steady p = true) (hlags : lags p = false) (hflow : flow move rules p 0 = some 0)
    (hstill : takePiece? c.rest = none) (hrest : S n c'.rest) : S n c.rest := by
  obtain ⟨_, -, hyields⟩ := h.yields (means_backs hS)
  exact recedes_of_yields hS hyields hp hflow (.inr hstill) (by rw [hlags]; nofun) hrest

end

/-! ## Texts up to a brace or a semicolon -/

/-- The characters that end what comes before them. -/
def closers : List Char :=
  ['\x7b', '\x7d', ';']

/-- The rules that hold neither braces nor semicolons. -/
def isFlat : Rule → Bool
  | .type | .typeName | .keyword | .name | .params | .param | .ident | .value | .operator
  | .closingAngle | .binaryOperator | .operand | .preMod | .postMod | .member | .cast | .primary
  | .call | .arguments | .quaternion | .vector | .list | .float | .integer | .string => true
  | _ => false

/-- The rules in front of the character: inside braces all, and else only those that do not hold
it. -/
def isBefore (close : Char) (r : Rule) : Bool :=
  if close = '\x7d' then r.isPart else r.isFlat

/-- Braces count, and the literal that closes the text does not occur but for inner braces. -/
def steps (close : Char) (chars : List Char) (n : Nat) : Option Nat :=
  if chars = ['\x7d'] then
    if n = 0 then none else some (n - 1)
  else if chars.contains close then none
  else if chars = ['\x7b'] then some (n + 1)
  else if chars.all (fun c => c != '\x7b' && c != '\x7d' && (c != '"' && c != '/')) then some n
  else none

/-- The patterns that are read up to the character, with nothing left open. -/
def standsBefore (x : Char) (p : Pattern Rule) : Bool :=
  steady p && !lags p && flow (steps x) (anywhere (isBefore x)) p 0 == some 0 &&
    p.pending 0 == some 0

section

variable {x : Char} {close : List Char}

theorem steps_cases {chars : List Char} {n n' : Nat} (h : steps x chars n = some n') :
    (chars = ['\x7d'] ∧ n = n' + 1) ∨
    (chars.contains x = false ∧ chars = ['\x7b'] ∧ n' = n + 1) ∨
    (chars.contains x = false ∧ n' = n ∧ chars.all (fun c => c != '"' && c != '/') = true ∧
      Pairing.braces.ignores chars = true) := by
  unfold steps at h
  split at h
  · next hchars =>
    split at h
    · cases h
    · cases h
      exact .inl ⟨hchars, by omega⟩
  split at h
  · cases h
  next hclose =>
  have hclose := Bool.eq_false_iff.2 hclose
  split at h
  · next hchars =>
    cases h
    exact .inr (.inl ⟨hclose, hchars, rfl⟩)
  split at h
  · next hchars =>
    cases h
    have hclear (c : Char) (hc : c ∈ chars) := Bool.and_eq_true_iff.1 (List.all_eq_true.1 hchars c hc)
    exact .inr (.inr ⟨hclose, rfl, List.all_eq_true.2 fun c hc => (hclear c hc).2,
      List.all_eq_true.2 fun c hc => (hclear c hc).1⟩)
  · cases h

theorem clear_of_steps {chars : List Char} {n n' : Nat} (h : steps x chars n = some n') :
    chars.all (fun c => c != '"' && c != '/') = true := by
  rcases steps_cases h with ⟨rfl, -⟩ | ⟨-, rfl, -⟩ | ⟨-, -, hclear, -⟩
  · rfl
  · rfl
  · exact hclear

theorem nested_of_steps {chars : List Char} {n n' : Nat} (h : steps x chars n = some n') (m : Nat)
    (code : List Char) : nested .braces (m + n) (chars ++ code) = nested .braces (m + n') code := by
  rcases steps_cases h with ⟨rfl, rfl⟩ | ⟨-, rfl, rfl⟩ | ⟨-, rfl, -, hbraces⟩
  · simp [nested, Pairing.opens, Pairing.closes, ← Nat.add_assoc]
  · simp [nested, Pairing.opens, Nat.add_assoc]
  · exact nested_append hbraces _ code

theorem isPart_of_isBefore {r : Rule} (hr : isBefore x r = true) : r.isPart = true := by
  unfold isBefore at hr
  split at hr
  · exact hr
  · cases r <;> first | rfl | cases hr

theorem flow_pattern (hx : x ∈ closers) {r : Rule} (hr : isBefore x r = true)
    (ha : r.isAtomic = false) :
    flow (Rule.steps x) (anywhere (isBefore x)) r.pattern 0 = some 0 := by
  simp only [closers, List.mem_cons, List.not_mem_nil, or_false] at hx
  rcases hx with rfl | rfl | rfl <;> cases r <;>
    first | (cases hr; done) | (cases ha; done) | decide

theorem recedes_shut (hx : x ∈ closers) (hclose : Stops startsGap close) (hne : close ≠ []) :
    Recedes (steps x) (anywhere (isBefore x)) (Shut .braces close) where
  isPart hr := isPart_of_isBefore hr
  pattern hr ha _ := ⟨0, Nat.zero_le _, flow_pattern hx hr ha⟩
  gap h := h.gap hclose (.inl hne)
  lit hsteps h := h.lit (clear_of_steps hsteps) (nested_of_steps hsteps _)
  word ha hs hscans htake hstill hslash h := h.word ha hs hscans htake hstill hslash

end

/-! ## What is closed is read by itself -/

/-- The texts are the same up to where both are closed. -/
def Alongside (pairing : Pairing) (close close' : List Char) (n : Nat) (text text' : List Char) :
    Prop :=
  ∃ head code, codeOf? .code head = some code ∧ nested pairing n code = true ∧
    text = head ++ close ∧ text' = head ++ close'

/-- Every word, gap and comment in front of the text ends there. -/
structure Bounds (close : List Char) : Prop where
  delimited : Delimited close
  still : takePiece? close = none

theorem bounds_nil : Bounds [] :=
  ⟨.nil _, rfl⟩

theorem bounds_cons {x : Char} (hdelimiter : isDelimiter x = true) (hblank : isBlank x = false)
    (rest : List Char) : Bounds (x :: rest) := by
  refine ⟨stops_cons.2 (by rw [hdelimiter]; rfl), takePiece?_of_solid (solid_cons ?_)⟩
  simp only [isBlank, Bool.or_eq_false_iff] at hblank
  simp only [startsGap, hblank, Bool.false_or, beq_eq_false_iff_ne]
  rintro rfl
  cases hdelimiter

section

variable {pairing : Pairing} {close close' text text' : List Char}

theorem Alongside.gap {n : Nat} (hclose : Bounds close) (hclose' : Bounds close')
    (h : Alongside pairing close close' n text text') :
    Alongside pairing close close' n (afterGap text) (afterGap text') := by
  obtain ⟨head, code, hcode, hnested, rfl, rfl⟩ := h
  obtain ⟨left, code', hleft, hsheds, hgap⟩ := gap_of_codeOf? hcode
  have hstill {close : List Char} (hclose : Bounds close) :
      afterGap (head ++ close) = left ++ close := by
    obtain ⟨hskip, hend⟩ := hgap _ hclose.delimited
    rw [hskip]
    refine afterGap_of_none (hend.elim (fun hnil => ?_) id)
    rw [hnil]
    exact hclose.still
  rw [hstill hclose, hstill hclose']
  exact ⟨left, code', hleft, nested_of_sheds hsheds hnested, rfl, rfl⟩

/-- A literal that does not reach the close. -/
theorem alongside_lit {n n' : Nat} {chars head code : List Char}
    (hclear : chars.all (fun c => c != '"' && c != '/') = true)
    (hcount : ∀ code, nested pairing n (chars ++ code) = nested pairing n' code)
    (hcode : codeOf? .code head = some code) (hnested : nested pairing n code = true)
    (hpre : chars.isPrefixOf (head ++ close) = chars.isPrefixOf head)
    (hpre' : chars.isPrefixOf (head ++ close') = chars.isPrefixOf head) :
    (∃ rest rest', head ++ close = chars ++ rest ∧ head ++ close' = chars ++ rest' ∧
      Alongside pairing close close' n' rest rest') ∨
      (chars.isPrefixOf (head ++ close) = false ∧ chars.isPrefixOf (head ++ close') = false) := by
  rcases lit_of_codeOf? hclear hcode hpre hpre' with ⟨left, code', rfl, rfl, hleft⟩ | hnone
  · rw [hcount] at hnested
    exact .inl ⟨_, _, List.append_assoc .., List.append_assoc .., left, code', hleft, hnested, rfl,
      rfl⟩
  · exact .inr hnone

theorem Alongside.word {r : Rule} {n : Nat} {take? : List Char → Option (List Char)}
    (ha : r.isAtomic = true) (hs : r.isSilent = false) (hscans : Scans grammar (.rule r) take?)
    (hclose : Delimited close) (hclose' : Delimited close') (hstill : takePiece? text = none)
    (h : Alongside pairing close close' n text text') :
    (∃ taken rest rest', take? text = some taken ∧ take? text' = some taken ∧
      text = taken ++ rest ∧ text' = taken ++ rest' ∧
      Alongside pairing close close' n rest rest') ∨
      (take? text = none ∧ take? text' = none) := by
  obtain ⟨head, code, hcode, hnested, rfl, rfl⟩ := h
  obtain ⟨hsame, htaken⟩ := word_of_codeOf? ha hs hscans hcode hstill hclose hclose'
  rw [hsame]
  cases htake : take? (head ++ close) with
  | none => exact .inr ⟨rfl, rfl⟩
  | some taken =>
    obtain ⟨left, code', rfl, hleft, hsheds⟩ := htaken taken htake
    exact .inl ⟨taken, _, _, rfl, rfl, List.append_assoc .., List.append_assoc ..,
      left, code', hleft, nested_of_sheds hsheds hnested, rfl, rfl⟩

end

section

variable {x : Char} {rest rest' : List Char}

theorem bounds_closer (hx : x ∈ closers) (rest : List Char) : Bounds (x :: rest) := by
  simp only [closers, List.mem_cons, List.not_mem_nil, or_false] at hx
  rcases hx with rfl | rfl | rfl <;> exact bounds_cons rfl rfl rest

theorem solid_closer (hx : x ∈ closers) (rest : List Char) : Stops startsGap (x :: rest) := by
  simp only [closers, List.mem_cons, List.not_mem_nil, or_false] at hx
  rcases hx with rfl | rfl | rfl <;> exact stops_cons.2 rfl

theorem isPrefixOf_of_notMem {chars : List Char} (h : chars.contains x = false)
    (head rest : List Char) : chars.isPrefixOf (head ++ x :: rest) = chars.isPrefixOf head := by
  have hall : chars.all chars.contains = true :=
    List.all_eq_true.2 fun c hc => List.contains_iff_mem.2 hc
  exact isPrefixOf_append_of_stops hall (stops_cons.2 h)

/-- A literal does not reach the close. -/
theorem isPrefixOf_close {m n n' : Nat} {chars head code : List Char}
    (hsteps : steps x chars n = some n') (hcode : codeOf? .code head = some code)
    (hnested : nested .braces (m + n) code = true) (rest : List Char) :
    chars.isPrefixOf (head ++ x :: rest) = chars.isPrefixOf head := by
  rcases steps_cases hsteps with ⟨rfl, rfl⟩ | ⟨h, -⟩ | ⟨h, -⟩
  · cases head with
    | nil =>
      -- An inner brace is closed, so the code before the close is not over.
      cases hcode
      cases hnested
    | cons c head => simp [List.isPrefixOf]
  · exact isPrefixOf_of_notMem h head rest
  · exact isPrefixOf_of_notMem h head rest

theorem tracks_alongside (hx : x ∈ closers) :
    Tracks (fun _ => True) (steps x) (anywhere (isBefore x))
      (Alongside .braces (x :: rest) (x :: rest')) where
  calls := grammar.closed_true
  pattern hr ha := .inl ⟨0, Nat.zero_le _, flow_pattern hx hr ha⟩
  atomic {r n} hr ha := by
    have hpart := isPart_of_isBefore hr
    cases r <;> first | (cases hpart; done) | (cases ha; done) | rfl
  gap := .gap (bounds_closer hx rest) (bounds_closer hx rest')
  lit := by
    rintro m n n' chars text text' hsteps ⟨head, code, hcode, hnested, rfl, rfl⟩ - -
    exact alongside_lit (clear_of_steps hsteps) (nested_of_steps hsteps m) hcode hnested
      (isPrefixOf_close hsteps hcode hnested rest) (isPrefixOf_close hsteps hcode hnested rest')
  word := by
    intro r take? m n text text' hr ha hscans htext hstill _
    have hs : r.isSilent = false := by
      have hpart := isPart_of_isBefore hr
      cases r <;> first | (cases hpart; done) | (cases ha; done) | rfl
    exact htext.word ha hs hscans (bounds_closer hx rest).delimited
      (bounds_closer hx rest').delimited hstill

/-- What is read up to a close is read the same, whatever comes after the close. -/
theorem echoes_of_close (hx : x ∈ closers) {p : Pattern Rule} {c c₁ c₂ : Cursor}
    {ts : List (ParseTree Rule)} {text : List Char} (htext : afterGap text = c.rest)
    (h : Derives grammar false p c (some (c₁, ts))) (hskips : grammar.Skips c₁ c₂)
    (hclose : c₂.rest = x :: rest) (hp : standsBefore x p = true) (hstack : c.stack = []) :
    ∃ head, text = head ++ x :: rest ∧ ∀ rest', ∃ left,
      Echoes p [] (afterGap (head ++ x :: rest')) [] left ts ∧ afterGap left = x :: rest' := by
  simp only [standsBefore, Bool.and_eq_true, Bool.not_eq_true', beq_iff_eq] at hp
  obtain ⟨⟨⟨hsteady, hlags⟩, hflow⟩, hpending⟩ := hp
  obtain ⟨_, hgap⟩ := hskips
  have hstill : takePiece? c.rest = none := htext ▸ takePiece?_afterGap text
  have hafter : afterGap c₁.rest = x :: rest := by rw [← (afterGap_of_derives hgap).1, hclose]
  have hshut : Shut .braces (x :: rest) 0 text := by
    have hrecedes := recedes_shut hx (solid_closer hx rest) nofun
    refine hrecedes.gap ?_
    rw [htext]
    refine recedes_of_derives hrecedes h hsteady hlags hflow hstill (hrecedes.gap ?_)
    rw [hafter]
    exact ⟨[], [], rfl, rfl, rfl⟩
  obtain ⟨head, code, hcode, hnested, hhead⟩ := hshut
  refine ⟨head, hhead, fun rest' => ?_⟩
  have htracks := @tracks_alongside x rest rest' hx
  have hstart := htracks.gap ⟨head, code, hcode, hnested, hhead, rfl⟩
  rw [htext] at hstart
  obtain ⟨-, left, hleft, hechoes⟩ :=
    mirrors_of_derives htracks h trivial hflow hstart (.inr ⟨hstill, takePiece?_afterGap _⟩)
      (by rw [hstack]; nofun)
  rw [h.stack_eq grammar_balanced hpending, hstack] at hechoes
  refine ⟨left, hechoes, ?_⟩
  obtain ⟨head', _, -, -, hend, hend'⟩ := htracks.gap hleft
  have hnil : head' = [] := by
    rw [hafter] at hend
    exact List.append_cancel_right (hend.symm.trans (List.nil_append _).symm)
  rw [hend', hnil]
  rfl

end

end Lsl.Rule
