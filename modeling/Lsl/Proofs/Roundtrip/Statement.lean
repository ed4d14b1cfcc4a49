import Lsl.Proofs.Roundtrip.Operand
/-!
# Reading statements

One lemma for each kind of statement: it is read back if the expressions and blocks inside it are,
with any blanks in the places for line ends.
-/

namespace Lsl.Rule

open Peg Pattern Lexeme

variable {text text' rest : List Char} {width : Nat}

/-! ## Parts of statements -/

theorem solid_of_isName {name : List Char} (h : isName name = true) : Solid (name ++ rest) := by
  obtain ⟨x, tail, rfl, hx⟩ := head_of_isName h
  refine solid_of_startsOperand ?_
  rw [startsOperand, startsPrimary, hx]
  simp

theorem solid_of_type {type : Primitive} (h : type.isVoid = false) : Solid (type.text ++ rest) := by
  cases type <;> first | (cases h; done) | exact solid_cons rfl

/-- An operation of a statement, in front of a bracket or a semicolon. -/
theorem ReadsOperation.reads_part {o : Operation} (h : ReadsOperation width o) {r : Rule}
    {kind : Kind} (hr : IsOperation r kind) {x : Char} (hx : closesList x = true) :
    Reads (.rule r) [] (o.text width ++ x :: rest) [] (x :: rest)
      [.single r (.node (o.toNode kind))] := by
  obtain ⟨hends, hne⟩ := ends_of_closesList hx
  exact h.reads (s := []) hr nofun hends hne nofun fun _ _ => stalls_close hx

/-- The written form of an operation does not start with a keyword. -/
theorem ReadsOperation.unkeyed {o : Operation} (h : ReadsOperation width o) {x : Char}
    (hx : closesList x = true) : Unkeyed (o.text width ++ x :: rest) := by
  obtain ⟨hends, hne⟩ := ends_of_closesList hx
  have hruns := h [] (x :: rest) nofun (.close hends) nofun
    (fun _ _ => stalls_close hx) fun _ _ => pends_of_ends hends hne
  exact hruns.unkeyed

/-- A condition in parentheses. -/
theorem reads_condition {o : Operation} (h : ReadsOperation width o) {q : Pattern Rule}
    {items : List Item} (hgap : GapTo text text') (hq : Reads q [] text' [] rest items) :
    Reads (.seq (word "(") (.seq (.rule .condition) (.seq (word ")") q))) []
      ('(' :: (o.text width ++ ')' :: text)) [] rest
      (.single .condition (.node (.condition o)) :: items) :=
  .next (.word "(") h.solid (.next (h.reads_part isOperation_condition rfl) (solid_cons rfl)
    (.seq (.word ")") hgap hq))

/-! ## Statements without blocks -/

theorem reads_variable {type : Primitive} (htype : type.isVoid = false) {name : String}
    (hname : isName name.toList = true) {value : Operation} (h : ReadsOperation width value) :
    Reads (.rule .variable) [] (type.text ++ ' ' :: (name.toList ++ ' ' :: '=' :: ' ' ::
      (value.text width ++ ';' :: rest))) [] rest
      [.single .variable (.node (.variable (some type) (some name) (some (.node (.value value)))))] := by
  have hbuild : build .variable [.single .type (.ofType type), .single .name (.text name),
      .single .value (.node (.value value))] = _ :=
    build_variable type name (some (.node (.value value)))
  have hvalue : Reads (opt (cat [word "=", .rule .value])) []
      ('=' :: ' ' :: (value.text width ++ ';' :: rest)) [] (';' :: rest)
      [.single .value (.node (.value value))] :=
    .altFirst (.seq (.word "=") h.solid.blank (h.reads_part isOperation_value rfl))
  exact .node rfl hbuild rfl rfl
    (.seq (reads_type htype (stops_cons.2 rfl)) (solid_of_isName hname).blank
      (.seq (reads_name hname (stops_cons.2 rfl)) (solid_cons rfl).blank
        (.next hvalue (solid_cons rfl) (.word ";"))))

theorem reads_jump {name : String} (hname : isName name.toList = true) :
    Reads (.rule .jump) [] ("jump".toList ++ ' ' :: (name.toList ++ ';' :: rest)) [] rest
      [.single .jump (.node (.jump (some name)))] :=
  .node rfl (build_jump name) rfl rfl
    (.seq (reads_keyed rfl (stops_cons.2 rfl)) (solid_of_isName hname).blank
      (.next (reads_name hname (stops_cons.2 rfl)) (solid_cons rfl) (.word ";")))

theorem reads_label {name : String} (hname : isName name.toList = true) :
    Reads (.rule .label) [] ('@' :: (name.toList ++ ';' :: rest)) [] rest
      [.single .label (.node (.label (some name)))] :=
  .node rfl (build_label name) rfl rfl
    (.next (.word "@") (solid_of_isName hname)
      (.next (reads_name hname (stops_cons.2 rfl)) (solid_cons rfl) (.word ";")))

theorem reads_ret : Reads (.rule .ret) [] ("return".toList ++ ';' :: rest) [] rest
    [.single .ret (.node (.ret none))] :=
  .node rfl (build_ret none) rfl rfl
    (.next (reads_keyed rfl (stops_cons.2 rfl)) (solid_cons rfl)
      (.next (.optNone (fails_of_head rfl rfl)) (solid_cons rfl) (.word ";")))

theorem reads_ret_value {value : Operation} (h : ReadsOperation width value) :
    Reads (.rule .ret) [] ("return".toList ++ ' ' :: (value.text width ++ ';' :: rest)) [] rest
      [.single .ret (.node (.ret (some (.node (.value value)))))] :=
  .node rfl (build_ret (some (.node (.value value)))) rfl rfl
    (.seq (reads_keyed rfl (stops_cons.2 rfl)) h.solid.blank
      (.next (.altFirst (h.reads_part isOperation_value rfl)) (solid_cons rfl) (.word ";")))

theorem reads_stateChange_default :
    Reads (.rule .stateChange) [] ("state".toList ++ ' ' :: ("default".toList ++ ';' :: rest)) []
      rest [.single .stateChange (.node (.stateChange none))] :=
  .node rfl (build_stateChange none) rfl rfl
    (.seq (reads_keyed rfl (stops_cons.2 rfl)) (solid_cons rfl).blank
      (.next (.altFirst (reads_keyed rfl (stops_cons.2 rfl))) (solid_cons rfl) (.word ";")))

theorem reads_stateChange {name : String} (hname : isName name.toList = true) :
    Reads (.rule .stateChange) [] ("state".toList ++ ' ' :: (name.toList ++ ';' :: rest)) [] rest
      [.single .stateChange (.node (.stateChange (some name)))] := by
  have hstops : Stops isNameChar (';' :: rest) := stops_cons.2 rfl
  exact .node rfl (build_stateChange (some name)) rfl rfl
    (.seq (reads_keyed rfl (stops_cons.2 rfl)) (solid_of_isName hname).blank
      (.next (.altSecond (fails_keyed (unkeyed_append hname hstops)) (reads_name hname hstops))
        (solid_cons rfl) (.word ";")))

/-! ## Statements with blocks -/

/-- A block is read back wherever it is written. -/
def ReadsBlock (text : List Char) (body : Body) : Prop :=
  (∃ tail, text = '\x7b' :: tail) ∧
    ∀ rest, Reads (.rule .body) [] (text ++ rest) [] rest [.single .body (.ofBody body)]

theorem ReadsBlock.solid {body : Body} (h : ReadsBlock text body) : Solid (text ++ rest) := by
  obtain ⟨tail, rfl⟩ := h.1
  exact solid_cons rfl

section

variable {o : Operation} {body : Body} {blanks blanks' blanks'' block block' : List Char}
  (ho : ReadsOperation width o) (hblock : ReadsBlock block body)
  (hblanks : blanks.all isBlank = true) (hblanks' : blanks'.all isBlank = true)

include ho hblock hblanks in
theorem reads_whileLoop :
    Reads (.rule .whileLoop) [] ("while".toList ++ ' ' :: '(' :: (o.text width ++ ')' :: (blanks ++
      (block ++ rest)))) [] rest
      [.single .whileLoop (.node (.whileLoop (some (.condition o)) (some body)))] :=
  .node rfl (build_whileLoop (.condition o) body) rfl rfl
    (.seq (reads_keyed rfl (stops_cons.2 rfl)) (solid_cons rfl).blank
      (reads_condition ho (gapTo_blanks hblanks hblock.solid) (hblock.2 rest)))

include ho hblock hblanks hblanks' in
theorem reads_doLoop :
    Reads (.rule .doLoop) [] ("do".toList ++ '\n' :: (blanks ++ (block ++ (blanks' ++
      ("while".toList ++ ' ' :: '(' :: (o.text width ++ ')' :: ';' :: rest)))))) [] rest
      [.single .doLoop (.node (.doLoop (some (.condition o)) (some body)))] := by
  have hgap : GapTo ('\n' :: (blanks ++ (block ++ (blanks' ++
      ("while".toList ++ ' ' :: '(' :: (o.text width ++ ')' :: ';' :: rest)))))) _ :=
    @gapTo_blanks ('\n' :: blanks) _ hblanks hblock.solid
  exact .node rfl (build_doLoop (.condition o) body) rfl rfl
    (.seq (reads_keyed rfl (stops_cons.2 rfl)) hgap
      (.seq (hblock.2 _) (gapTo_blanks hblanks' (solid_cons rfl))
        (.seq (reads_keyed rfl (stops_cons.2 rfl)) (solid_cons rfl).blank
          (reads_condition ho (solid_cons rfl).gapTo (.word ";")))))

include ho hblock hblanks hblanks'

/-- A branch up to the block of its `else`. -/
theorem reads_branch {other : List Char} {items : List Item} (hother : Solid other)
    (h : Reads (oneOf [word ";", .rule .elseBranch]) [] other [] rest items)
    (hblanks'' : blanks''.all isBlank = true) {node : Node}
    (hbuild : build .ifElse (.single .condition (.node (.condition o)) ::
      .single .body (.ofBody body) :: items) = some node) :
    Reads (.rule .ifElse) [] ("if".toList ++ ' ' :: '(' :: (o.text width ++ ')' :: (blanks ++ (block ++
      (blanks' ++ ("else".toList ++ '\n' :: (blanks'' ++ other))))))) [] rest
      [.single .ifElse (.node node)] := by
  have hgap : GapTo ('\n' :: (blanks'' ++ other)) other :=
    @gapTo_blanks ('\n' :: blanks'') other hblanks'' hother
  have helse : Reads (opt (cat [keyed "else", oneOf [word ";", .rule .elseBranch]])) []
      ("else".toList ++ '\n' :: (blanks'' ++ other)) [] rest items :=
    .altFirst (.seq (reads_keyed rfl (stops_cons.2 rfl)) hgap h)
  exact .node rfl hbuild rfl rfl
    (.seq (reads_keyed rfl (stops_cons.2 rfl)) (solid_cons rfl).blank
      (reads_condition ho (gapTo_blanks hblanks hblock.solid)
        (.seq (hblock.2 _) (gapTo_blanks hblanks' (solid_cons rfl)) helse)))

theorem reads_ifElse (hblanks'' : blanks''.all isBlank = true) :
    Reads (.rule .ifElse) [] ("if".toList ++ ' ' :: '(' :: (o.text width ++ ')' :: (blanks ++ (block ++
      (blanks' ++ ("else".toList ++ '\n' :: (blanks'' ++ ';' :: rest))))))) [] rest
      [.single .ifElse (.node (.ifElse (some (.condition o)) (some body) none))] :=
  reads_branch ho hblock hblanks hblanks' (solid_cons rfl) (.altFirst (.word ";")) hblanks''
    (build_ifElse (.condition o) body none)

theorem reads_ifElse_else {other : Body} (hother : ReadsBlock block' other)
    (hblanks'' : blanks''.all isBlank = true) :
    Reads (.rule .ifElse) [] ("if".toList ++ ' ' :: '(' :: (o.text width ++ ')' :: (blanks ++ (block ++
      (blanks' ++ ("else".toList ++ '\n' :: (blanks'' ++ (block' ++ rest)))))))) [] rest
      [.single .ifElse (.node (.ifElse (some (.condition o)) (some body) (some (.body other))))] := by
  have hfail : Fails (word ";") [] (block' ++ rest) := by
    obtain ⟨tail, rfl⟩ := hother.1
    exact .word rfl
  exact reads_branch ho hblock hblanks hblanks' hother.solid
    (.altSecond hfail (.pass rfl rfl rfl (hother.2 rest))) hblanks''
    (build_ifElse (.condition o) body (some (.body other)))

end

/-- The expressions at either side of the condition of a loop. -/
theorem reads_commands {r : Rule} (hpattern : pattern r = commaSeparated (.rule .expression))
    (hsilent : r.isSilent = false) (hatomic : r.isAtomic = false) {os : List Operation}
    (hread : ∀ o ∈ os, ReadsOperation width o) (hseparable : separable os = true) {x : Char}
    (hx : closesList x = true) :
    Reads (.rule r) [] (commaText (os.map (Operation.text width)) ++ x :: rest) [] (x :: rest)
      [.group r ((os.map .expression).map .node)] := by
  have hlist := @reads_commaSeparated [] rest width os .expression .expression
    isOperation_expression nofun nofun x hx hread hseparable
  have hgroup := @Reads.group [] [] (commaText (os.map (Operation.text width)) ++ x :: rest)
    (x :: rest) r (os.map fun o => (.expression, .node (.expression o))) hsilent hatomic
  rw [hpattern, List.map_map, List.map_map] at hgroup
  rw [List.map_map]
  exact hgroup hlist

/-- The written form of the condition of a loop, if there is one. -/
def conditionText (width : Nat) : Option Operation → List Char
  | some o => o.text width
  | none => []

theorem reads_forLoop {pre loop : List Operation} {condition? : Option Operation} {body : Body}
    {blanks block : List Char} (hpre : ∀ o ∈ pre, ReadsOperation width o)
    (hseparable : separable pre = true) (hcondition : ∀ o ∈ condition?, ReadsOperation width o)
    (hloop : ∀ o ∈ loop, ReadsOperation width o) (hseparable' : separable loop = true)
    (hblock : ReadsBlock block body) (hblanks : blanks.all isBlank = true) :
    Reads (.rule .forLoop) [] ("for".toList ++ ' ' :: '(' ::
      (commaText (pre.map (Operation.text width)) ++ ';' :: ' ' ::
        (conditionText width condition? ++ ';' :: ' ' ::
          (commaText (loop.map (Operation.text width)) ++ ')' :: (blanks ++ (block ++ rest)))))) []
      rest [.single .forLoop (.node (.forLoop (pre.map .expression) (condition?.map .condition)
        (loop.map .expression) (some body)))] := by
  have hend : Reads (cat [.rule .loopcommands, word ")", .rule .body]) []
      (commaText (loop.map (Operation.text width)) ++ ')' :: (blanks ++ (block ++ rest))) [] rest
      [.group .loopcommands ((loop.map .expression).map .node), .single .body (.ofBody body)] :=
    .next (reads_commands rfl rfl rfl hloop hseparable' rfl) (solid_cons rfl)
      (.seq (.word ")") (gapTo_blanks hblanks hblock.solid) (hblock.2 rest))
  have hsolid : Solid (commaText (loop.map (Operation.text width)) ++
      ')' :: (blanks ++ (block ++ rest))) := solid_commaText hloop (solid_cons rfl)
  have hmiddle : ∃ text, GapTo (' ' :: (conditionText width condition? ++ ';' :: ' ' ::
      (commaText (loop.map (Operation.text width)) ++ ')' :: (blanks ++ (block ++ rest))))) text ∧
      Reads (cat [opt (.rule .condition), word ";", .rule .loopcommands, word ")", .rule .body]) []
        text [] rest (Item.optional .condition ((condition?.map .condition).map .node) ++
          [.group .loopcommands ((loop.map .expression).map .node),
            .single .body (.ofBody body)]) := by
    cases condition? with
    | none =>
      exact ⟨_, (solid_cons rfl).blank, .next (.optNone (fails_of_head rfl rfl)) (solid_cons rfl)
        (.seq (.word ";") hsolid.blank hend)⟩
    | some o =>
      have ho := hcondition o rfl
      exact ⟨_, ho.solid.blank, .next (.altFirst (ho.reads_part isOperation_condition rfl))
        (solid_cons rfl) (.seq (.word ";") hsolid.blank hend)⟩
  obtain ⟨text, hgap, hmiddle⟩ := hmiddle
  have hbuild := build_forLoop (pre.map .expression) (loop.map .expression)
    (condition?.map .condition) body
  rw [List.append_assoc] at hbuild
  have hpattern : Reads (pattern .forLoop) [] _ [] rest _ :=
    .seq (reads_keyed rfl (stops_cons.2 rfl)) (solid_cons rfl).blank
      (.next (.word "(") (solid_commaText hpre (solid_cons rfl))
        (.next (reads_commands rfl rfl rfl hpre hseparable rfl) (solid_cons rfl)
          (.seq (.word ";") hgap hmiddle)))
  exact .node rfl hbuild rfl rfl hpattern

/-! ## Choosing the statement -/

/-- The keywords that statements start with. -/
def keyedStatements : List (String × Rule) :=
  [("if", .ifElse), ("while", .whileLoop), ("do", .doLoop), ("for", .forLoop), ("jump", .jump),
    ("return", .ret), ("state", .stateChange)]

section

variable {items : List Item}

/-- A statement with another keyword is not read. -/
theorem fails_of_keyword {word : String} {r r' : Rule} (hmem : (word, r) ∈ keyedStatements)
    (hmem' : ∃ word', (word', r') ∈ keyedStatements) (hne : r' ≠ r) :
    Fails (.rule r') [] (word.toList ++ text) := by
  obtain ⟨word', hmem'⟩ := hmem'
  simp only [keyedStatements, List.mem_cons, Prod.mk.injEq, List.not_mem_nil, or_false] at hmem hmem'
  have hsolid : Solid (word.toList ++ text) := by
    rcases hmem with ⟨rfl, -⟩ | ⟨rfl, -⟩ | ⟨rfl, -⟩ | ⟨rfl, -⟩ | ⟨rfl, -⟩ | ⟨rfl, -⟩ | ⟨rfl, -⟩ <;>
      exact solid_cons rfl
  have hkeyed : Fails (keyed word') [] (word.toList ++ text) := by
    refine fails_keyed_of_solid ?_ hsolid
    rcases hmem with ⟨rfl, rfl⟩ | ⟨rfl, rfl⟩ | ⟨rfl, rfl⟩ | ⟨rfl, rfl⟩ | ⟨rfl, rfl⟩ | ⟨rfl, rfl⟩ |
      ⟨rfl, rfl⟩ <;>
      rcases hmem' with ⟨rfl, rfl⟩ | ⟨rfl, rfl⟩ | ⟨rfl, rfl⟩ | ⟨rfl, rfl⟩ | ⟨rfl, rfl⟩ |
        ⟨rfl, rfl⟩ | ⟨rfl, rfl⟩ <;>
      first | rfl | exact absurd rfl hne
  rcases hmem' with ⟨rfl, rfl⟩ | ⟨rfl, rfl⟩ | ⟨rfl, rfl⟩ | ⟨rfl, rfl⟩ | ⟨rfl, rfl⟩ | ⟨rfl, rfl⟩ |
    ⟨rfl, rfl⟩ <;> exact .rule rfl (.seqFirst hkeyed)

/-- A statement that is no block. -/
theorem reads_statement (hbrace : Stops (· == '\x7b') text)
    (h : Reads (.rule .simpleStatement) [] text [] rest items) :
    Reads (.rule .statement) [] text [] rest items := by
  refine .silent rfl rfl (.altSecond (.seqFirst (.ahead (.word ?_))) h)
  cases text with
  | nil => rfl
  | cons x text =>
    have hx : x ≠ '\x7b' := by simpa using stops_cons.1 hbrace
    simp [List.isPrefixOf, Ne.symm hx]

theorem reads_statement_of_keyword {word : String} {r : Rule} (hmem : (word, r) ∈ keyedStatements)
    (hstops : Stops isNameChar text) (h : Reads (.rule r) [] (word.toList ++ text) [] rest items) :
    Reads (.rule .statement) [] (word.toList ++ text) [] rest items := by
  have hother (r' : Rule) (hmem' : ∃ word', (word', r') ∈ keyedStatements) (hne : r' ≠ r) :
      Fails (.rule r') [] (word.toList ++ text) := fails_of_keyword hmem hmem' hne
  have hif : r ≠ .ifElse → Fails (.rule .ifElse) [] (word.toList ++ text) :=
    fun hne => hother _ ⟨"if", by decide⟩ hne.symm
  have hwhile : r ≠ .whileLoop → Fails (.rule .whileLoop) [] (word.toList ++ text) :=
    fun hne => hother _ ⟨"while", by decide⟩ hne.symm
  have hdo : r ≠ .doLoop → Fails (.rule .doLoop) [] (word.toList ++ text) :=
    fun hne => hother _ ⟨"do", by decide⟩ hne.symm
  have hfor : r ≠ .forLoop → Fails (.rule .forLoop) [] (word.toList ++ text) :=
    fun hne => hother _ ⟨"for", by decide⟩ hne.symm
  have hjump : r ≠ .jump → Fails (.rule .jump) [] (word.toList ++ text) :=
    fun hne => hother _ ⟨"jump", by decide⟩ hne.symm
  have hret : r ≠ .ret → Fails (.rule .ret) [] (word.toList ++ text) :=
    fun hne => hother _ ⟨"return", by decide⟩ hne.symm
  clear hother
  have hvariable : typeNames.contains word = false → word.toList.all isNameChar = true →
      Fails (.rule .variable) [] (word.toList ++ text) :=
    fun htype hword => .rule rfl (.seqFirst (fails_type_of_keyword htype hword hstops))
  simp only [keyedStatements, List.mem_cons, Prod.mk.injEq, List.not_mem_nil, or_false] at hmem
  rcases hmem with ⟨rfl, rfl⟩ | ⟨rfl, rfl⟩ | ⟨rfl, rfl⟩ | ⟨rfl, rfl⟩ | ⟨rfl, rfl⟩ | ⟨rfl, rfl⟩ |
    ⟨rfl, rfl⟩
  all_goals
    refine reads_statement (stops_cons.2 rfl) (.silent rfl rfl (.altSecond (hvariable rfl rfl) ?_))
  · exact .altFirst h
  · exact .altSecond (hif nofun) (.altFirst h)
  · exact .altSecond (hif nofun) (.altSecond (hwhile nofun) (.altFirst h))
  · exact .altSecond (hif nofun) (.altSecond (hwhile nofun) (.altSecond (hdo nofun) (.altFirst h)))
  · exact .altSecond (hif nofun) (.altSecond (hwhile nofun) (.altSecond (hdo nofun)
      (.altSecond (hfor nofun) (.altFirst h))))
  · exact .altSecond (hif nofun) (.altSecond (hwhile nofun) (.altSecond (hdo nofun)
      (.altSecond (hfor nofun) (.altSecond (hjump nofun) (.altSecond (fails_of_head rfl rfl)
        (.altFirst h))))))
  · exact .altSecond (hif nofun) (.altSecond (hwhile nofun) (.altSecond (hdo nofun)
      (.altSecond (hfor nofun) (.altSecond (hjump nofun) (.altSecond (fails_of_head rfl rfl)
        (.altSecond (hret nofun) (.altFirst h)))))))

theorem reads_statement_of_variable (h : Reads (.rule .variable) [] text [] rest items) :
    Reads (.rule .statement) [] text [] rest items := by
  obtain ⟨x, tail, rfl, hx⟩ := h.starts rfl
  have hbrace : x ≠ '\x7b' := by
    rintro rfl
    cases hx
  exact reads_statement (stops_cons.2 (by simpa using hbrace)) (.silent rfl rfl (.altFirst h))

theorem reads_statement_of_label (h : Reads (.rule .label) [] ('@' :: text) [] rest items) :
    Reads (.rule .statement) [] ('@' :: text) [] rest items := by
  refine reads_statement (stops_cons.2 rfl) (.silent rfl rfl (.altSecond (fails_of_head rfl rfl)
    (.altSecond (fails_of_head rfl rfl) (.altSecond (fails_of_head rfl rfl)
      (.altSecond (fails_of_head rfl rfl) (.altSecond (fails_of_head rfl rfl) ?_))))))
  exact .altSecond (fails_of_head rfl rfl) (.altFirst h)

theorem reads_statement_of_expression {o : Operation} (h : ReadsOperation width o) :
    Reads (.rule .statement) [] (o.text width ++ ';' :: rest) [] rest
      [.single .expression (.node (.expression o))] := by
  have hunkeyed : Unkeyed (o.text width ++ ';' :: rest) := h.unkeyed rfl
  have hread : Reads (cat [.rule .expression, word ";"]) [] (o.text width ++ ';' :: rest) [] rest
      [.single .expression (.node (.expression o))] :=
    .next (h.reads_part isOperation_expression rfl) (solid_cons rfl) (.word ";")
  have hvariable : Fails (.rule .variable) [] (o.text width ++ ';' :: rest) :=
    .rule rfl (.seqFirst (fails_type hunkeyed))
  have hkeyed {word : String} : Fails (keyed word) [] (o.text width ++ ';' :: rest) :=
    fails_keyed hunkeyed
  obtain ⟨x, tail, htext, hx⟩ := h.head
  rw [htext, List.cons_append] at hread hvariable hkeyed ⊢
  have hne {y : Char} (hy : startsOperand y = false) : x ≠ y := by
    rintro rfl
    cases hx.symm.trans hy
  have hlabel : Fails (.rule .label) [] (x :: (tail ++ ';' :: rest)) :=
    fails_of_head rfl (by simpa [starts] using @hne '@' rfl)
  refine reads_statement (stops_cons.2 (by simpa using @hne '\x7b' rfl)) (.silent rfl rfl
    (.altSecond hvariable (.altSecond (.rule rfl (.seqFirst hkeyed))
      (.altSecond (.rule rfl (.seqFirst hkeyed)) (.altSecond (.rule rfl (.seqFirst hkeyed))
        (.altSecond (.rule rfl (.seqFirst hkeyed)) (.altSecond (.rule rfl (.seqFirst hkeyed))
          (.altSecond hlabel ?_))))))))
  exact .altSecond (.rule rfl (.seqFirst hkeyed)) (.altSecond (.rule rfl (.seqFirst hkeyed))
    (.altFirst hread))

theorem reads_statement_of_block {body : Body} (h : ReadsBlock text body) :
    Reads (.rule .statement) [] (text ++ rest) [] rest [.single .body (.ofBody body)] := by
  have hread := h.2 rest
  obtain ⟨tail, rfl⟩ := h.1
  have hbrace : Reads (word "\x7b") [] ('\x7b' :: (tail ++ rest)) [] (tail ++ rest) [] :=
    .word "\x7b"
  exact .silent rfl rfl (.altFirst (.next hbrace.ahead (solid_cons rfl) hread))

end

end Lsl.Rule
