import Lsl.Proofs.Peg.Progress
/-!
# Patterns as functions on texts

Inside an atomic rule nothing is skipped and no node is made, so a pattern that leaves the stack
alone is a function from a text to the part of it that the pattern takes.
-/

namespace Lsl.Peg

variable {ρ : Type} {g : Grammar ρ}

/-- Inside an atomic rule the pattern takes from the head of a text what `take?` says, and fails
otherwise. -/
structure Scans (g : Grammar ρ) (p : Pattern ρ) (take? : List Char → Option (List Char)) :
    Prop where
  derives (c : Cursor) :
    Derives g true p c ((take? c.rest).map fun text => (c.advance text.length, []))
  taken {text head : List Char} : take? text = some head → ∃ rest, text = head ++ rest

/-- What two functions take from a text, one after the other. -/
def takeBoth (f f' : List Char → Option (List Char)) (text : List Char) : Option (List Char) :=
  (f text).bind fun first => (f' (text.drop first.length)).map (first ++ ·)

theorem takeBoth_assoc (f f' f'' : List Char → Option (List Char)) (text : List Char) :
    takeBoth (takeBoth f f') f'' text = takeBoth f (takeBoth f' f'') text := by
  unfold takeBoth
  cases f text with
  | none => rfl
  | some first =>
    dsimp only [Option.bind_some]
    cases f' (text.drop first.length) with
    | none => rfl
    | some second =>
      simp only [Option.map_some, Option.bind_some, List.length_append, List.drop_drop,
        Option.map_map]
      congr 1
      funext third
      exact List.append_assoc first second third

theorem Derives.between_true (c : Cursor) : Derives g true (g.between true) c (some (c, [])) := by
  have h : Derives g true (.lit []) c _ := .step rfl
  exact h

/-- The nodes inside an atomic rule are not kept. -/
theorem Derives.trees_eq_nil {p : Pattern ρ} {c c' : Cursor} {ts : List (ParseTree ρ)}
    (h : Derives g true p c (some (c', ts))) : ts = [] := by
  generalize hres : (some (c', ts) : Result ρ) = res at h
  generalize hatomic : true = atomic at h
  induction h generalizing c' ts with
  | step hf =>
    obtain ⟨_, _, heq⟩ := Option.map_eq_some_iff.1 hres.symm
    cases heq
    rfl
  | silent _ _ ih => exact ih hres (by simp [← hatomic])
  | node _ _ _ => cases hres; simp [ParseTree.wrap, ← hatomic]
  | seq _ _ _ ih₁ _ ih₃ => cases hres; simp [ih₁ rfl hatomic, ih₃ rfl hatomic]
  | altFirst _ ih => exact ih hres hatomic
  | altSecond _ _ _ ih => exact ih hres hatomic
  | starSome _ _ ih₁ ih₂ => cases hres; simp [ih₁ rfl hatomic, ih₂ rfl hatomic]
  | moreSome _ _ _ _ ih₂ ih₃ => cases hres; simp [ih₂ rfl hatomic, ih₃ rfl hatomic]
  | push _ ih => cases hres; exact ih rfl hatomic
  | starNone | moreBetween | moreNone | ahead | notAhead => cases hres; rfl
  | _ => cases hres

namespace Cursor

@[simp] theorem rest_advance (c : Cursor) (n : Nat) : (c.advance n).rest = c.rest.drop n := rfl

@[simp] theorem stack_advance (c : Cursor) (n : Nat) : (c.advance n).stack = c.stack := rfl

@[simp] theorem advance_zero (c : Cursor) : c.advance 0 = c := rfl

@[simp] theorem advance_advance (c : Cursor) (m n : Nat) :
    (c.advance m).advance n = c.advance (m + n) := by
  simp [advance, Nat.add_assoc, List.drop_drop]

end Cursor

namespace Scans

variable {p q : Pattern ρ} {f f' : List Char → Option (List Char)}

theorem congr (h : Scans g p f) (heq : ∀ text, f text = f' text) : Scans g p f' :=
  (funext heq) ▸ h

/-- What a pattern takes by the relation is what it takes by the function. -/
theorem eq_some (h : Scans g p f) {c c' : Cursor} {ts : List (ParseTree ρ)}
    (hd : Derives g true p c (some (c', ts))) :
    ∃ text, f c.rest = some text ∧ c.Spans text c' := by
  obtain ⟨text, htext, hc⟩ := Option.map_eq_some_iff.1 ((h.derives c).unique hd)
  cases hc
  obtain ⟨rest, hrest⟩ := h.taken htext
  refine ⟨text, htext, ?_, rfl⟩
  rw [Cursor.rest_advance, hrest, List.drop_left]

/-- A pattern takes one thing from a text. -/
theorem unique (h : Scans g p f) (h' : Scans g p f') (text : List Char) : f text = f' text := by
  have hd' := h'.derives ⟨0, text, []⟩
  dsimp only at hd'
  cases hf : f' text with
  | none =>
    rw [hf] at hd'
    exact Option.map_eq_none_iff.1 ((h.derives ⟨0, text, []⟩).unique hd')
  | some taken =>
    rw [hf] at hd'
    obtain ⟨taken', htaken', hspans, hlength⟩ := h.eq_some hd'
    obtain ⟨rest, hrest⟩ := h'.taken hf
    dsimp only [Cursor.advance] at htaken' hspans
    rw [htaken']
    congr 1
    rw [hrest, List.drop_left] at hspans
    exact (List.append_cancel_right hspans).symm

theorem derives_some (h : Scans g p f) {c : Cursor} {text : List Char}
    (hf : f c.rest = some text) : Derives g true p c (some (c.advance text.length, [])) := by
  have := h.derives c
  rwa [hf] at this

theorem derives_none (h : Scans g p f) {c : Cursor} (hf : f c.rest = none) :
    Derives g true p c none := by
  have := h.derives c
  rwa [hf] at this

protected theorem lit (chars : List Char) :
    Scans g (.lit chars) fun text => if chars.isPrefixOf text then some chars else none where
  derives c := by
    have h : Derives g true (.lit chars) c _ := .step rfl
    rw [Cursor.accept?] at h
    split at h <;> simp_all
  taken {text head} h := by
    split at h
    · next hp =>
      cases h
      obtain ⟨rest, hrest⟩ := List.isPrefixOf_iff_prefix.1 hp
      exact ⟨rest, hrest.symm⟩
    · cases h

protected theorem one (cls : CharClass) :
    Scans g (.one cls) fun text => (text.head?.filter cls.contains).map ([·]) where
  derives c := by
    have h : Derives g true (.one cls) c _ := .step rfl
    rw [Cursor.acceptOne?] at h
    cases hc : c.rest with
    | nil => simpa [hc] using h
    | cons x rest =>
      rw [hc] at h
      cases hx : cls.contains x <;> simpa [Option.filter, hx] using h
  taken {text head} h := by
    obtain ⟨x, hx, rfl⟩ := Option.map_eq_some_iff.1 h
    cases text with
    | nil => cases hx
    | cons y rest =>
      have hy : y = x := by simpa using (Option.filter_eq_some_iff.1 hx).1
      exact ⟨rest, by rw [hy]; rfl⟩

protected theorem caseless (chars : List Char) :
    Scans g (.caseless chars) fun text =>
      if (text.take chars.length).map Char.toLower = chars.map Char.toLower then
        some (text.take chars.length)
      else none where
  derives c := by
    have h : Derives g true (.caseless chars) c _ := .step rfl
    rw [Cursor.acceptCaseless?] at h
    split at h
    · next ht =>
      have hlength := congrArg List.length ht
      simp only [List.length_map] at hlength
      rw [if_pos ht, Option.map_some, hlength]
      exact h
    · next ht =>
      rw [if_neg ht]
      exact h
  taken {text head} h := by
    split at h
    · cases h
      exact ⟨_, (List.take_append_drop chars.length text).symm⟩
    · cases h

protected theorem seq (hp : Scans g p f) (hq : Scans g q f') :
    Scans g (.seq p q) (takeBoth f f') where
  derives c := by
    unfold takeBoth
    cases hf : f c.rest with
    | none => exact .seqFirst (hp.derives_none hf)
    | some first =>
      have hd := hp.derives_some hf
      dsimp only [Option.bind_some]
      cases hf' : f' (c.rest.drop first.length) with
      | none => exact .seqSecond hd (.between_true _) (hq.derives_none hf')
      | some second =>
        have := Derives.seq hd (.between_true _) (hq.derives_some hf')
        simpa using this
  taken {text head} h := by
    obtain ⟨first, hfirst, h⟩ := Option.bind_eq_some_iff.1 h
    obtain ⟨second, hsecond, rfl⟩ := Option.map_eq_some_iff.1 h
    obtain ⟨rest, rfl⟩ := hp.taken hfirst
    rw [List.drop_left] at hsecond
    obtain ⟨rest, rfl⟩ := hq.taken hsecond
    exact ⟨rest, (List.append_assoc ..).symm⟩

protected theorem alt (hp : Scans g p f) (hq : Scans g q f') :
    Scans g (.alt p q) fun text => (f text).or (f' text) where
  derives c := by
    cases hf : f c.rest with
    | none => exact .altSecond (hp.derives_none hf) (hq.derives c)
    | some first => exact .altFirst (hp.derives_some hf)
  taken {text head} h := by
    rcases Option.or_eq_some_iff.1 h with h | ⟨-, h⟩
    · exact hp.taken h
    · exact hq.taken h

protected theorem notAhead (hp : Scans g p f) :
    Scans g (.notAhead p) fun text => if (f text).isSome then none else some [] where
  derives c := by
    cases hf : f c.rest with
    | none => exact .notAhead (hp.derives_none hf)
    | some first => exact .notAheadFail (hp.derives_some hf)
  taken {text head} h := by
    split at h
    · cases h
    · cases h
      exact ⟨text, rfl⟩

protected theorem rule {r : ρ} (h : Scans g (g.pattern r) f) : Scans g (.rule r) f where
  derives c := by
    cases hs : g.isSilent r with
    | true => exact .silent hs (h.derives c)
    | false =>
      cases hf : f c.rest with
      | none => exact .nodeFail hs (h.derives_none hf)
      | some text => exact .node hs (h.derives_some hf)
  taken := h.taken

/-- A choice of texts takes the first that fits. -/
protected theorem words (texts : List String) :
    Scans g (.words texts) fun text =>
      (texts.find? fun word => word.toList.isPrefixOf text).map String.toList := by
  induction texts with
  | nil => exact (Scans.lit []).notAhead
  | cons word texts ih =>
    have hword : Scans g (.word word) _ := Scans.lit word.toList
    cases texts with
    | nil =>
      refine hword.congr fun text => ?_
      cases hp : word.toList.isPrefixOf text <;> simp [hp]
    | cons word' texts =>
      refine (hword.alt ih).congr fun text => ?_
      cases hp : word.toList.isPrefixOf text <;> simp [List.find?_cons, hp]

/-- A repetition takes what its rounds take one after the other. -/
protected theorem star {take : List Char → List Char} (hp : Scans g p f)
    (hpos : ∀ text, f text ≠ some [])
    (htake : ∀ text, take text = match f text with
      | some first => first ++ take (text.drop first.length)
      | none => []) :
    Scans g (.star p) fun text => some (take text) := by
  have shorter {text first : List Char} (hf : f text = some first) :
      (text.drop first.length).length < text.length := by
    obtain ⟨rest, rfl⟩ := hp.taken hf
    cases first with
    | nil => exact absurd hf (hpos _)
    | cons c first =>
      rw [List.drop_left, List.length_append, List.length_cons]
      omega
  have more (n : Nat) (c : Cursor) (hn : c.rest.length ≤ n) :
      Derives g true (.more p) c (some (c.advance (take c.rest).length, [])) := by
    induction n generalizing c with
    | zero =>
      cases hf : f c.rest with
      | none =>
        rw [htake, hf]
        exact .moreNone (.between_true c) (hp.derives_none hf)
      | some first =>
        have := shorter hf
        omega
    | succ n ih =>
      cases hf : f c.rest with
      | none =>
        rw [htake, hf]
        exact .moreNone (.between_true c) (hp.derives_none hf)
      | some first =>
        have hrest : (c.advance first.length).rest.length ≤ n := by
          have := shorter hf
          rw [Cursor.rest_advance]
          omega
        have hd := Derives.moreSome (.between_true c) (hp.derives_some hf) (ih _ hrest)
        rw [htake, hf]
        simpa using hd
  refine ⟨fun c => ?_, fun {text head} h => ?_⟩
  · dsimp only [Option.map_some]
    cases hf : f c.rest with
    | none =>
      rw [htake, hf]
      exact .starNone (hp.derives_none hf)
    | some first =>
      have hd := Derives.starSome (hp.derives_some hf) (more _ _ (Nat.le_refl _))
      rw [htake, hf]
      simpa using hd
  · cases h
    induction hn : text.length using Nat.strongRecOn generalizing text with
    | ind n ih =>
      rw [htake]
      cases hf : f text with
      | none => exact ⟨text, rfl⟩
      | some first =>
        obtain ⟨rest, hrest⟩ := ih _ (hn ▸ shorter hf) rfl
        obtain ⟨rest', rfl⟩ := hp.taken hf
        rw [List.drop_left] at hrest
        refine ⟨rest, ?_⟩
        dsimp only
        rw [List.drop_left, List.append_assoc, ← hrest]

/-- A repetition of single characters takes them as far as they go. -/
protected theorem starOne {accepts : Char → Bool}
    (hp : Scans g p fun text => (text.head?.filter accepts).map ([·])) :
    Scans g (.star p) fun text => some (text.takeWhile accepts) := by
  refine hp.star ?_ ?_
  · intro text h
    obtain ⟨x, -, hx⟩ := Option.map_eq_some_iff.1 h
    cases hx
  · intro text
    cases text with
    | nil => rfl
    | cons x text => cases hx : accepts x <;> simp [Option.filter, hx]

end Scans

end Lsl.Peg
