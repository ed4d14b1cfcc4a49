import Lsl.Proofs.Peg.Scan
import Mathlib.Data.List.Flatten
/-!
# The nodes of a match

Every node that a match yields, however deep inside the trees, comes from a match of its rule.  The
leaves stand in the text of the match in their order.
-/

namespace Lsl.Peg

variable {ρ : Type}

theorem ParseTree.mem_walkAll_append {ts us : List (ParseTree ρ)} {node : ParseTree ρ} :
    node ∈ walkAll (ts ++ us) ↔ node ∈ walkAll ts ∨ node ∈ walkAll us := by
  rw [walkAll_eq_flatMap, walkAll_eq_flatMap, walkAll_eq_flatMap, List.flatMap_append,
    List.mem_append]

/-- A node of a match of a rule: the match of the pattern of its rule that the node is made of. -/
structure Grammar.Makes (g : Grammar ρ) (start stop : Cursor) (node : ParseTree ρ) : Prop where
  visible : g.isSilent node.token = false
  text : node.text = String.ofList (start.textTo stop)
  inside : Derives g (g.isAtomic node.token) (g.pattern node.token) start
    (some (stop, node.children))

/-- Nodes are only made by matches of their rules. -/
theorem Derives.makes_of_mem {g : Grammar ρ} {atomic : Bool} {p : Pattern ρ} {c c' : Cursor}
    {ts : List (ParseTree ρ)} (h : Derives g atomic p c (some (c', ts))) {node : ParseTree ρ}
    (hnode : node ∈ ParseTree.walkAll ts) : ∃ start stop, g.Makes start stop node := by
  generalize hres : (some (c', ts) : Result ρ) = res at h
  induction h generalizing c' ts with
  | step hf =>
    obtain ⟨_, _, heq⟩ := Option.map_eq_some_iff.1 hres.symm
    cases heq
    cases hnode
  | silent _ _ ih => exact ih hnode hres
  | @node atomic r c _ us hs hd ih =>
    cases hres
    cases atomic with
    | true => cases hnode
    | false =>
      rw [ParseTree.wrap, if_neg Bool.false_ne_true, ParseTree.walkAll, ParseTree.walkAll,
        List.append_nil, ParseTree.walk] at hnode
      rcases List.mem_cons.1 hnode with rfl | hnode
      · exact ⟨c, _, hs, rfl, hd⟩
      · exact ih hnode rfl
  | seq _ _ _ ih₁ _ ih₃ =>
    cases hres
    exact (ParseTree.mem_walkAll_append.1 hnode).elim (ih₁ · rfl) (ih₃ · rfl)
  | altFirst _ ih => exact ih hnode hres
  | altSecond _ _ _ ih => exact ih hnode hres
  | starSome _ _ ih₁ ih₂ =>
    cases hres
    exact (ParseTree.mem_walkAll_append.1 hnode).elim (ih₁ · rfl) (ih₂ · rfl)
  | moreSome _ _ _ _ ih₂ ih₃ =>
    cases hres
    exact (ParseTree.mem_walkAll_append.1 hnode).elim (ih₂ · rfl) (ih₃ · rfl)
  | push _ ih => cases hres; exact ih hnode rfl
  | starNone | moreBetween | moreNone | ahead | notAhead => cases hres; cases hnode
  | _ => cases hres

/-- A pattern without parts yields no nodes. -/
theorem Derives.of_step {g : Grammar ρ} {atomic : Bool} {p : Pattern ρ} {c c' : Cursor}
    {ts : List (ParseTree ρ)} {f : Cursor → Option Cursor} (hf : p.step? = some f)
    (h : Derives g atomic p c (some (c', ts))) : f c = some c' ∧ ts = [] := by
  obtain ⟨_, hstep, heq⟩ := Option.map_eq_some_iff.1 (h.unique (.step hf)).symm
  cases heq
  exact ⟨hstep, rfl⟩

section

open ParseTree

/-- The texts of the leaves of trees, one after the other. -/
def ParseTree.leafText (ts : List (ParseTree ρ)) : List Char :=
  ((walkAll ts).filter isLeaf).flatMap fun leaf => leaf.text.toList

theorem ParseTree.leafText_append (ts us : List (ParseTree ρ)) :
    leafText (ts ++ us) = leafText ts ++ leafText us := by
  rw [leafText, walkAll_eq_flatMap, List.flatMap_append, List.filter_append, List.flatMap_append,
    ← walkAll_eq_flatMap, ← walkAll_eq_flatMap]
  rfl

/-- The leaves of a match stand in the text that it spans, in their order and apart. -/
theorem Derives.leafText_sublist {g : Grammar ρ} {atomic : Bool} {p : Pattern ρ} {c c' : Cursor}
    {ts : List (ParseTree ρ)} (h : Derives g atomic p c (some (c', ts))) :
    ∃ taken, c.Spans taken c' ∧ (leafText ts).Sublist taken := by
  generalize hres : (some (c', ts) : Result ρ) = res at h
  induction h generalizing c' ts with
  | step hf =>
    obtain ⟨_, hstep, heq⟩ := Option.map_eq_some_iff.1 hres.symm
    cases heq
    obtain ⟨taken, htaken⟩ := Pattern.spans_of_step? hf hstep
    exact ⟨taken, htaken, List.nil_sublist _⟩
  | silent _ _ ih => exact ih hres
  | @node atomic r c _ us hs hd ih =>
    cases hres
    obtain ⟨taken, htaken, hsub⟩ := ih rfl
    refine ⟨taken, htaken, ?_⟩
    cases atomic with
    | true => exact List.nil_sublist _
    | false =>
      rw [ParseTree.wrap, if_neg Bool.false_ne_true, leafText, walkAll, walkAll, List.append_nil, walk]
      cases us with
      | nil =>
        rw [htaken.textTo, walkAll, List.filter_cons_of_pos rfl]
        simp
      | cons tree us => exact hsub
  | seq _ hgap _ ih₁ _ ih₃ =>
    cases hres
    obtain ⟨taken, htaken, hsub⟩ := ih₁ rfl
    obtain ⟨gap, hgap⟩ := hgap.spans
    obtain ⟨taken', htaken', hsub'⟩ := ih₃ rfl
    refine ⟨taken ++ (gap ++ taken'), htaken.trans (hgap.trans htaken'), ?_⟩
    rw [leafText_append]
    exact hsub.append (hsub'.trans (List.sublist_append_right _ _))
  | altFirst _ ih => exact ih hres
  | altSecond _ _ _ ih => exact ih hres
  | starSome _ _ ih₁ ih₂ =>
    cases hres
    obtain ⟨taken, htaken, hsub⟩ := ih₁ rfl
    obtain ⟨taken', htaken', hsub'⟩ := ih₂ rfl
    rw [leafText_append]
    exact ⟨_, htaken.trans htaken', hsub.append hsub'⟩
  | moreSome hgap _ _ _ ih₂ ih₃ =>
    cases hres
    obtain ⟨gap, hgap⟩ := hgap.spans
    obtain ⟨taken, htaken, hsub⟩ := ih₂ rfl
    obtain ⟨taken', htaken', hsub'⟩ := ih₃ rfl
    refine ⟨gap ++ (taken ++ taken'), hgap.trans (htaken.trans htaken'), ?_⟩
    rw [leafText_append]
    exact (hsub.append hsub').trans (List.sublist_append_right _ _)
  | push _ ih =>
    cases hres
    obtain ⟨taken, htaken, hsub⟩ := ih rfl
    exact ⟨taken, htaken.pushed _, hsub⟩
  | starNone | moreBetween | moreNone | ahead | notAhead =>
    cases hres
    exact ⟨[], .refl _, List.nil_sublist _⟩
  | _ => cases hres

end

end Lsl.Peg
