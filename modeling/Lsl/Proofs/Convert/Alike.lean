import Lsl.Proofs.Convert.Item
/-!
# Trees that the conversion does not tell apart

The text of a node with parts does not matter to the conversion, nor does the text of a node that
only groups others.  Trees that differ in such texts only are converted to the same.
-/

namespace Lsl

open Peg

/-- Whatever the conversion takes from the first tree, it takes from the second. -/
def Alike (tree tree' : ParseTree Rule) : Prop :=
  ∀ item, Shows tree item → Shows tree' item

namespace Alike

variable {tree tree' : ParseTree Rule} {trees trees' : List (ParseTree Rule)}

theorem token_eq (h : Alike tree tree') : tree'.token = tree.token :=
  h (.raw tree.token) rfl

theorem convert_eq (h : Alike tree tree') {element : Element}
    (hconvert : convert Rule.registry tree = .ok element) :
    convert Rule.registry tree' = .ok element :=
  (h (.single tree.token element) ⟨rfl, hconvert⟩).2

theorem convertAll_children (h : Alike tree tree') {elements : List Element}
    (hconvert : convertAll Rule.registry tree.children = .ok elements) :
    convertAll Rule.registry tree'.children = .ok elements :=
  (h (.group tree.token elements) ⟨rfl, hconvert⟩).2

theorem convertAll_eq (h : List.Forall₂ Alike trees trees') {elements : List Element}
    (hconvert : convertAll Rule.registry trees = .ok elements) :
    convertAll Rule.registry trees' = .ok elements := by
  induction h generalizing elements with
  | nil => exact hconvert
  | cons htree _ ih =>
    rw [convertAll] at hconvert ⊢
    obtain ⟨value, hvalue, hconvert⟩ := exists_of_bind_eq_ok hconvert
    obtain ⟨values, hvalues, hresult⟩ := exists_of_bind_eq_ok hconvert
    rw [htree.convert_eq hvalue, ih hvalues]
    exact hresult

theorem fillFields_eq (h : List.Forall₂ Alike trees trees') {node : Node}
    {result : Node × List Element} (hfill : fillFields Rule.registry node trees = .ok result) :
    fillFields Rule.registry node trees' = .ok result := by
  induction h generalizing node result with
  | nil => exact hfill
  | @cons tree tree' _ _ htree _ ih =>
    obtain ⟨token, text, children⟩ := tree
    obtain ⟨token', text', children'⟩ := tree'
    obtain rfl : token' = token := htree.token_eq
    rw [fillFields, Kind.isPlural_and_hasField] at hfill ⊢
    dsimp only at hfill ⊢
    split at hfill
    · next hlist =>
      rw [if_pos hlist]
      obtain ⟨values, hvalues, hfill⟩ := exists_of_bind_eq_ok hfill
      obtain ⟨⟨next, old⟩, hset, hrest⟩ := exists_of_bind_eq_ok hfill
      have hvalues' : convertAll Rule.registry children' = .ok values :=
        htree.convertAll_children hvalues
      rw [hvalues']
      dsimp only [bind, Except.bind]
      rw [hset]
      exact ih hrest
    · next hlist =>
      rw [if_neg hlist]
      obtain ⟨value, hvalue, hfill⟩ := exists_of_bind_eq_ok hfill
      rw [htree.convert_eq hvalue]
      dsimp only [bind, Except.bind] at hfill ⊢
      split at hfill
      · next hsingle =>
        rw [if_pos hsingle]
        obtain ⟨⟨next, old⟩, hset, hrest⟩ := exists_of_bind_eq_ok hfill
        rw [hset]
        exact ih hrest
      · next hsingle =>
        rw [if_neg hsingle]
        split at hfill
        · next hvalueField =>
          rw [if_pos hvalueField]
          obtain ⟨⟨next, old⟩, hset, hrest⟩ := exists_of_bind_eq_ok hfill
          rw [hset]
          exact ih hrest
        · next hvalueField =>
          rw [if_neg hvalueField]
          obtain ⟨⟨next, overflow⟩, hrest, hresult⟩ := exists_of_bind_eq_ok hfill
          rw [ih hrest]
          exact hresult

/-- Nodes of one rule around trees that are alike are alike, unless they are texts. -/
theorem node {r : Rule} {text text' : String} (h : List.Forall₂ Alike trees trees')
    (htext : trees = [] → r.kind? = none → text' = text) :
    Alike ⟨r, text, trees⟩ ⟨r, text', trees'⟩ := by
  intro item hitem
  cases item with
  | raw r' => exact hitem
  | group r' elements => exact ⟨hitem.1, convertAll_eq h hitem.2⟩
  | single r' element =>
    obtain ⟨hr, hconvert⟩ := hitem
    refine ⟨hr, ?_⟩
    unfold convert at hconvert ⊢
    rw [Rule.kindFor?_registry] at hconvert ⊢
    cases hkind : r.kind? with
    | some kind =>
      rw [hkind] at hconvert
      obtain ⟨⟨filled, overflow⟩, hfill, hresult⟩ := exists_of_bind_eq_ok hconvert
      dsimp only at hresult ⊢
      rw [fillFields_eq h hfill]
      dsimp only [bind, Except.bind] at hresult ⊢
      split at hresult
      · next haccepts =>
        rw [if_pos haccepts]
        exact hresult
      · next haccepts =>
        rw [if_neg haccepts]
        split at hresult
        · next hempty =>
          rw [if_pos hempty]
          exact hresult
        · cases hresult
    | none =>
      rw [hkind] at hconvert
      cases h with
      | nil =>
        rw [htext rfl hkind]
        exact hconvert
      | cons htree hrest =>
        cases hrest with
        | nil => exact htree.convert_eq hconvert
        | cons _ _ => cases hconvert

/-- Trees that are alike show the same items. -/
theorem shows (h : List.Forall₂ Alike trees trees') {items : List Item}
    (hitems : List.Forall₂ Shows trees items) : List.Forall₂ Shows trees' items := by
  induction h generalizing items with
  | nil => exact hitems
  | cons htree _ ih =>
    cases hitems with
    | cons hitem hrest => exact .cons (htree _ hitem) (ih hrest)

end Alike

end Lsl
