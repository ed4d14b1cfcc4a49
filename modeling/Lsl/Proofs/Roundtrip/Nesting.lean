import Lsl.Proofs.Roundtrip.Binary
/-!
# Expressions of any depth

Every settled and printable expression is read back.  The induction is over the tree: each form of
operand asks for its parts only, and an operation for its sides as operands.
-/

namespace Lsl

namespace Rule

variable {width : Nat} {allows : String → Bool}

theorem readsExpression_cases :
    ExpressionCases
      (fun element => element.settledOperand = true → element.printable allows = true →
        ReadsOperand width element)
      (fun o => o.settled = true → o.printable allows = true →
        ReadsOperation width o ∧ ReadsOperand width o.sideElement) where
  text _ h _ _ := readsOperand_text h
  group o ho h hsettled hprintable := by
    rw [Element.settledOperand, Bool.and_eq_true] at hsettled
    rw [Element.printable, Node.printable] at hprintable
    exact readsOperand_group hsettled.1 ho (h hsettled.2 hprintable).1
  call name os hname h hsettled hprintable := by
    simp only [Element.settledOperand, Node.settled, areSettledElements_map,
      List.all_eq_true] at hsettled
    simp only [Element.printable, Node.printable, arePrintableElements_map, filterMap_operation?,
      Bool.and_eq_true, List.all_eq_true] at hprintable
    exact readsOperand_call hname (fun o ho => (h o ho).1)
      (fun o ho => ((h o ho).2 (hsettled o ho) (hprintable.1 o ho)).1) hprintable.2
  list os h hsettled hprintable := by
    simp only [Element.settledOperand, Node.settled, areSettledElements_map,
      List.all_eq_true] at hsettled
    simp only [Element.printable, Node.printable, arePrintableElements_map, filterMap_operation?,
      Bool.and_eq_true, List.all_eq_true] at hprintable
    exact readsOperand_list (fun o ho => (h o ho).1)
      (fun o ho => ((h o ho).2 (hsettled o ho) (hprintable.1 o ho)).1) hprintable.2
  vector x y z h hlast hsettled hprintable := by
    simp only [List.forall_mem_cons] at h
    obtain ⟨⟨hx, hrx⟩, ⟨hy, hry⟩, ⟨hz, hrz⟩, -⟩ := h
    simp only [Element.settledOperand, Node.settled, Element.settled, Bool.and_eq_true] at hsettled
    obtain ⟨⟨hsx, hsy⟩, hsz⟩ := hsettled
    simp only [Element.printable, Node.printable, Bool.and_eq_true] at hprintable
    obtain ⟨⟨⟨hpx, hpy⟩, hpz⟩, hclosable⟩ := hprintable
    refine readsOperand_vector hx hy hz ?_ hclosable hlast
    simp only [List.forall_mem_cons, (hrx hsx hpx).1, (hry hsy hpy).1, (hrz hsz hpz).1, true_and]
    exact List.forall_mem_nil _
  quaternion x y z s h hlast hsettled hprintable := by
    simp only [List.forall_mem_cons] at h
    obtain ⟨⟨hx, hrx⟩, ⟨hy, hry⟩, ⟨hz, hrz⟩, ⟨hs, hrs⟩, -⟩ := h
    simp only [Element.settledOperand, Node.settled, Element.settled, Bool.and_eq_true] at hsettled
    obtain ⟨⟨⟨hsx, hsy⟩, hsz⟩, hss⟩ := hsettled
    simp only [Element.printable, Node.printable, Bool.and_eq_true] at hprintable
    obtain ⟨⟨⟨⟨hpx, hpy⟩, hpz⟩, hps⟩, hclosable⟩ := hprintable
    refine readsOperand_quaternion hx hy hz hs ?_ hclosable hlast
    simp only [List.forall_mem_cons, (hrx hsx hpx).1, (hry hsy hpy).1, (hrz hsz hpz).1,
      (hrs hss hps).1, true_and]
    exact List.forall_mem_nil _
  cast type value htype hvalue h hsettled hprintable := by
    simp only [Element.settledOperand, Node.settled] at hsettled
    simp only [Element.printable, Node.printable] at hprintable
    exact readsOperand_cast htype hvalue (h hsettled hprintable)
  preMod symbol value hsymbol hvalue h hsettled hprintable := by
    simp only [Element.settledOperand, Node.settled] at hsettled
    simp only [Element.printable, Node.printable] at hprintable
    exact readsOperand_preMod hsymbol hvalue (h hsettled hprintable)
  postMod symbol name hsymbol hname _ _ := readsOperand_postMod hsymbol hname
  leaf center _ _ h hsettled hprintable := by
    rw [Operation.settled_leaf] at hsettled
    rw [Operation.printable_leaf] at hprintable
    have hread := h hsettled hprintable
    exact ⟨readsOperation_leaf hread, hread⟩
  binary left symbol right hleft hlevel hright h h' hsettled hprintable := by
    simp only [Operation.settled, Bool.and_eq_true] at hsettled
    obtain ⟨⟨⟨hsleft, hside⟩, hsright⟩, hside'⟩ := hsettled
    simp only [Operation.printable, Node.printable, Bool.and_eq_true, Bool.not_eq_true'] at hprintable
    obtain ⟨⟨hpleft, hpright⟩, hseparate⟩ := hprintable
    have hread := readsOperation_binary hleft hlevel hright hside hside' hseparate
      (h hsleft hpleft).2 (h' hsright hpright).2
    have hshaped : Operation.wellShaped
        ⟨some (.value left), some (.text symbol), some (.value right)⟩ = true := by
      rw [Operation.wellShaped, hleft, hlevel, hright]
      rfl
    exact ⟨hread, readsOperand_group rfl hshaped hread⟩

/-- An operation is read back by itself. -/
theorem readsOperation_of_settled (o : Operation) (hshaped : o.wellShaped = true)
    (hsettled : o.settled = true) (hprintable : o.printable allows = true) :
    ReadsOperation width o :=
  (readsExpression_cases.of_operation o hshaped hsettled hprintable).1

theorem readsOperation_of_value (element : Element) (hshaped : element.isWellShapedValue = true)
    (hsettled : element.settled = true) (hprintable : element.printable allows = true) :
    ∃ o, element = .node (.value o) ∧ o.wellShaped = true ∧ ReadsOperation width o := by
  obtain ⟨o, rfl, ho, hread⟩ :=
    (@readsExpression_cases width allows).of_value element hshaped
  rw [Element.settled, Node.settled] at hsettled
  rw [Element.printable, Node.printable] at hprintable
  exact ⟨o, rfl, ho, (hread hsettled hprintable).1⟩

end Rule

end Lsl
