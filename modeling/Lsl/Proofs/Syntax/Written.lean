import Lsl.Syntax.Render
/-!
# Written forms from written parts

The written form of a node put together from those of its parts, for the forms of nodes with optional
parts.  Each optional part is written by one function, with a text in its place where it is absent.
-/

namespace Lsl

variable (width : Nat)

namespace Node

variable (parent? : Option Kind)

theorem renderIn_variable_eq (type? : Option Primitive) (name? : Option String)
    (value? : Option Element) :
    (Node.variable type? name? value?).renderIn width parent? =
      renderVariable type? name? (value?.map (Element.renderIn width .variable)) := by
  cases value? <;> rfl

theorem renderIn_ret_eq (value? : Option Element) :
    (Node.ret value?).renderIn width parent? =
      ((value?.map (Element.renderIn width .ret)).elim "return;" ("return " ++ · ++ ";")) := by
  cases value? <;> rfl

theorem renderIn_cast_eq (type? : Option Primitive) (value? : Option Element) :
    (Node.cast type? value?).renderIn width parent? =
      "(" ++ renderType type? ++ ")" ++ (value?.map (Element.renderIn width .cast)).getD "" := by
  cases value? <;> rfl

theorem renderIn_ifElse_eq (condition? : Option Node) (body? : Option Body)
    (else? : Option Node) :
    (Node.ifElse condition? body? else?).renderIn width parent? =
      "if (" ++ (condition?.map (Node.renderIn width (some .ifElse))).getD "" ++ ")\n" ++
        (body?.map (Body.render width)).getD emptyBlock ++ "\nelse\n" ++
        (else?.map (Node.renderIn width (some .ifElse))).getD ";" := by
  cases condition? <;> cases body? <;> cases else? <;> rfl

theorem renderIn_whileLoop_eq (condition? : Option Node) (body? : Option Body) :
    (Node.whileLoop condition? body?).renderIn width parent? =
      "while (" ++ (condition?.map (Node.renderIn width (some .whileLoop))).getD "" ++ ")\n" ++
        (body?.map (Body.render width)).getD emptyBlock := by
  cases condition? <;> cases body? <;> rfl

theorem renderIn_doLoop_eq (condition? : Option Node) (body? : Option Body) :
    (Node.doLoop condition? body?).renderIn width parent? =
      "do\n" ++ (body?.map (Body.render width)).getD emptyBlock ++ "\nwhile (" ++
        (condition?.map (Node.renderIn width (some .doLoop))).getD "" ++ ");" := by
  cases condition? <;> cases body? <;> rfl

theorem renderIn_forLoop_eq (precommands : List Node) (condition? : Option Node)
    (loopcommands : List Node) (body? : Option Body) :
    (Node.forLoop precommands condition? loopcommands body?).renderIn width parent? =
      "for (" ++ String.intercalate ", " (renderNodes width .forLoop precommands) ++ "; " ++
        (condition?.map (Node.renderIn width (some .forLoop))).getD "" ++ "; " ++
        String.intercalate ", " (renderNodes width .forLoop loopcommands) ++ ")\n" ++
        (body?.map (Body.render width)).getD emptyBlock := by
  cases condition? <;> cases body? <;> rfl

theorem renderIn_preMod_eq (operator? : Option String) (value? : Option Element) :
    (Node.preMod operator? value?).renderIn width parent? =
      renderPreMod (operator?.getD "") ((value?.map (Element.renderIn width .preMod)).getD "") := by
  cases value? <;> rfl

theorem renderIn_postMod_eq (operator? : Option String) (value? : Option Element) :
    (Node.postMod operator? value?).renderIn width parent? =
      (value?.map (Element.renderIn width .postMod)).getD "" ++ operator?.getD "" := by
  cases value? <;> rfl

end Node

theorem FunctionDef.render_eq (type? : Option Primitive) (name? : Option String)
    (params : List Param) (body? : Option Body) :
    FunctionDef.render width ⟨type?, name?, params, body?⟩ =
      renderFunction type? name? params ((body?.map (Body.render width)).getD emptyBlock) := by
  cases body? <;> rfl

/-- A block that only wraps another block has one statement, which is written in place of it. -/
theorem Body.render_eq (body : Body) :
    body.render width =
      if body.isRedundant then (renderNodes width .body body.statements).headD ""
      else renderBlock width (renderNodes width .body body.statements) := by
  match body with
  | ⟨[]⟩ => rfl
  | ⟨[statement]⟩ => cases statement <;> rfl
  | ⟨first :: _ :: _⟩ => cases first <;> rfl

/-- The parentheses that an operation is put in where it has sides and stands among operands. -/
def parenthesized (binary : Bool) (parent? : Option Kind) (text : String) : String :=
  if binary && parent?.any Kind.groupsOperands then "(" ++ text ++ ")" else text

theorem Operation.renderIn_eq (kind : Kind) (parent? : Option Kind) (left? : Option Node)
    (center? : Option Element) (right? : Option Node) :
    Operation.renderIn width kind parent? ⟨left?, center?, right?⟩ =
      parenthesized (left?.isSome || right?.isSome) parent?
        (renderOperation (left?.map (Node.renderIn width (some kind)))
          ((center?.map (Element.renderIn width kind)).getD "")
          (right?.map (Node.renderIn width (some kind)))) := by
  cases left? <;> cases center? <;> cases right? <;> rfl

end Lsl
