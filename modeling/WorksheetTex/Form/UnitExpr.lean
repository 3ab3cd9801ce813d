import WorksheetTex.Form.Arguments
import WorksheetTex.Form.Head
import WorksheetTex.Vocabulary.Lexicon

namespace WorksheetTex.Form

open Text Tex Vocabulary

inductive UnitExpr (α : Type) where
  | written (t : Text)
  | embedded (a : α)
  | quotient (u v : UnitExpr α)
  | power (u : UnitExpr α) (a : α)
  | product (u v : UnitExpr α)
deriving DecidableEq, Repr

namespace UnitExpr

variable {α β : Type}

def productOf : List (UnitExpr α) → UnitExpr α
  | [] => .written []
  | [u] => u
  | u :: us => .product u (productOf us)

def traverse {m : Type → Type} [Monad m] (f : α → m β) : UnitExpr α → m (UnitExpr β)
  | .written t => pure (.written t)
  | .embedded a => return .embedded (← f a)
  | .quotient u v => return .quotient (← u.traverse f) (← v.traverse f)
  | .power u a => return .power (← u.traverse f) (← f a)
  | .product u v => return .product (← u.traverse f) (← v.traverse f)

def layout : UnitExpr Text → Text
  | .written t => t
  | .embedded t => t
  | .quotient u v => frac u.layout v.layout
  | .power u t => u.layout ++ sup t
  | .product u v => u.layout ++ " \\cdot " ++ v.layout

end UnitExpr

def readUnit (lex : Lexicon) (e : Text) : UnitExpr Text :=
  if e = ['N'] ∨ lex.units.contains e then .written (lex.unit e)
  else
    match operator? e, (operands e).attach with
    | some .divide, a :: b :: _ => .quotient (readUnit lex a) (readUnit lex b)
    | some .divide, _ => .written []
    | some .power, a :: b :: _ => .power (readUnit lex a) b
    | some .power, _ => .written []
    | some .times, ps => UnitExpr.productOf (ps.map fun p => readUnit lex p.1)
    | some _, _ => .embedded e
    | none, _ =>
        if "(@LABEL".toList.isPrefixOf e then
          match arguments e with
          | kind :: name :: _ =>
              if LabelKind.ofName? kind = some .unit then .written (lex.unit name) else .embedded e
          | _ => .embedded e
        else .embedded e
termination_by e.length
decreasing_by all_goals exact length_lt_of_mem_operands (Subtype.property _)

end WorksheetTex.Form
