import WorksheetTex.Evaluation.Collapse
import WorksheetTex.Form.Reading
import WorksheetTex.Paren.Matching
import WorksheetTex.Tex.Spacing

namespace WorksheetTex

open Text Tex Vocabulary Form

inductive Layer (α : Type) where
  | done (t : Text)
  | arithmetic (op : Operator) (operands : List α)
  | tagged (form : Form α)
deriving DecidableEq, Repr

namespace Layer

variable {α β : Type} {m : Type → Type} [Monad m]

def traverse (f : α → m β) : Layer α → m (Layer β)
  | .done t => pure (.done t)
  | .arithmetic op as => return .arithmetic op (← traverseList f as)
  | .tagged form => return .tagged (← form.traverse f)

def layout (lex : Lexicon) : Layer Text → Text
  | .done t => t
  | .arithmetic op ts => (op.render ts).getD []
  | .tagged form => spaceCommands (form.layout lex)

def isEvaluation (e : Text) : Bool :=
  ["(/", "(*", "(+", "(-"].any (fun w : String => w.toList.isPrefixOf e) &&
    (occursIn "(@LABEL" e || occursIn "(@APPLY" e)

def readEvaluation (lex : Lexicon) (e : Text) : Except Fault (Layer Text) :=
  match operator? e with
  | none => .ok (.done e)
  | some op =>
      let parts := split .atGaps (trim ((e.drop 2).dropLast))
      if Paren.isWhole e && decide (2 ≤ parts.length) then .ok (.arithmetic op parts)
      else do
        let t ← Evaluation.collapse lex e
        if t = e then return .arithmetic op (operands e) else return .done t

def read (lex : Lexicon) (t : Text) : Except Fault (Layer Text) :=
  let e := trim t
  if e.isEmpty then .ok (.done [])
  else if isEvaluation e then readEvaluation lex e
  else
    match operator? e with
    | some op => .ok (.arithmetic op (operands e))
    | none => (Form.read lex (replaceGlyphs e)).map .tagged

end Layer

end WorksheetTex
