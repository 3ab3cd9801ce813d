import WorksheetTex.Tex.Polish.Fraction

namespace WorksheetTex.Tex.Polish

open Text

def endsOperand (c : Char) : Bool :=
  c.isAlphanum || c == '}' || c == ']' || c == ')'

def startsOperand (c : Char) : Bool :=
  c.isAlphanum || c == '{' || c == '(' || c == '\\'

def binaryOperators : List Text :=
  ["+", "-", "=", "<", ">", "\\times", "\\cdot", "\\leq", "\\geq", "\\neq"]

def isCut (op rest : Text) : Bool :=
  op.head? != some '\\' || !rest.head?.any isLatin

def operatorRule (op : Text) : Rule Text := fun _ t =>
  match t with
  | [] => none
  | c :: r =>
      let s := r.dropWhile isSpace
      let rest := s.drop op.length
      let next := rest.dropWhile isSpace
      if endsOperand c && op.isPrefixOf s && isCut op rest && next.head?.any startsOperand then
        some (t.length - next.length, c :: " " ++ op ++ " ")
      else none

def spaceOperators (t : Text) : Text :=
  binaryOperators.foldl (fun t op => replaceAll (operatorRule op) t) t

end WorksheetTex.Tex.Polish
