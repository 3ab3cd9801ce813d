import WorksheetTex.Tex.Markup
import WorksheetTex.Text.Segment

namespace WorksheetTex.Tex.Polish

open Text

def exponentOf (t : Text) : Option Text :=
  let ds := t.takeWhile Char.isDigit
  let after := (t.drop ds.length).head?
  if !ds.isEmpty && !after.any fun c => isWord c || c == '.' then some ds
  else
    match t with
    | c :: r => if isWord c && !r.head?.any isWord then some [c] else none
    | [] => none

def exponentRule : Rule Text := fun _ t =>
  let base := t.takeWhile isWord
  match base, t.drop base.length with
  | _ :: _, '^' :: r =>
      (exponentOf r).map fun e => (base.length + 1 + e.length, base ++ sup e)
  | _, _ => none

def exponents (t : Text) : Text :=
  replaceAll exponentRule t

end WorksheetTex.Tex.Polish
