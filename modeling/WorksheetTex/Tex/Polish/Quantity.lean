import WorksheetTex.Tex.Polish.Fraction

namespace WorksheetTex.Tex.Polish

open Text

def usualVariables : List Text :=
  ["x", "y", "z", "i", "j", "k", "t", "n", "a", "b", "c"]

def takeNumber (t : Text) : Text :=
  let whole := t.takeWhile Char.isDigit
  match t.drop whole.length with
  | '.' :: r =>
      match r.takeWhile Char.isDigit with
      | [] => whole
      | ds => whole ++ '.' :: ds
  | _ => whole

def quantityRule : Rule Text := fun before t =>
  let value := takeNumber t
  let rest := (t.drop value.length).dropWhile isSpace
  let unit := rest.takeWhile isLatin
  let glued := before.head?.any fun c => isWord c || c == '.'
  if (t.head?.any Char.isDigit) && !glued && !unit.isEmpty && !usualVariables.contains unit then
    some (t.length - (rest.drop unit.length).length, value ++ "\\," ++ upright unit)
  else none

def setQuantities (t : Text) : Text :=
  replaceAll quantityRule t

end WorksheetTex.Tex.Polish
