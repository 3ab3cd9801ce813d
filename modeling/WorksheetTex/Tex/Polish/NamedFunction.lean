import WorksheetTex.Text.Segment

namespace WorksheetTex.Tex.Polish

open Text

def namedFunctions : List Text :=
  [ "sin", "cos", "tan", "cot", "sec", "csc", "arcsin", "arccos", "arctan", "sinh", "cosh", "tanh",
    "log", "ln", "exp", "lim", "max", "min" ]

def uprightOpenings : List Text :=
  ["\\mathrm\x7b", "\\operatorname\x7b", "\\text\x7b"]

def functionRule : Rule Text := fun before t =>
  let w := t.takeWhile isLatin
  let glued := before.head?.any fun c => c == '\\' || isLatin c
  if namedFunctions.contains w && !glued && !uprightOpenings.any (endsIn before ·) then
    some (w.length, '\\' :: w)
  else none

def nameFunctions (t : Text) : Text :=
  replaceAll functionRule t

end WorksheetTex.Tex.Polish
