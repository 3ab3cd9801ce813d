import WorksheetTex.Text.Basic

namespace WorksheetTex.Tex

def group (t : Text) : Text :=
  '{' :: t ++ ['}']

def sub (t : Text) : Text :=
  '_' :: group t

def sup (t : Text) : Text :=
  '^' :: group t

def frac (numerator denominator : Text) : Text :=
  "\\frac" ++ group numerator ++ group denominator

def upright (t : Text) : Text :=
  "\\mathrm" ++ group t

def operatorName (t : Text) : Text :=
  "\\operatorname" ++ group t

def sized (t : Text) : Text :=
  "\\left(" ++ t ++ "\\right)"

def environment (name body : Text) : Text :=
  "\\begin" ++ group name ++ body ++ "\\end" ++ group name

end WorksheetTex.Tex
