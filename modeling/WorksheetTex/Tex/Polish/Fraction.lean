import WorksheetTex.Tex.Markup
import WorksheetTex.Text.Segment

namespace WorksheetTex.Tex.Polish

open Text

def fractionOperand : Text → Option (Text × Nat)
  | [] => none
  | c :: r =>
      if isWord c then
        let w := (c :: r).takeWhile isWord
        some (w, w.length)
      else if c = '(' then
        let w := r.takeWhile (· != ')')
        if w.isEmpty || w.length = r.length then none else some (w, w.length + 2)
      else none

def isSpace (c : Char) : Bool :=
  c == ' '

def fractionRule : Rule Text := fun _ t => do
  let (numerator, n) ← fractionOperand t
  let r := (t.drop n).dropWhile isSpace
  match r with
  | '/' :: s =>
      let s := s.dropWhile isSpace
      let (denominator, d) ← fractionOperand s
      return (t.length - (s.drop d).length, frac numerator denominator)
  | _ => none

def fractions (t : Text) : Text :=
  replaceAll fractionRule t

end WorksheetTex.Tex.Polish
