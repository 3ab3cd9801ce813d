import WorksheetTex.Tex.Markup
import WorksheetTex.Text.Segment

namespace WorksheetTex.Tex.Polish

open Text

def isBrace (c : Char) : Bool :=
  c == '{' || c == '}'

def afterGroup? : Text → Option Text
  | '{' :: r =>
      match r.dropWhile (!isBrace ·) with
      | '}' :: s => some s
      | _ => none
  | _ => none

def afterFraction? (t : Text) : Option Text :=
  if "\\frac".toList.isPrefixOf t then (afterGroup? (t.drop 5)).bind afterGroup? else none

def afterClose? (t : Text) : Option Text :=
  match t.dropWhile (!isParen ·) with
  | ')' :: s => if endsIn (t.takeWhile (!isParen ·)).reverse "\\right" then none else some s
  | _ => none

def afterEnclosed? : Text → Option Text
  | [] => none
  | c :: r =>
      if isParen c then none
      else
        match afterEnclosed? r with
        | some s => some s
        | none => (afterFraction? (c :: r)).bind afterClose?

def sizedRule : Rule Text := fun before t =>
  match t with
  | '(' :: r =>
      if endsIn before "\\left" then none
      else
        (afterEnclosed? r).map fun s =>
          (t.length - s.length, sized (r.take (r.length - s.length - 1)))
  | _ => none

def sizeParens (t : Text) : Text :=
  replaceAll sizedRule t

end WorksheetTex.Tex.Polish
