import WorksheetTex.Text.Blank
import WorksheetTex.Text.Segment

namespace WorksheetTex.Tex.Polish

open Text

def bigCommands : List Text :=
  ["\\int", "\\sum", "\\prod"]

def afterLimit? (mark t : Text) : Option Text :=
  if mark.isPrefixOf t then
    match (t.drop mark.length).dropWhile (· != '}') with
    | _ :: s => some s
    | [] => none
  else none

def isDisplayed (before : Text) : Bool :=
  endsIn before "\\displaystyle" ||
    (before.head?.any isBlank && endsIn before.tail "\\displaystyle")

def displayRule : Rule Text := fun before t => do
  let command ← bigCommands.find? (·.isPrefixOf t)
  let rest ← afterLimit? "_\x7b" (t.drop command.length)
  let rest ← afterLimit? "^\x7b" rest
  let n := t.length - rest.length
  if isDisplayed before then none else some (n, "\\displaystyle" ++ t.take n)

def displayLimits (t : Text) : Text :=
  replaceAll displayRule t

end WorksheetTex.Tex.Polish
