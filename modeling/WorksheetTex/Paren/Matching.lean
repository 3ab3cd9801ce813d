import WorksheetTex.Text.Units

namespace WorksheetTex.Paren

open Text

def closeFrom (position depth : Nat) : Text → Option Nat
  | [] => none
  | c :: r =>
      if c = '(' then closeFrom (position + 1) (depth + 1) r
      else if c = ')' then
        match depth with
        | 0 => some position
        | d + 1 => closeFrom (position + 1) d r
      else closeFrom (position + unitWidth c) depth r

def matchingClose (t : Text) (start : Int) : Option Nat :=
  match start with
  | .ofNat n =>
      match fromUnit n t with
      | some ('(' :: r) => closeFrom (n + 1) 0 r
      | _ => none
  | .negSucc _ => none

def isWhole (t : Text) : Bool :=
  matchingClose t 0 == some (unitLength t - 1)

end WorksheetTex.Paren
