import WorksheetTex.Text.Units

namespace WorksheetTex.Paren

open Text

inductive Imbalance where
  | extraClose (position : Nat)
  | missingClose (position : Nat)
deriving DecidableEq, Repr

def Imbalance.position : Imbalance → Nat
  | .extraClose n => n
  | .missingClose n => n

def Imbalance.message : Imbalance → Text
  | .extraClose n => "Unmatched ')' at position " ++ Nat.toDigits 10 n
  | .missingClose n => "Unclosed '(' at position " ++ Nat.toDigits 10 n

def imbalanceFrom (position : Nat) (opened : List Nat) : Text → Option Imbalance
  | [] => opened.head?.map .missingClose
  | c :: r =>
      if c = '(' then imbalanceFrom (position + 1) (position :: opened) r
      else if c = ')' then
        match opened with
        | [] => some (.extraClose position)
        | _ :: rest => imbalanceFrom (position + 1) rest r
      else imbalanceFrom (position + unitWidth c) opened r

def imbalance? (t : Text) : Option Imbalance :=
  imbalanceFrom 0 [] t

def balanceFrom : Nat → Text → Text
  | depth, [] => List.replicate depth ')'
  | depth, c :: r =>
      if c = '(' then c :: balanceFrom (depth + 1) r
      else if c = ')' then
        match depth with
        | 0 => balanceFrom 0 r
        | d + 1 => c :: balanceFrom d r
      else c :: balanceFrom depth r

def balance (t : Text) : Text :=
  balanceFrom 0 t

end WorksheetTex.Paren
