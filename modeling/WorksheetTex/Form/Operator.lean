import WorksheetTex.Tex.Markup

namespace WorksheetTex.Form

open Tex Text

inductive Operator where
  | plus
  | minus
  | times
  | divide
  | power
deriving DecidableEq, Repr

namespace Operator

def symbol : Operator → Char
  | .plus => '+'
  | .minus => '-'
  | .times => '*'
  | .divide => '/'
  | .power => '^'

def ofChar? (c : Char) : Option Operator :=
  [plus, minus, times, divide, power].find? (·.symbol == c)

theorem ofChar?_symbol (op : Operator) : ofChar? op.symbol = some op := by
  cases op <;> decide

def accepts : Operator → Nat → Bool
  | .divide, n => decide (2 ≤ n)
  | .power, n => decide (2 ≤ n)
  | _, n => decide (1 ≤ n)

def render : Operator → List Text → Option Text
  | _, [] => none
  | .plus, ts => some (joinWith " + " ts)
  | .minus, [t] => some ('-' :: t)
  | .minus, ts => some (joinWith " - " ts)
  | .times, ts => some (joinWith " \\cdot " ts)
  | .divide, a :: b :: _ => some (frac a b)
  | .power, a :: b :: _ => some ((if a = ['e'] then a else group a) ++ sup b)
  | _, _ => none

theorem isSome_render (op : Operator) (ts : List Text) :
    (op.render ts).isSome = op.accepts ts.length := by
  rcases ts with _ | ⟨a, _ | ⟨b, r⟩⟩ <;> cases op <;> simp [render, accepts]

end Operator

end WorksheetTex.Form
