import WorksheetTex.Text.Alphanumeric
import WorksheetTex.Text.Units

namespace WorksheetTex.Tex

open Text

structure Spacer (σ : Type) where
  step : σ → Char → σ
  due : σ → Char → Bool

def Spacer.run {σ : Type} (p : Spacer σ) (s : σ) : Text → Text
  | [] => []
  | c :: r =>
      if p.due s c then ' ' :: c :: p.run (p.step s c) r else c :: p.run (p.step s c) r

def greekNames : List Text :=
  [ "pi", "alpha", "beta", "gamma", "delta", "epsilon", "zeta", "eta", "theta", "iota", "kappa",
    "lambda", "mu", "nu", "xi", "omicron", "rho", "sigma", "tau", "upsilon", "phi", "chi", "psi",
    "omega" ]

def greekEndings : List Text :=
  greekNames.map List.reverse

def greekSpacer : Spacer (Option Text) where
  step s c := if c = '\\' then some [] else s.map (c :: ·)
  due s c := c.isAlphanum && s.any greekEndings.contains

def unspacedCommands : List Text :=
  ["int", "sum", "prod", "lim", "frac", "sqrt", "in"]

inductive Mode where
  | plain
  | command
  | name (letters : Text)
deriving DecidableEq, Repr

def nameSpacer : Spacer Mode where
  step
    | .command, c => if isLatin c then .name [c] else .plain
    | .name w, c => if isLatin c then .name (c :: w) else if c = '\\' then .command else .plain
    | .plain, c => if c = '\\' then .command else .plain
  due
    | .name w, c =>
        !isLatin c && !isWide c && isAlphanumeric c && !unspacedCommands.contains w.reverse
    | _, _ => false

def spaceCommands (t : Text) : Text :=
  nameSpacer.run .plain (greekSpacer.run none t)

end WorksheetTex.Tex
