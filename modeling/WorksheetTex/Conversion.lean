import WorksheetTex.Options
import WorksheetTex.Tex.Polish

namespace WorksheetTex

open Paren Tex

structure Report where
  latex : Text
  warnings : List Imbalance
deriving DecidableEq, Repr

def Setting.report (s : Setting) (strict : Bool) (t : Text) : Except Fault Report := do
  let latex := spaceCommands (← s.typeset t)
  match imbalance? t with
  | none => return ⟨latex, []⟩
  | some cause =>
      if strict then throw (.unbalanced cause latex) else return ⟨latex, [cause]⟩

def Options.report (o : Options) (t : Text) : Except Fault Report := do
  (← o.setting).report o.isStrict t

def report (v : OptionsValue) (t : Text) : Except Fault Report := do
  (← v.required).report t

def typeset (v : OptionsValue) (t : Text) : Except Fault Text :=
  (report v t).map (·.latex)

def polish (v : OptionsValue) (t : Text) : Except Fault Text := do
  return Tex.polish (← v.required).annotates t

def typesetPolished (v : OptionsValue) (t : Text) : Except Fault Text := do
  let o ← v.lenient
  return Tex.polish o.annotates (← o.report t).latex

end WorksheetTex
