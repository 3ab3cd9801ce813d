import WorksheetTex.Layer

namespace WorksheetTex

open Vocabulary

structure Setting where
  lexicon : Lexicon
  limit : Limit
deriving DecidableEq, Repr

namespace Setting

def typesetWithin (s : Setting) : Nat → Text → Except Fault Text
  | 0, _ => .error (.tooDeep s.limit)
  | n + 1, t => do
      let layer ← Layer.read s.lexicon t
      let filled ← layer.traverse (s.typesetWithin n)
      return filled.layout s.lexicon

def typeset (s : Setting) (t : Text) : Except Fault Text :=
  s.typesetWithin s.limit.levels t

def finish (s : Setting) (layer : Layer Text) : Except Fault Text := do
  let filled ← layer.traverse s.typeset
  return filled.layout s.lexicon

def evaluate (s : Setting) (t : Text) : Except Fault Text := do
  s.finish (← Layer.readEvaluation s.lexicon t)

end Setting

end WorksheetTex
