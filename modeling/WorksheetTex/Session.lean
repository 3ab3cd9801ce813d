import WorksheetTex.Typesetting

namespace WorksheetTex

open Vocabulary Form

inductive Call where
  | typeset (t : Text)
  | collapse (t : Text)
  | evaluate (t : Text)
  | label (kind name : Text)
  | constant (name : Text)
  | unit (name : Text)
  | function (name : Text)
deriving DecidableEq, Repr

abbrev Counted := ExceptT Fault (StateM Nat)

namespace Counted

variable {α : Type}

def ofExcept (x : Except Fault α) : Counted α :=
  ExceptT.mk (pure x)

def deeper (limit : Limit) (body : Counted α) : Counted α :=
  ExceptT.mk fun depth =>
    if limit.levels ≤ depth then (.error (.tooDeep limit), depth)
    else
      let (result, after) := body.run.run (depth + 1)
      (result, after - 1)

def typesetWithin (s : Setting) : Nat → Text → Counted Text
  | 0, _ => throw (.tooDeep s.limit)
  | n + 1, t =>
      deeper s.limit do
        let layer ← ofExcept (Layer.read s.lexicon t)
        let filled ← layer.traverse (typesetWithin s n)
        return filled.layout s.lexicon

def typeset (s : Setting) (t : Text) : Counted Text :=
  typesetWithin s (s.limit.levels + 1) t

def fillForm (s : Setting) (form : Form Text) : Counted Text := do
  return (← form.traverse (typeset s)).layout s.lexicon

def answer (s : Setting) : Call → Counted (Option Text)
  | .typeset t => some <$> typeset s t
  | .collapse t => some <$> ofExcept (Evaluation.collapse s.lexicon t)
  | .evaluate t => do
      let layer ← ofExcept (Layer.readEvaluation s.lexicon t)
      return some ((← layer.traverse (typeset s)).layout s.lexicon)
  | .label kind name =>
      match readLabel s.lexicon kind name with
      | none => pure none
      | some form => some <$> fillForm s form
  | .constant name => some <$> fillForm s (readConstant s.lexicon name)
  | .unit name => pure (some (s.lexicon.unit name))
  | .function name => pure (some (s.lexicon.function name))

end Counted

structure Session where
  setting : Setting
  depth : Nat := 0
deriving DecidableEq, Repr

namespace Session

def answer (s : Session) (call : Call) : Except Fault (Option Text) × Session :=
  let (result, depth) := (Counted.answer s.setting call).run.run s.depth
  (result, { s with depth })

def answerAll (s : Session) : List Call → List (Except Fault (Option Text))
  | [] => []
  | call :: r =>
      let (result, next) := s.answer call
      result :: next.answerAll r

end Session

end WorksheetTex
