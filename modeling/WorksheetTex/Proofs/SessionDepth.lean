import WorksheetTex.Proofs.Simulation
import WorksheetTex.Session

namespace WorksheetTex

open Vocabulary Form

namespace Counted

variable {depth : Nat} {α β : Type}

def Restores (depth : Nat) (α : Type) (x : Counted α) (y : Except Fault α) : Prop :=
  x.run.run depth = (y, depth)

theorem simulates_restores (depth : Nat) : Simulates (Restores depth) where
  pure _ := rfl
  bind := by
    intro α β x y f g hx hf
    change (ExceptT.bindCont f (x.run.run depth).1).run (x.run.run depth).2 = _
    rw [hx]
    cases y with
    | error fault => rfl
    | ok a => exact hf a

theorem Restores.map {x : Counted α} {y : Except Fault α} (h : Restores depth α x y) (f : α → β) :
    Restores depth β (f <$> x) (f <$> y) := by
  have hbind := (simulates_restores depth).bind h fun a => (simulates_restores depth).pure (f a)
  cases y with
  | error fault => exact hbind
  | ok a => exact hbind

theorem restores_ofExcept (y : Except Fault α) : Restores depth α (ofExcept y) y :=
  rfl

theorem Restores.deeper {limit : Limit} {x : Counted α} {y : Except Fault α}
    (hdepth : depth < limit.levels) (h : Restores (depth + 1) α x y) :
    Restores depth α (deeper limit x) y := by
  change (if limit.levels ≤ depth then _
    else ((x.run.run (depth + 1)).1, (x.run.run (depth + 1)).2 - 1)) = _
  rw [if_neg (Nat.not_le.mpr hdepth), h]
  rfl

theorem restores_deeper_of_le {limit : Limit} (hdepth : limit.levels ≤ depth) (x : Counted α) :
    Restores depth α (deeper limit x) (.error (.tooDeep limit)) :=
  if_pos hdepth

theorem restores_typesetWithin (s : Setting) {fuel : Nat} (hfuel : s.limit.levels < fuel + depth)
    (t : Text) :
    Restores depth Text (typesetWithin s fuel t) (s.typesetWithin (s.limit.levels - depth) t) := by
  induction fuel generalizing depth t with
  | zero =>
      have hnone : s.limit.levels - depth = 0 := by omega
      rw [hnone]
      rfl
  | succ fuel ih =>
      by_cases hdepth : s.limit.levels ≤ depth
      · rw [Nat.sub_eq_zero_of_le hdepth]
        exact restores_deeper_of_le hdepth _
      · have hlevels : s.limit.levels - depth = s.limit.levels - (depth + 1) + 1 := by omega
        rw [hlevels]
        have hsim := simulates_restores (depth + 1)
        refine Restores.deeper (Nat.not_le.mp hdepth) ?_
        refine hsim.bind (restores_ofExcept _) fun layer => ?_
        exact hsim.bind (hsim.layer (ih (by omega)) layer) fun filled => hsim.pure _

theorem restores_typeset (s : Setting) (t : Text) : Restores 0 Text (typeset s t) (s.typeset t) :=
  restores_typesetWithin s (Nat.lt_succ_self _) t

end Counted

namespace Setting

def fill (s : Setting) (form : Form Text) : Except Fault Text := do
  return (← form.traverse s.typeset).layout s.lexicon

def respond (s : Setting) : Call → Except Fault (Option Text)
  | .typeset t => some <$> s.typeset t
  | .collapse t => some <$> Evaluation.collapse s.lexicon t
  | .evaluate t => some <$> s.evaluate t
  | .label kind name =>
      match readLabel s.lexicon kind name with
      | none => pure none
      | some form => some <$> s.fill form
  | .constant name => some <$> s.fill (readConstant s.lexicon name)
  | .unit name => pure (some (s.lexicon.unit name))
  | .function name => pure (some (s.lexicon.function name))

end Setting

namespace Counted

theorem restores_fillForm (s : Setting) (form : Form Text) :
    Restores 0 Text (fillForm s form) (s.fill form) := by
  have hsim := simulates_restores 0
  exact hsim.bind (hsim.form (restores_typeset s) form) fun _ => hsim.pure _

theorem restores_answer (s : Setting) (call : Call) :
    Restores 0 (Option Text) (answer s call) (s.respond call) := by
  have hsim := simulates_restores 0
  cases call with
  | typeset t => exact (restores_typeset s t).map some
  | collapse t => exact (restores_ofExcept _).map some
  | evaluate t =>
      have hevaluate : s.respond (.evaluate t) = (do
          let layer ← Layer.readEvaluation s.lexicon t
          return some ((← layer.traverse s.typeset).layout s.lexicon)) := by
        simp only [Setting.respond, Setting.evaluate, Setting.finish, map_bind, map_pure]
      rw [hevaluate]
      exact hsim.bind (restores_ofExcept _) fun layer =>
        hsim.bind (hsim.layer (restores_typeset s) layer) fun _ => hsim.pure _
  | label kind name =>
      rw [answer, Setting.respond]
      cases readLabel s.lexicon kind name with
      | none => exact hsim.pure none
      | some form => exact (restores_fillForm s form).map some
  | constant name => exact (restores_fillForm s _).map some
  | unit name => exact hsim.pure _
  | function name => exact hsim.pure _

end Counted

namespace Session

def after (s : Session) (calls : List Call) : Session :=
  calls.foldl (fun s call => (s.answer call).2) s

theorem answer_fresh (s : Setting) (call : Call) :
    answer ⟨s, 0⟩ call = (s.respond call, ⟨s, 0⟩) := by
  rw [answer, Counted.restores_answer]

theorem after_fresh (s : Setting) (calls : List Call) : after ⟨s, 0⟩ calls = ⟨s, 0⟩ := by
  induction calls with
  | nil => rfl
  | cons call calls ih =>
      rw [after, List.foldl_cons, answer_fresh]
      exact ih

theorem answerAll_eq_map (s : Setting) (calls : List Call) :
    answerAll ⟨s, 0⟩ calls = calls.map s.respond := by
  induction calls with
  | nil => rfl
  | cons call calls ih => rw [answerAll, answer_fresh, List.map_cons, ← ih]

theorem answerAll_fresh (s : Setting) (calls : List Call) :
    (∀ k, (after ⟨s, 0⟩ (calls.take k)).depth = 0) ∧
      answerAll ⟨s, 0⟩ calls = calls.map (fun call => (answer ⟨s, 0⟩ call).1) ∧
      ∀ call, (answer ⟨s, 0⟩ call).1 = s.respond call := by
  have hrespond (call : Call) : (answer ⟨s, 0⟩ call).1 = s.respond call := by
    rw [answer_fresh]
  refine ⟨fun k => ?_, ?_, hrespond⟩
  · rw [after_fresh]
  · rw [answerAll_eq_map]
    exact List.map_congr_left fun call _ => (hrespond call).symm

end Session

end WorksheetTex
