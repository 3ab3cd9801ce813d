import WorksheetTex.Typesetting

namespace WorksheetTex

open Form

variable {m m' : Type → Type} [Monad m] [Monad m']

structure Simulates (R : (α : Type) → m α → m' α → Prop) : Prop where
  pure {α : Type} (a : α) : R α (pure a) (pure a)
  bind {α β : Type} {x : m α} {y : m' α} {f : α → m β} {g : α → m' β} :
    R α x y → (∀ a, R β (f a) (g a)) → R β (x >>= f) (y >>= g)

namespace Simulates

variable {R : (α : Type) → m α → m' α → Prop} (hR : Simulates R) {α β : Type} {f : α → m β}
  {g : α → m' β} (h : ∀ a, R β (f a) (g a))

include hR h

theorem traverseOption (o : Option α) : R _ (traverseOption f o) (traverseOption g o) := by
  cases o with
  | none => exact hR.pure _
  | some a => exact hR.bind (h a) fun _ => hR.pure _

theorem traverseList (as : List α) : R _ (traverseList f as) (traverseList g as) := by
  induction as with
  | nil => exact hR.pure _
  | cons a as ih => exact hR.bind (h a) fun _ => hR.bind ih fun _ => hR.pure _

theorem callee (c : Callee α) : R _ (c.traverse f) (c.traverse g) := by
  cases c with
  | known t => exact hR.pure _
  | computed a => exact hR.bind (h a) fun _ => hR.pure _

theorem unitExpr (u : UnitExpr α) : R _ (u.traverse f) (u.traverse g) := by
  induction u with
  | written t => exact hR.pure _
  | embedded a => exact hR.bind (h a) fun _ => hR.pure _
  | quotient u v hu hv => exact hR.bind hu fun _ => hR.bind hv fun _ => hR.pure _
  | power u a hu => exact hR.bind hu fun _ => hR.bind (h a) fun _ => hR.pure _
  | product u v hu hv => exact hR.bind hu fun _ => hR.bind hv fun _ => hR.pure _

theorem form (form : Form α) : R _ (form.traverse f) (form.traverse g) := by
  have option (o : Option α) := hR.traverseOption h o
  have list (as : List α) := hR.traverseList h as
  cases form with
  | plain t => exact hR.pure _
  | nested a => exact hR.bind (h a) fun _ => hR.pure _
  | integral l u b v =>
      exact hR.bind (h l) fun _ => hR.bind (h u) fun _ => hR.bind (h b) fun _ =>
        hR.bind (h v) fun _ => hR.pure _
  | derivative v o b =>
      exact hR.bind (h v) fun _ => hR.bind (option o) fun _ => hR.bind (h b) fun _ => hR.pure _
  | partialDerivative v o b =>
      exact hR.bind (h v) fun _ => hR.bind (option o) fun _ => hR.bind (h b) fun _ => hR.pure _
  | limit v p s b =>
      exact hR.bind (h v) fun _ => hR.bind (h p) fun _ => hR.bind (option b) fun _ => hR.pure _
  | primed a n => exact hR.bind (h a) fun _ => hR.pure _
  | root o r => exact hR.bind (option o) fun _ => hR.bind (h r) fun _ => hR.pure _
  | series s i a u b =>
      exact hR.bind (option i) fun _ => hR.bind (option a) fun _ => hR.bind (h u) fun _ =>
        hR.bind (h b) fun _ => hR.pure _
  | application c as =>
      cases as with
      | none => exact hR.bind (hR.callee h c) fun _ => hR.pure _
      | some as => exact hR.bind (hR.callee h c) fun _ => hR.bind (list as) fun _ => hR.pure _
  | sequence as => exact hR.bind (list as) fun _ => hR.pure _
  | relation r a b => exact hR.bind (h a) fun _ => hR.bind (h b) fun _ => hR.pure _
  | connective c as => exact hR.bind (list as) fun _ => hR.pure _
  | negation a => exact hR.bind (h a) fun _ => hR.pure _
  | opposite a => exact hR.bind (h a) fun _ => hR.pure _
  | quantity a u => exact hR.bind (option a) fun _ => hR.bind (hR.unitExpr h u) fun _ => hR.pure _
  | parenthesized a => exact hR.bind (h a) fun _ => hR.pure _
  | constant n i => exact hR.bind (h i) fun _ => hR.pure _
  | matrix r c as => exact hR.bind (list as) fun _ => hR.pure _
  | evaluation a b => exact hR.bind (h a) fun _ => hR.bind (option b) fun _ => hR.pure _
  | equation a op bs b =>
      exact hR.bind (h a) fun _ => hR.bind (list bs) fun _ => hR.bind (option b) fun _ => hR.pure _
  | subscript a => exact hR.bind (h a) fun _ => hR.pure _
  | identifier n i => exact hR.bind (h i) fun _ => hR.pure _

theorem layer (layer : Layer α) : R _ (layer.traverse f) (layer.traverse g) := by
  cases layer with
  | done t => exact hR.pure _
  | arithmetic op as => exact hR.bind (hR.traverseList h as) fun _ => hR.pure _
  | tagged form => exact hR.bind (hR.form h form) fun _ => hR.pure _

end Simulates

end WorksheetTex
