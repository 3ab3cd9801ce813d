import Mathlib.Data.List.Forall2
import WorksheetTex.Form.Operator
import WorksheetTex.Proofs.Blank
import WorksheetTex.Proofs.Glyph
import WorksheetTex.Vocabulary.Lexicon

namespace WorksheetTex

open Text Tex Form Vocabulary

namespace Vocabulary

theorem fillSlots_append (s s' t : Text) :
    fillSlots (s ++ s') t = fillSlots s t ++ fillSlots s' t :=
  List.flatMap_append

theorem fillSlots_of_not_mem {s : Text} (h : '#' ∉ s) (t : Text) : fillSlots s t = s := by
  induction s with
  | nil => rfl
  | cons c s ih =>
      have hc : c ≠ '#' := fun hc => h (by simp [hc])
      have hs : '#' ∉ s := fun hs => h (by simp [hs])
      have hstep : fillSlots (c :: s) t = (if c = '#' then t else [c]) ++ fillSlots s t := rfl
      rw [hstep, if_neg hc, ih hs, List.singleton_append]

end Vocabulary

def isLiteral (c : Char) : Bool :=
  isAscii c && c != '{' && c != '}' && !isParen c

structure Assembles (R : Text → Text → Prop) : Prop where
  append {s t v w : Text} : R s v → R t w → R (s ++ t) (v ++ w)
  literal {t : Text} : t.all isLiteral = true → R t t
  group {t v : Text} : R t v → R (group t) (group v)
  paren {t v : Text} : R t v → R ('(' :: (t ++ [')'])) ('(' :: (v ++ [')']))

theorem assembles_of_ascii {R : Text → Text → Prop}
    (append : ∀ {s t v w : Text}, R s v → R t w → R (s ++ t) (v ++ w))
    (ascii : ∀ {t : Text}, t.all isAscii = true → R t t) : Assembles R where
  append := append
  literal := by
    intro t ht
    refine ascii (List.all_eq_true.mpr fun c hc => ?_)
    have hliteral := List.all_eq_true.mp ht c hc
    simp only [isLiteral, Bool.and_eq_true] at hliteral
    exact hliteral.1.1.1
  group h := append (append (ascii (t := ['{']) rfl) h) (ascii (t := ['}']) rfl)
  paren h := append (ascii (t := ['(']) rfl) (append h (ascii (t := [')']) rfl))

namespace Assembles

variable {R : Text → Text → Prop} (hR : Assembles R) {s t v w : Text} {ts vs : List Text}

include hR

theorem joinWith {sep : Text} (hsep : sep.all isLiteral = true) (h : List.Forall₂ R ts vs) :
    R (joinWith sep ts) (joinWith sep vs) := by
  induction h with
  | nil => exact hR.literal rfl
  | @cons t v ts vs ht hts ih =>
      cases hts with
      | nil => simpa [Text.joinWith] using ht
      | cons hu hus =>
          rw [joinWith_cons (List.cons_ne_nil _ _), joinWith_cons (List.cons_ne_nil _ _)]
          exact hR.append (hR.append ht (hR.literal hsep)) ih

theorem sup (h : R t v) : R (sup t) (sup v) :=
  hR.append (hR.literal (t := ['^']) rfl) (hR.group h)

theorem frac (hs : R s v) (ht : R t w) : R (frac s t) (frac v w) :=
  hR.append (hR.append (hR.literal (t := "\\frac") rfl) (hR.group hs)) (hR.group ht)

theorem render {op : Operator} (h : List.Forall₂ R ts vs)
    (hbase : op = .power → (ts.head? = some ['e'] ↔ vs.head? = some ['e']))
    (ht : op.render ts = some t) : ∃ v, op.render vs = some v ∧ R t v := by
  cases h with
  | nil => cases op <;> cases ht
  | @cons a a' as as' ha has =>
      have hall : List.Forall₂ R (a :: as) (a' :: as') := .cons ha has
      cases op with
      | plus =>
          obtain rfl := Option.some.inj ht
          exact ⟨_, rfl, hR.joinWith rfl hall⟩
      | times =>
          obtain rfl := Option.some.inj ht
          exact ⟨_, rfl, hR.joinWith rfl hall⟩
      | minus =>
          cases has with
          | nil =>
              obtain rfl := Option.some.inj ht
              exact ⟨_, rfl, hR.append (hR.literal (t := ['-']) rfl) ha⟩
          | cons hb hbs =>
              obtain rfl := Option.some.inj ht
              exact ⟨_, rfl, hR.joinWith rfl hall⟩
      | divide =>
          cases has with
          | nil => cases ht
          | cons hb hbs =>
              obtain rfl := Option.some.inj ht
              exact ⟨_, rfl, hR.frac ha hb⟩
      | power =>
          cases has with
          | nil => cases ht
          | cons hb hbs =>
              obtain rfl := Option.some.inj ht
              refine ⟨_, rfl, hR.append ?_ (hR.sup hb)⟩
              have he : a = ['e'] ↔ a' = ['e'] := by simpa using hbase rfl
              by_cases h : a = ['e']
              · simpa only [h, he.mp h, if_true] using ha
              · simpa only [h, mt he.mpr h, if_false] using hR.group ha

theorem template (hs : ∀ c ∈ s, R [c] [c]) : R s s := by
  induction s with
  | nil => exact hR.literal rfl
  | cons c s ih => exact hR.append (hs c (by simp)) (ih fun x hx => hs x (by simp [hx]))

theorem fillSlots (hs : ∀ c ∈ s, R [c] [c]) (h : R t v) : R (fillSlots s t) (fillSlots s v) := by
  induction s with
  | nil => exact hR.literal rfl
  | cons c s ih =>
      refine hR.append ?_ (ih fun x hx => hs x (by simp [hx]))
      dsimp only
      split
      · exact h
      · exact hs c (by simp)

theorem applyTemplate (hs : ∀ c ∈ s, R [c] [c]) (h : R t v) :
    R (applyTemplate s t) (applyTemplate s v) := by
  rw [Vocabulary.applyTemplate, Vocabulary.applyTemplate]
  split
  · exact hR.fillSlots hs h
  · have hcall (t : Text) : s ++ "(" ++ t ++ ")" = s ++ '(' :: (t ++ [')']) := by
      rw [List.append_assoc, List.append_assoc]
      rfl
    rw [hcall, hcall]
    exact hR.append (hR.template hs) (hR.paren h)

end Assembles

structure Composes (P : Text → Prop) : Prop where
  assembles : Assembles fun s _ => P s
  slots {s t : Text} : P s → P t → P (fillSlots s t)

theorem composes_true : Composes fun _ => True where
  assembles := ⟨fun _ _ => trivial, fun _ => trivial, fun _ => trivial, fun _ => trivial⟩
  slots _ _ := trivial

namespace Composes

variable {P : Text → Prop} (hP : Composes P) {s t : Text} {ts : List Text}

include hP

theorem literal (h : t.all isLiteral = true) : P t :=
  hP.assembles.literal h

theorem append (hs : P s) (ht : P t) : P (s ++ t) :=
  hP.assembles.append (v := s) (w := t) hs ht

theorem group (h : P t) : P (group t) :=
  hP.assembles.group (v := t) h

theorem paren (h : P t) : P ('(' :: (t ++ [')'])) :=
  hP.assembles.paren (v := t) h

theorem sup (h : P t) : P (sup t) :=
  hP.assembles.sup (v := t) h

theorem sub (h : P t) : P (sub t) :=
  hP.append (hP.literal (t := ['_']) rfl) (hP.group h)

theorem frac (hs : P s) (ht : P t) : P (frac s t) :=
  hP.assembles.frac (v := s) (w := t) hs ht

theorem upright (h : P t) : P (upright t) :=
  hP.append (hP.literal rfl) (hP.group h)

theorem operatorName (h : P t) : P (operatorName t) :=
  hP.append (hP.literal rfl) (hP.group h)

theorem sized (h : P t) : P (sized t) := by
  have hclose : P (t ++ "\\right") := hP.append h (hP.literal rfl)
  have hsized := hP.append (s := "\\left") (hP.literal rfl) (hP.paren hclose)
  rw [List.append_assoc] at hsized
  exact hsized

theorem environment (hs : P s) (ht : P t) : P (environment s t) :=
  hP.append (hP.append (hP.append (hP.append (hP.literal rfl) (hP.group hs)) ht) (hP.literal rfl))
    (hP.group hs)

theorem joinWith {sep : Text} (hsep : sep.all isLiteral = true) (h : ∀ t ∈ ts, P t) :
    P (joinWith sep ts) :=
  hP.assembles.joinWith hsep (List.forall₂_same.mpr h)

theorem render {op : Operator} (h : ∀ t ∈ ts, P t) (ht : op.render ts = some t) : P t := by
  obtain ⟨_, _, hrender⟩ := hP.assembles.render (List.forall₂_same.mpr h) (fun _ => Iff.rfl) ht
  exact hrender

theorem render_getD {op : Operator} (h : ∀ t ∈ ts, P t) : P ((op.render ts).getD []) := by
  cases hr : op.render ts with
  | none => exact hP.literal rfl
  | some t => exact hP.render h hr

theorem applyTemplate (hs : P s) (ht : P t) : P (applyTemplate s t) := by
  rw [Vocabulary.applyTemplate]
  split
  · exact hP.slots hs ht
  · have hcall : s ++ "(" ++ t ++ ")" = s ++ '(' :: (t ++ [')']) := by
      rw [List.append_assoc, List.append_assoc]
      rfl
    rw [hcall]
    exact hP.append hs (hP.paren ht)

end Composes

end WorksheetTex
