import WorksheetTex.Proofs.Sweep

namespace WorksheetTex.Evaluation

open Text Vocabulary Form

abbrev TakesForms (rule : Rule Text) : Prop :=
  Rewrites (fun _ => True) (fun _ => True) rule

section Rules

variable (lex : Lexicon)

theorem takesForms_labelRule : TakesForms (labelRule lex) :=
  rewrites_labelRule (inherits_holes lex hereditary_true) fun _ h => h

theorem takesForms_applyRule : TakesForms (applyRule lex) :=
  rewrites_applyRule (inherits_holes lex hereditary_true) fun _ h => h

theorem takesForms_operatorRule : TakesForms operatorRule :=
  rewrites_operatorRule (inherits_holes (.ofDeclarations {}) hereditary_true) fun _ h => h

end Rules

theorem TakesForms.induct {rule : Rule Text} (hrule : TakesForms rule) {motive : Text → Prop}
    (nil : motive []) (keep : ∀ c t, rule [] (c :: t) = none → motive t → motive (c :: t))
    (hit : ∀ s t p, rule [] ('(' :: s ++ t) = some (('(' :: s).length, p) → motive t →
      motive ('(' :: s ++ t))
    (t : Text) : motive t := by
  induction hn : t.length using Nat.strongRecOn generalizing t with
  | ind n ih =>
      cases t with
      | nil => exact nil
      | cons c t =>
          cases hhit : rule [] (c :: t) with
          | none => exact keep c t hhit (ih t.length (by simp at hn; omega) t rfl)
          | some answer =>
              obtain ⟨s, r, p, hsr, rfl, -, -⟩ := hrule.exists_hit trivial hhit
              have hshort : r.length < n := by
                have := congrArg List.length hsr
                simp at this hn
                omega
              rw [hsr] at hhit ⊢
              exact hit s r p hhit (ih r.length hshort r rfl)

namespace State

def Descends (s s' : State) : Prop :=
  s' = s ∨ s'.text.count '(' < s.text.count '('

namespace Descends

variable {s s' s'' : State}

theorem count_le (h : s.Descends s') : s'.text.count '(' ≤ s.text.count '(' := by
  rcases h with rfl | h
  · exact Nat.le_refl _
  · exact Nat.le_of_lt h

theorem trans (h : s.Descends s') (h' : s'.Descends s'') : s.Descends s'' := by
  rcases h with rfl | h
  · exact h'
  · exact .inr (Nat.lt_of_le_of_lt h'.count_le h)

theorem eq_of_text (h : s.Descends s') (htext : s'.text = s.text) : s' = s :=
  h.resolve_right fun hlt => absurd hlt (by rw [htext]; exact Nat.lt_irrefl _)

theorem count_lt (h : s.Descends s') (htext : s'.text ≠ s.text) :
    s'.text.count '(' < s.text.count '(' :=
  h.resolve_left fun heq => htext (heq ▸ rfl)

end Descends

theorem descends_sweep {rule : Rule Text} (hrule : TakesForms rule) (pieces : List Text)
    (t : Text) :
    Descends ⟨t, pieces⟩ ⟨(sweep rule pieces t).1, (sweep rule pieces t).2⟩ := by
  induction t using hrule.induct generalizing pieces with
  | nil => exact .inl rfl
  | keep c t hnone ih =>
      rw [sweep_keep hrule.toAtForms hnone]
      rcases ih pieces with h | h
      · obtain ⟨htext, hpieces⟩ := State.mk.inj h
        exact .inl (by rw [htext, hpieces])
      · refine .inr ?_
        rw [List.count_cons, List.count_cons]
        exact Nat.add_lt_add_right h _
  | hit s t p hhit ih =>
      have hreference : (reference pieces.length).count '(' = 0 :=
        List.count_eq_zero.mpr (not_mem_reference isBreak_paren.1 _)
      have hrest : (sweep rule (pieces ++ [p]) t).1.count '(' ≤ t.count '(' :=
        (ih (pieces ++ [p])).count_le
      rw [sweep_hit hrule.toAtForms (by simp) hhit]
      refine .inr ?_
      rw [List.count_append, hreference, List.count_append, List.count_cons_self]
      omega

theorem descends_apply {rule : Rule Text} (hrule : TakesForms rule) (s : State) :
    s.Descends (s.apply rule) :=
  descends_sweep hrule s.pieces s.text

variable (lex : Lexicon)

theorem descends_round (s : State) : s.Descends (s.round lex) :=
  ((descends_apply (takesForms_labelRule lex) s).trans
    (descends_apply (takesForms_applyRule lex) _)).trans
    (descends_apply takesForms_operatorRule _)

inductive Settles : State → State → Prop
  | stop {s : State} : (s.round lex).text = s.text → Settles s s
  | next {s s' : State} : (s.round lex).text ≠ s.text → Settles (s.round lex) s' → Settles s s'

variable {lex}

theorem settles_settleWithin {n : Nat} {s : State} (hn : s.text.count '(' ≤ n) :
    Settles lex s (s.settleWithin lex n) := by
  have hround := descends_round lex s
  induction n generalizing s with
  | zero =>
      refine .stop (Decidable.not_not.mp fun hne => ?_)
      exact absurd (Nat.lt_of_lt_of_le (hround.count_lt hne) hn) (Nat.not_lt_zero _)
  | succ n ih =>
      rw [settleWithin]
      split
      · next htext => exact .stop htext
      · next htext =>
          have hlt := hround.count_lt htext
          exact .next htext (ih (by omega) (descends_round lex _))

theorem Settles.unique {s s' s'' : State} (h : Settles lex s s') (h' : Settles lex s s'') :
    s' = s'' := by
  induction h with
  | stop htext =>
      cases h' with
      | stop _ => rfl
      | next hne _ => exact absurd htext hne
  | next hne _ ih =>
      cases h' with
      | stop htext => exact absurd htext hne
      | next _ hnext => exact ih hnext

theorem settles_iff {s s' : State} : Settles lex s s' ↔ s' = s.settle lex := by
  have hsettle : Settles lex s (s.settle lex) := settles_settleWithin (Nat.le_refl _)
  exact ⟨fun h => h.unique hsettle, fun h => h ▸ hsettle⟩

theorem settle_of_round {s s' : State} (h : s.round lex = s') (h' : s'.round lex = s') :
    s.settle lex = s' := by
  refine (settles_iff.mp ?_).symm
  have hstop : Settles lex s' s' := .stop (congrArg State.text h')
  by_cases htext : (s.round lex).text = s.text
  · have hsame := (descends_round lex s).eq_of_text htext
    rw [h] at hsame
    exact hsame ▸ hstop
  · exact .next htext (h ▸ hstop)

end State

end WorksheetTex.Evaluation
