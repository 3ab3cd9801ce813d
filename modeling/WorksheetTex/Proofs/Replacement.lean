import WorksheetTex.Text.Segment

namespace WorksheetTex.Text

def Rule.HitsOnly {β : Type} (rule : Rule β) (P : Text → Text → Text → β → Prop) : Prop :=
  ∀ before t n b, rule before t = some (n, b) →
    ∃ s r, t = s ++ r ∧ n = s.length ∧ s ≠ [] ∧ P before s r b

inductive Rule.Quiet {β : Type} (rule : Rule β) : Text → Text → Prop
  | nil (before : Text) : rule.Quiet before []
  | cons {before t : Text} {c : Char} : rule before (c :: t) = none → rule.Quiet (c :: before) t →
      rule.Quiet before (c :: t)

theorem Rule.Quiet.of_append {β : Type} {rule : Rule β} {before s t : Text}
    (h : rule.Quiet before (s ++ t)) : rule.Quiet (s.reverse ++ before) t := by
  induction s generalizing before with
  | nil => exact h
  | cons c s ih =>
      rw [List.reverse_cons, List.append_assoc]
      cases h with
      | cons _ h => exact ih h

theorem segmentsFrom_length {β : Type} (rule : Rule β) (before s t : Text) :
    segmentsFrom rule before s.length (s ++ t) = segmentsFrom rule (s.reverse ++ before) 0 t := by
  induction s generalizing before with
  | nil => rfl
  | cons c s ih =>
      rw [List.reverse_cons, List.append_assoc]
      exact ih (c :: before)

theorem segmentsFrom_keep {β : Type} {rule : Rule β} {before t : Text} {c : Char}
    (h : rule before (c :: t) = none) :
    segmentsFrom rule before 0 (c :: t) = .keep c :: segmentsFrom rule (c :: before) 0 t := by
  rw [segmentsFrom, h]

theorem segmentsFrom_hit {β : Type} {rule : Rule β} {before s t : Text} {b : β} (hs : s ≠ [])
    (h : rule before (s ++ t) = some (s.length, b)) :
    segmentsFrom rule before 0 (s ++ t) =
      .hit b :: segmentsFrom rule (s.reverse ++ before) 0 t := by
  obtain ⟨c, s, rfl⟩ := List.exists_cons_of_ne_nil hs
  rw [List.cons_append, List.length_cons] at h
  rw [List.cons_append, segmentsFrom, h, List.reverse_cons, List.append_assoc]
  exact congrArg _ (segmentsFrom_length rule (c :: before) s t)

theorem Rule.HitsOnly.segments_induct {β : Type} {rule : Rule β}
    {P : Text → Text → Text → β → Prop} (h : rule.HitsOnly P)
    {motive : Text → Text → List (Segment β) → Prop} (nil : ∀ before, motive before [] [])
    (keep : ∀ before c t out, rule before (c :: t) = none → motive (c :: before) t out →
      motive before (c :: t) (.keep c :: out))
    (hit : ∀ before s t b out, s ≠ [] → P before s t b → motive (s.reverse ++ before) t out →
      motive before (s ++ t) (.hit b :: out)) (t : Text) : motive [] t (segments rule t) := by
  have hfrom (before t : Text) : motive before t (segmentsFrom rule before 0 t) := by
    induction hn : t.length using Nat.strongRecOn generalizing before t with
    | ind n ih =>
        cases t with
        | nil => exact nil before
        | cons c t =>
            cases hrule : rule before (c :: t) with
            | none =>
                rw [segmentsFrom_keep hrule]
                exact keep before c t _ hrule (ih t.length (by simp [← hn]) _ _ rfl)
            | some p =>
                obtain ⟨s, r, hst, hlength, hs, hP⟩ := h before (c :: t) p.1 p.2 hrule
                rw [hst] at hrule hn ⊢
                rw [segmentsFrom_hit hs (hrule.trans (congrArg some (Prod.ext hlength rfl)))]
                have hr : r.length < n := by
                  rw [← hn, List.length_append]
                  exact Nat.lt_add_of_pos_left (List.length_pos_iff.mpr hs)
                exact hit before s r p.2 _ hs hP (ih r.length hr _ _ rfl)
  exact hfrom [] t

variable {rule : Rule Text} {P : Text → Text → Text → Text → Prop}

def replaceFrom (rule : Rule Text) (before t : Text) : Text :=
  (segmentsFrom rule before 0 t).flatMap Segment.text

theorem replaceFrom_keep {before t : Text} {c : Char} (h : rule before (c :: t) = none) :
    replaceFrom rule before (c :: t) = c :: replaceFrom rule (c :: before) t :=
  congrArg (List.flatMap Segment.text) (segmentsFrom_keep h)

theorem replaceFrom_hit {before s t b : Text} (hs : s ≠ [])
    (h : rule before (s ++ t) = some (s.length, b)) :
    replaceFrom rule before (s ++ t) = b ++ replaceFrom rule (s.reverse ++ before) t :=
  congrArg (List.flatMap Segment.text) (segmentsFrom_hit hs h)

theorem Rule.Quiet.replaceFrom {before t : Text} (h : rule.Quiet before t) :
    replaceFrom rule before t = t := by
  induction h with
  | nil => rfl
  | cons hnone _ ih => rw [replaceFrom_keep hnone, ih]

theorem Rule.Quiet.replaceAll {t : Text} (h : rule.Quiet [] t) : replaceAll rule t = t :=
  h.replaceFrom

namespace Rule.HitsOnly

variable (h : rule.HitsOnly P)

include h

theorem self : rule.HitsOnly fun before s r b =>
    rule before (s ++ r) = some (s.length, b) ∧ P before s r b := by
  intro before t n b hrule
  obtain ⟨s, r, rfl, rfl, hs, hP⟩ := h before t n b hrule
  exact ⟨s, r, rfl, rfl, hs, hrule, hP⟩

theorem induct {motive : Text → Text → Text → Prop} (nil : ∀ before, motive before [] [])
    (keep : ∀ before c t out, rule before (c :: t) = none → motive (c :: before) t out →
      motive before (c :: t) (c :: out))
    (hit : ∀ before s t b out, s ≠ [] → P before s t b → motive (s.reverse ++ before) t out →
      motive before (s ++ t) (b ++ out)) (t : Text) : motive [] t (replaceAll rule t) :=
  h.segments_induct (motive := fun before t out => motive before t (out.flatMap Segment.text)) nil
    (fun before c t _ => keep before c t _) (fun before s t b _ => hit before s t b _) t

theorem replaceAll_of_all {p : Char → Bool} {t : Text} (ht : t.all p = true)
    (hP : ∀ before s r b, P before s r b → s.all p = false) : replaceAll rule t = t := by
  refine h.induct (motive := fun _ t out => t.all p = true → out = t) (fun _ _ => rfl) ?_ ?_ t ht
  · intro before c t out _ ih ht
    rw [List.all_cons, Bool.and_eq_true] at ht
    rw [ih ht.2]
  · intro before s t b out _ hhit _ ht
    rw [List.all_append, hP _ _ _ _ hhit] at ht
    cases ht

theorem countP_replaceAll {p : Char → Bool}
    (hP : ∀ before s r b, P before s r b → b.countP p = s.countP p) (t : Text) :
    (replaceAll rule t).countP p = t.countP p := by
  refine h.induct (motive := fun _ t out => out.countP p = t.countP p) (fun _ => rfl) ?_ ?_ t
  · intro before c t out _ ih
    rw [List.countP_cons, List.countP_cons, ih]
  · intro before s t b out _ hhit ih
    rw [List.countP_append, List.countP_append, hP _ _ _ _ hhit, ih]

theorem countP_replaceAll_lt {p : Char → Bool}
    (hP : ∀ before s r b, P before s r b → s.countP p < b.countP p) (t : Text) :
    t.countP p ≤ (replaceAll rule t).countP p ∧
      ((replaceAll rule t).countP p = t.countP p → replaceAll rule t = t) := by
  refine h.induct (motive := fun _ t out =>
    t.countP p ≤ out.countP p ∧ (out.countP p = t.countP p → out = t))
    (fun _ => ⟨Nat.le_refl _, fun _ => rfl⟩) ?_ ?_ t
  · intro before c t out _ ih
    rw [List.countP_cons, List.countP_cons]
    refine ⟨by omega, fun heq => ?_⟩
    rw [ih.2 (by omega)]
  · intro before s t b out _ hhit ih
    have := hP _ _ _ _ hhit
    rw [List.countP_append, List.countP_append]
    exact ⟨by omega, fun heq => by omega⟩

end Rule.HitsOnly

end WorksheetTex.Text
