import WorksheetTex.Proofs.PolishRule

namespace WorksheetTex.Tex

open Text Polish

def isMarkup (c : Char) : Bool :=
  c == '\\' || c == '{'

def Grows (pass : Text → Text) : Prop :=
  ∀ t, t.countP isMarkup ≤ (pass t).countP isMarkup ∧
    ((pass t).countP isMarkup = t.countP isMarkup → pass t = t)

section Markup

variable {p : Char → Bool} {x w s t : Text}

theorem countP_spaces (hp : p ' ' = false) (h : x.all isSpace = true) : x.countP p = 0 := by
  refine List.countP_eq_zero.mpr fun c hc => ?_
  have hspace : c = ' ' := by simpa [isSpace] using List.all_eq_true.mp h c hc
  simp [hspace, hp]

theorem countP_lt_append (hw : 0 < w.countP p) (t : Text) : t.countP p < (w ++ t).countP p := by
  rw [List.countP_append]
  omega

theorem countP_group (t : Text) : (group t).countP isMarkup = t.countP isMarkup + 1 := by
  simp [group, isMarkup]

theorem countP_operand (h : IsOperand w s) : s.countP isMarkup = w.countP isMarkup := by
  cases h with
  | word _ _ => rfl
  | enclosed _ _ => simp [isMarkup]

end Markup

theorem grows_fractions : Grows fractions := by
  refine hitsOnly_fractionRule.countP_replaceAll_lt fun before s r b hhit => ?_
  cases hhit with
  | @intro p q u v x y _ hp hq hx hy =>
      calc (p ++ (x ++ '/' :: (y ++ q))).countP isMarkup
          = u.countP isMarkup + v.countP isMarkup := by
            have hslash : isMarkup '/' ≠ true := by decide
            rw [List.countP_append, List.countP_append, List.countP_cons_of_neg hslash,
              List.countP_append, countP_operand hp, countP_operand hq, countP_spaces rfl hx,
              countP_spaces rfl hy, Nat.zero_add, Nat.zero_add]
        _ ≤ (group u ++ group v).countP isMarkup := by
            rw [List.countP_append, countP_group, countP_group]
            omega
        _ < (frac u v).countP isMarkup := by
            have hfrac : frac u v = "\\frac" ++ (group u ++ group v) := List.append_assoc _ _ _
            rw [hfrac]
            exact countP_lt_append (by decide) _

theorem grows_exponents : Grows exponents := by
  refine hitsOnly_exponentRule.countP_replaceAll_lt fun before s r b hhit => ?_
  cases hhit with
  | @intro base e _ _ _ _ =>
      rw [sup, List.countP_append, List.countP_append, List.countP_cons, List.countP_cons,
        countP_group]
      omega

theorem grows_sizeParens : Grows sizeParens := by
  refine hitsOnly_sizedRule.countP_replaceAll_lt fun before s r b hhit => ?_
  cases hhit with
  | @intro i _ _ =>
      calc ('(' :: (i ++ [')'])).countP isMarkup = i.countP isMarkup := by simp [isMarkup]
        _ ≤ (i ++ "\\right)").countP isMarkup := (List.sublist_append_left _ _).countP_le
        _ < (sized i).countP isMarkup := by
            have hsized : sized i = "\\left(" ++ (i ++ "\\right)") := List.append_assoc _ _ _
            rw [hsized]
            exact countP_lt_append (by decide) _

theorem grows_nameFunctions : Grows nameFunctions := by
  refine hitsOnly_functionRule.countP_replaceAll_lt fun before s r b hhit => ?_
  cases hhit with
  | intro _ _ _ _ => simp [isMarkup]

theorem grows_displayLimits : Grows displayLimits := by
  refine hitsOnly_displayRule.countP_replaceAll_lt fun before s r b hhit => ?_
  cases hhit with
  | intro _ _ _ _ => exact countP_lt_append (by decide) _

theorem grows_setQuantities : Grows setQuantities := by
  refine hitsOnly_quantityRule.countP_replaceAll_lt fun before s r b hhit => ?_
  cases hhit with
  | @intro value x unit _ _ _ hx _ _ _ =>
      have hunit : unit.countP isMarkup < ("\\," ++ upright unit).countP isMarkup :=
        calc unit.countP isMarkup
            ≤ (group unit).countP isMarkup := by
              rw [countP_group]
              omega
          _ ≤ (upright unit).countP isMarkup := (List.sublist_append_right _ _).countP_le
          _ < ("\\," ++ upright unit).countP isMarkup := countP_lt_append (by decide) _
      rw [List.append_assoc, List.countP_append, List.countP_append, List.countP_append,
        countP_spaces rfl hx, Nat.zero_add]
      exact Nat.add_lt_add_left hunit _

theorem countP_spaceOperators {p : Char → Bool} (hp : p ' ' = false) (t : Text) :
    (spaceOperators t).countP p = t.countP p := by
  have hstep (op t : Text) : (replaceAll (operatorRule op) t).countP p = t.countP p := by
    refine (hitsOnly_operatorRule op).countP_replaceAll ?_ t
    rintro before _ r _ ⟨-, hx, hy, -, -⟩
    simp [List.countP_cons, countP_spaces hp hx, countP_spaces hp hy, hp]
  have hfold (ops : List Text) (t : Text) :
      (ops.foldl (fun t op => replaceAll (operatorRule op) t) t).countP p = t.countP p := by
    induction ops generalizing t with
    | nil => rfl
    | cons op ops ih => rw [List.foldl_cons, ih, hstep]
  exact hfold _ t

section Passes

variable {passes : List (Text → Text)} {t : Text}

theorem runPasses_nil (t : Text) : (runPasses [] t).1 = t := rfl

theorem runPasses_cons (pass : Text → Text) (passes : List (Text → Text)) (t : Text) :
    (runPasses (pass :: passes) t).1 = (runPasses passes (pass t)).1 := rfl

theorem runPasses_unchanged_iff :
    (runPasses passes t).2 = false ↔ ∀ pass ∈ passes, pass t = t := by
  induction passes generalizing t with
  | nil => simp [runPasses]
  | cons pass passes ih =>
      rw [runPasses, List.forall_mem_cons, Bool.or_eq_false_iff, bne_eq_false_iff_eq]
      refine and_congr_right fun hpass => ?_
      rw [hpass]
      exact ih

theorem runPasses_of_unchanged (h : ∀ pass ∈ passes, pass t = t) : (runPasses passes t).1 = t := by
  induction passes with
  | nil => rfl
  | cons pass passes ih =>
      rw [List.forall_mem_cons] at h
      rw [runPasses_cons, h.1]
      exact ih h.2

theorem grows_runPasses (hgrows : ∀ pass ∈ passes, Grows pass) (t : Text) :
    t.countP isMarkup ≤ (runPasses passes t).1.countP isMarkup ∧
      ((runPasses passes t).1.countP isMarkup = t.countP isMarkup →
        ∀ pass ∈ passes, pass t = t) := by
  induction passes generalizing t with
  | nil => exact ⟨Nat.le_refl _, by simp⟩
  | cons pass passes ih =>
      rw [List.forall_mem_cons] at hgrows
      obtain ⟨hle, heq⟩ := hgrows.1 t
      obtain ⟨hle', heq'⟩ := ih hgrows.2 (pass t)
      rw [List.forall_mem_cons, runPasses_cons]
      refine ⟨Nat.le_trans hle hle', fun hcount => ?_⟩
      have hpass : pass t = t := heq (by omega)
      refine ⟨hpass, ?_⟩
      rw [hpass] at hcount heq'
      exact heq' hcount

theorem runPasses_polishPasses_of_countP_eq
    (h : (runPasses polishPasses t).1.countP isMarkup = t.countP isMarkup) :
    (runPasses polishPasses t).1 = spaceOperators t ∧
      (spaceOperators t = t → ∀ pass ∈ polishPasses, pass t = t) := by
  let later := [exponents, sizeParens, nameFunctions, displayLimits, setQuantities]
  have hlater : ∀ pass ∈ later, Grows pass := by
    simp [later, grows_exponents, grows_sizeParens, grows_nameFunctions, grows_displayLimits,
      grows_setQuantities]
  obtain ⟨hle, heq⟩ := grows_fractions t
  obtain ⟨hle', heq'⟩ := grows_runPasses hlater (spaceOperators (fractions t))
  have hspace := countP_spaceOperators (p := isMarkup) rfl (fractions t)
  have hresult : (runPasses polishPasses t).1 =
      (runPasses later (spaceOperators (fractions t))).1 := by
    rw [polishPasses, runPasses_cons, runPasses_cons]
  rw [hresult] at h ⊢
  have hfractions : fractions t = t := heq (by omega)
  rw [hfractions] at h hspace heq' ⊢
  have hsame := heq' (by omega)
  refine ⟨runPasses_of_unchanged hsame, fun hoperators => ?_⟩
  rw [hoperators] at hsame
  rw [polishPasses, List.forall_mem_cons, List.forall_mem_cons]
  exact ⟨hfractions, hoperators, hsame⟩

end Passes

end WorksheetTex.Tex
