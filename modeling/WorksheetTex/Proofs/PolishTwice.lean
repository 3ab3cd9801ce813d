import WorksheetTex.Conversion
import WorksheetTex.Proofs.FunctionName
import WorksheetTex.Proofs.Glyph
import WorksheetTex.Proofs.Growth
import WorksheetTex.Proofs.Hole

namespace WorksheetTex.Tex

open Text Polish

def withoutNote (t : Text) : Text :=
  if unchangedNote.isSuffixOf t then t.take (t.length - unchangedNote.length) else t

section Note

variable {s t : Text}

theorem withoutNote_append (t : Text) : withoutNote (t ++ unchangedNote) = t := by
  have hsuffix : unchangedNote.isSuffixOf (t ++ unchangedNote) = true :=
    List.isSuffixOf_iff_suffix.mpr (List.suffix_append _ _)
  rw [withoutNote, if_pos hsuffix, List.length_append, Nat.add_sub_cancel, List.take_left]

theorem withoutNote_of_not (h : unchangedNote.isSuffixOf t = false) : withoutNote t = t := by
  rw [withoutNote, h, if_neg Bool.false_ne_true]

theorem withoutNote_cases (t : Text) :
    t = withoutNote t ++ unchangedNote ∨ t = withoutNote t := by
  by_cases h : unchangedNote.isSuffixOf t = true
  · obtain ⟨u, rfl⟩ := List.isSuffixOf_iff_suffix.mp h
    exact .inl (by rw [withoutNote_append])
  · exact .inr (withoutNote_of_not (Bool.not_eq_true _ ▸ h)).symm

theorem countP_withoutNote (t : Text) : (withoutNote t).countP isMarkup = t.countP isMarkup := by
  have hnote : unchangedNote.countP isMarkup = 0 := by decide
  rcases withoutNote_cases t with h | h
  · have := congrArg (List.countP isMarkup) h
    rw [List.countP_append, hnote] at this
    omega
  · rw [← h]

theorem eq_of_withoutNote_eq (h : withoutNote s = withoutNote t)
    (hcount : s.count '%' = t.count '%') : s = t := by
  have hnote (u : Text) : (u ++ unchangedNote).count '%' = u.count '%' + 1 := by
    have hone : unchangedNote.count '%' = 1 := by decide
    rw [List.count_append, hone]
  rcases withoutNote_cases s with hs | hs <;> rcases withoutNote_cases t with ht | ht
  · rw [hs, ht, h]
  · rw [hs, ht, hnote, h] at hcount
    omega
  · rw [hs, ht, hnote, h] at hcount
    omega
  · rw [hs, ht, h]

end Note

theorem not_isBlank_of_isNumeral {c : Char} (h : isNumeral c = true) : isBlank c = false := by
  rw [isNumeral, Bool.or_eq_true, beq_iff_eq] at h
  rcases h with h | rfl
  · have hatomic := (Vocabulary.isAtomic_of_isDigit h).1
    rw [Evaluation.isAtomic, Bool.and_eq_true, Bool.not_eq_true', Bool.not_eq_true'] at hatomic
    exact hatomic.2
  · rfl

section Blank

variable {t : Text} (h : allBlank t = true)

include h

theorem spaceOperators_of_allBlank : spaceOperators t = t := by
  have hvisible : ∀ op ∈ binaryOperators, op.all isBlank = false := by decide
  have hstep {op : Text} (hop : op.all isBlank = false) : replaceAll (operatorRule op) t = t := by
    refine (hitsOnly_operatorRule op).replaceAll_of_all h fun _ _ _ _ hhit => ?_
    cases hhit with
    | intro => simp [hop]
  have hfold (ops : List Text) (hops : ∀ op ∈ ops, op.all isBlank = false) :
      ops.foldl (fun t op => replaceAll (operatorRule op) t) t = t := by
    induction ops with
    | nil => rfl
    | cons op ops ih =>
        rw [List.forall_mem_cons] at hops
        rw [List.foldl_cons, hstep hops.1, ih hops.2]
  exact hfold binaryOperators hvisible

theorem polishPasses_of_allBlank : ∀ pass ∈ polishPasses, pass t = t := by
  have hmem {s : Text} {c : Char} (hc : c ∈ s) (hblank : isBlank c = false) :
      s.all isBlank = false :=
    List.all_eq_false.mpr ⟨c, hc, by simp [hblank]⟩
  simp only [polishPasses, List.forall_mem_cons]
  refine ⟨?_, spaceOperators_of_allBlank h, ?_, ?_, ?_, ?_, ?_, by simp⟩
  · refine hitsOnly_fractionRule.replaceAll_of_all h fun _ _ _ _ hhit => ?_
    cases hhit with
    | intro => exact hmem (c := '/') (by simp) rfl
  · refine hitsOnly_exponentRule.replaceAll_of_all h fun _ _ _ _ hhit => ?_
    cases hhit with
    | intro => exact hmem (c := '^') (by simp) rfl
  · refine hitsOnly_sizedRule.replaceAll_of_all h fun _ _ _ _ hhit => ?_
    cases hhit with
    | intro => exact hmem (c := '(') (by simp) rfl
  · refine hitsOnly_functionRule.replaceAll_of_all h fun _ _ _ _ hhit => ?_
    cases hhit with
    | intro hname =>
        have hall : ∀ w ∈ namedFunctions, w.all isBlank = false := by decide
        exact hall _ hname
  · refine hitsOnly_displayRule.replaceAll_of_all h fun _ _ _ _ hhit => ?_
    cases hhit with
    | intro => exact hmem (c := '^') (by simp [sup]) rfl
  · refine hitsOnly_quantityRule.replaceAll_of_all h fun _ _ _ _ hhit => ?_
    cases hhit with
    | intro hvalue hnumeral =>
        obtain ⟨c, value, rfl⟩ := List.exists_cons_of_ne_nil hvalue
        rw [List.all_cons, Bool.and_eq_true] at hnumeral
        exact hmem (c := c) (by simp) (not_isBlank_of_isNumeral hnumeral.1)

end Blank

theorem polish_cases (annotate : Bool) (t : Text) :
    (allBlank t = true ∧ polish annotate t = t) ∨
      polish annotate t = (runPasses polishPasses t).1 ∨
      ((∀ pass ∈ polishPasses, pass t = t) ∧ unchangedNote.isSuffixOf t = false ∧
        polish annotate t = t ++ unchangedNote) := by
  rw [polish]
  split
  · next hblank => exact .inl ⟨hblank, rfl⟩
  · dsimp only
    split
    · next hnote =>
        simp only [Bool.and_eq_true, Bool.not_eq_true'] at hnote
        obtain ⟨⟨hchanged, -⟩, hsuffix⟩ := hnote
        have hsame := runPasses_unchanged_iff.mp hchanged
        rw [runPasses_of_unchanged hsame] at hsuffix ⊢
        exact .inr (.inr ⟨hsame, hsuffix, rfl⟩)
    · exact .inr (.inl rfl)

theorem withoutNote_polish_iff (annotate : Bool) (t : Text) :
    withoutNote (polish annotate t) = withoutNote t ↔ ∀ pass ∈ polishPasses, pass t = t := by
  rcases polish_cases annotate t with ⟨hblank, h⟩ | h | ⟨hsame, hsuffix, h⟩
  · rw [h]
    exact iff_of_true rfl (polishPasses_of_allBlank hblank)
  · rw [h]
    refine ⟨fun heq => ?_, fun hsame => by rw [runPasses_of_unchanged hsame]⟩
    have hmarkup : (runPasses polishPasses t).1.countP isMarkup = t.countP isMarkup := by
      rw [← countP_withoutNote, heq, countP_withoutNote]
    obtain ⟨hspaced, hpasses⟩ := runPasses_polishPasses_of_countP_eq hmarkup
    rw [hspaced] at heq
    have hcount := countP_spaceOperators (p := (· == '%')) rfl t
    exact hpasses (eq_of_withoutNote_eq heq hcount)
  · rw [h, withoutNote_append, withoutNote_of_not hsuffix]
    exact iff_of_true rfl hsame

theorem nameless_unchangedNote : ∀ w ∈ namedFunctions, ¬ w <:+: unchangedNote := by
  have hnot : ∀ w ∈ namedFunctions, occursIn w unchangedNote = false := by decide
  intro w hw hinfix
  rw [← occursIn_iff, hnot w hw] at hinfix
  cases hinfix

theorem nameFunctions_polish (annotate : Bool) (t : Text) :
    nameFunctions (polish annotate t) = polish annotate t := by
  have hresult : (runPasses polishPasses t).1 = setQuantities (displayLimits (nameFunctions
      (sizeParens (exponents (spaceOperators (fractions t)))))) := by
    simp only [polishPasses, runPasses_cons, runPasses_nil]
  have hquiet : functionRule.Quiet [] (runPasses polishPasses t).1 := by
    rw [hresult]
    exact quiet_setQuantities (quiet_displayLimits (quiet_nameFunctions _))
  rcases polish_cases annotate t with ⟨hblank, h⟩ | h | ⟨hsame, -, h⟩
  · rw [h]
    exact polishPasses_of_allBlank hblank _ (by simp [polishPasses])
  · rw [h]
    exact hquiet.replaceAll
  · rw [runPasses_of_unchanged hsame] at hquiet
    rw [h]
    exact (quiet_append hquiet (by decide) nameless_unchangedNote).replaceAll

end WorksheetTex.Tex

namespace WorksheetTex

open Text Tex Polish

theorem exists_of_typesetPolished {v : OptionsValue} {s c : Text}
    (h : typesetPolished v s = .ok c) : ∃ annotate latex, c = Tex.polish annotate latex := by
  obtain ⟨o, -, h⟩ := exists_of_bind_ok h
  obtain ⟨r, -, h⟩ := exists_of_bind_ok h
  exact ⟨_, _, (Except.ok.inj h).symm⟩

theorem polish_absent (t : Text) : polish .absent t = .ok (Tex.polish true t) := rfl

theorem polish_twice_iff (v : OptionsValue) {s c : Text} (h : typesetPolished v s = .ok c) :
    ∃ c', polish .absent c = .ok c' ∧
      (withoutNote c' = withoutNote c ↔
        fractions c = c ∧ spaceOperators c = c ∧ exponents c = c ∧ sizeParens c = c ∧
          displayLimits c = c ∧ setQuantities c = c) := by
  obtain ⟨annotate, latex, hc⟩ := exists_of_typesetPolished h
  have hnamed : nameFunctions c = c := by rw [hc, nameFunctions_polish]
  refine ⟨Tex.polish true c, polish_absent c, (withoutNote_polish_iff true c).trans ?_⟩
  simp only [polishPasses, List.forall_mem_cons, hnamed, true_and, List.not_mem_nil, false_implies,
    implies_true, and_true]

theorem polish_twice_quantity :
    ∃ c c', typesetPolished .absent "(sin/2-5 kg)".toList = .ok c ∧ polish .absent c = .ok c' ∧
      withoutNote c' = withoutNote c := by
  have htypeset : typesetPolished .absent "(sin/2-5 kg)".toList =
      .ok "\\left(\\frac\x7b\\sin\x7d\x7b2\x7d - 5\\,\\mathrm\x7bkg\x7d\\right)".toList := by
    decide +kernel
  obtain ⟨c', hpolish, hiff⟩ := polish_twice_iff .absent htypeset
  exact ⟨_, c', htypeset, hpolish, hiff.mpr (by decide +kernel)⟩

theorem polish_twice_differs :
    typesetPolished .absent "(a/b)/c".toList = .ok "\\frac\x7ba/b\x7d\x7bc\x7d".toList ∧
      polish .absent "\\frac\x7ba/b\x7d\x7bc\x7d".toList =
        .ok "\\frac\x7b\\frac\x7ba\x7d\x7bb\x7d\x7d\x7bc\x7d".toList ∧
      withoutNote "\\frac\x7b\\frac\x7ba\x7d\x7bb\x7d\x7d\x7bc\x7d".toList ≠
        withoutNote "\\frac\x7ba/b\x7d\x7bc\x7d".toList := by
  decide +kernel

example : ∀ s ∈ (["x^_+a", "x^2sin", "(\\frac\x7b(\x7d\x7bb\x7d\\frac\x7ba)\x7d\x7bc\x7d)",
      "\\sum_\x7b\\sum_\x7ba\x7d^\x7bb\x7d\x7d", "5kg5kg"] : List Text),
    (typesetPolished .absent s >>= polish .absent).map withoutNote ≠
      (typesetPolished .absent s).map withoutNote := by
  decide +kernel

end WorksheetTex
