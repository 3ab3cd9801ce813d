import WorksheetTex.Proofs.GlyphCollapse
import WorksheetTex.Proofs.Shrinking

namespace WorksheetTex

open Text Tex Paren Vocabulary Form Evaluation

theorem Vocabulary.replaceGlyphs_eq_self_iff {t : Text} :
    replaceGlyphs t = t ↔ ∀ g, IsGlyph g → g ∉ t := by
  constructor
  · intro h g hg hmem
    rw [← h] at hmem
    exact hg.not_mem_replaceGlyphs t hmem
  · intro h
    refine replaceGlyphs_of_stable fun c hc => ?_
    rcases glyph_cases c with hstable | hglyph
    · exact hstable
    · exact absurd hc (h c (List.mem_map_of_mem hglyph))

namespace Layer

variable {lex : Lexicon} {e t : Text} {op : Operator}

def replaced : Layer Text → Layer Text
  | .done t => .done (replaceGlyphs t)
  | .arithmetic op as => .arithmetic op (as.map replaceGlyphs)
  | .tagged form => .tagged form

def IsCollapsed (e : Text) : Prop :=
  isEvaluation e = true ∧ ¬ (isWhole e = true ∧ 2 ≤ (spacedOperands e).length)

structure SteadyAt (lex : Lexicon) (e : Text) : Prop where
  operator : operator? (replaceGlyphs e) = operator? e
  omicron : IsCollapsed e → 'ο' ∉ e
  whole : IsCollapsed e →
    collapse lex (replaceGlyphs e) = .ok (replaceGlyphs e) → collapse lex e = .ok e

inductive Steady (lex : Lexicon) : Text → Prop
  | intro {t : Text} : SteadyAt lex (trim t) →
      (∀ op as, read lex t = .ok (.arithmetic op as) → ∀ a ∈ as, Steady lex a) → Steady lex t

theorem readEvaluation_replaceGlyphs (hlex : lex.GlyphFree) (hop : operator? e = some op)
    (heval : isEvaluation e = true) (h : SteadyAt lex e) :
    readEvaluation lex (replaceGlyphs e) = (readEvaluation lex e).map replaced := by
  rw [readEvaluation_of_operator? lex (operator?_replaceGlyphs hop),
    readEvaluation_of_operator? lex hop, isWhole_replaceGlyphs]
  by_cases hspaced : isWhole e = true ∧ 2 ≤ (spacedOperands e).length
  · rw [spacedOperands_replaceGlyphs hop hspaced.1, List.length_map, if_pos hspaced,
      if_pos hspaced]
    rfl
  · have hspaced' : ¬ (isWhole e = true ∧ 2 ≤ (spacedOperands (replaceGlyphs e)).length) := by
      rintro ⟨hw, hlen⟩
      rw [spacedOperands_replaceGlyphs hop hw, List.length_map] at hlen
      exact hspaced ⟨hw, hlen⟩
    have hcollapse := collapse_replaceGlyphs hlex (h.omicron ⟨heval, hspaced⟩)
    rw [if_neg hspaced, if_neg hspaced', hcollapse, operands_replaceGlyphs hop]
    cases hu : collapse lex e with
    | error fault => rfl
    | ok u =>
        by_cases hsame : replaceGlyphs u = replaceGlyphs e
        · have hkept : collapse lex e = .ok e :=
            h.whole ⟨heval, hspaced⟩ (by rw [hcollapse, hu, Except.map, hsame])
          obtain rfl := Except.ok.inj (hu.symm.trans hkept)
          simp [Except.map, replaced]
        · have hne : u ≠ e := fun hue => hsame (hue ▸ rfl)
          simp [Except.map, replaced, hsame, hne]

theorem read_replaceGlyphs (hlex : lex.GlyphFree) (h : SteadyAt lex (trim t)) :
    read lex (replaceGlyphs t) = (read lex t).map replaced := by
  have hempty : (replaceGlyphs (trim t)).isEmpty = (trim t).isEmpty := by
    rw [Bool.eq_iff_iff, List.isEmpty_iff, List.isEmpty_iff, replaceGlyphs_eq_nil_iff]
  simp only [read, trim_replaceGlyphs, hempty, isEvaluation_replaceGlyphs, h.operator,
    replaceGlyphs_idem]
  split
  · rfl
  · split
    · next heval =>
        obtain ⟨op, hop⟩ := operator?_of_isEvaluation heval
        exact readEvaluation_replaceGlyphs hlex hop heval h
    · split
      · next op hop =>
          rw [operands_replaceGlyphs hop]
          rfl
      · cases Form.read lex (replaceGlyphs (trim t)) <;> rfl

structure Clear (t : Text) : Prop where
  omicron : 'ο' ∉ t
  slot : '#' ∉ t
  mark : openMark ∉ t
  raised : ∀ p ∈ glyphs, p.2.head? = some '^' → ¬ ['(', p.1] <:+: t

theorem hereditary_clear : Hereditary Clear where
  cut hseam h := by
    obtain ⟨ho, ho'⟩ := (hereditary_not_mem 'ο').cut hseam h.omicron
    obtain ⟨hs, hs'⟩ := (hereditary_not_mem '#').cut hseam h.slot
    obtain ⟨hm, hm'⟩ := (hereditary_not_mem openMark).cut hseam h.mark
    have hr := fun p hp hup => (hereditary_without _).cut hseam (h.raised p hp hup)
    exact ⟨⟨ho, hs, hm, fun p hp hup => (hr p hp hup).1⟩, ho', hs', hm',
      fun p hp hup => (hr p hp hup).2⟩
  head hhead h :=
    ⟨(hereditary_not_mem 'ο').head hhead h.omicron, (hereditary_not_mem '#').head hhead h.slot,
      (hereditary_not_mem openMark).head hhead h.mark,
      fun p hp hup => (hereditary_without _).head hhead (h.raised p hp hup)⟩

theorem Clear.replaceGlyphs (h : Clear t) : Clear (replaceGlyphs t) where
  omicron := IsGlyph.not_mem_replaceGlyphs (g := 'ο') (by decide) t
  slot := mem_replaceGlyphs_slot.not.mpr h.slot
  mark := Sealed.not_mem_replaceGlyphs (.inl rfl) h.mark
  raised p hp _ hpair :=
    IsGlyph.not_mem_replaceGlyphs (List.mem_map_of_mem hp) t (hpair.subset (by simp))

theorem Clear.operator? (h : Clear e) :
    operator? (Vocabulary.replaceGlyphs e) = Form.operator? e := by
  cases hop : Form.operator? e with
  | some op => exact operator?_replaceGlyphs hop
  | none =>
      refine Option.eq_none_iff_forall_ne_some.mpr fun op hop' => ?_
      obtain ⟨-, c, r, g, rfl, hg⟩ := exists_raised hop hop'
      rcases glyph_cases c with hstable | hglyph
      · rw [hstable] at hg
        cases hg
      · exact h.raised _ hglyph (by rw [hg]; rfl) (List.prefix_append ['(', c] r).isInfix

theorem Clear.steadyAt (h : Clear e) : SteadyAt (.ofDeclarations {}) e where
  operator := h.operator?
  omicron _ := h.omicron
  whole := by
    intro hcollapsed hsame
    rw [collapse_replaceGlyphs glyphFree_default h.omicron] at hsame
    cases hu : collapse (.ofDeclarations {}) e with
    | error fault =>
        rw [hu] at hsame
        cases hsame
    | ok u =>
        have htag := (Bool.and_eq_true_iff.mp hcollapsed.1).2
        rw [Bool.or_eq_true] at htag
        have hlt := count_collapse_lt isSlim_default h.mark h.slot htag hu
        rw [hu] at hsame
        have hcount : u.count '(' = e.count '(' := by
          rw [← count_replaceGlyphs u, Except.ok.inj hsame, count_replaceGlyphs]
        omega

theorem Clear.steady (h : Clear t) : Steady (.ofDeclarations {}) t := by
  induction hn : t.count '(' using Nat.strongRecOn generalizing t with
  | ind n ih =>
      have hI : Hereditary fun u => Clear u ∧ u.count '(' < n :=
        hereditary_clear.and (hereditary_count n)
      have he : Clear (trim t) := hereditary_clear.trim h
      have hcount : (trim t).count '(' < n + 1 :=
        (hereditary_count (n + 1)).trim (Nat.lt_succ_of_le (Nat.le_of_eq hn))
      have hopen {u : Text} (hu : Clear u) (hlt : u.count '(' < n + 1) (c : Char) (r : Text)
          (hur : u = '(' :: c :: r) (hc : isHead c = true) : Clear r ∧ r.count '(' < n := by
        rw [hur] at hu hlt
        exact ⟨hereditary_clear.head hc hu, count_of_open hlt⟩
      refine .intro he.steadyAt fun op as hread a ha => ?_
      have hparts : Ends (Layer.All (fun u => Clear u ∧ u.count '(' < n) fun _ => True)
          (fun _ => True) (read (.ofDeclarations {}) t) :=
        ends_read (inherits_holes _ hI) trivial trivial (hopen he hcount)
          (hopen he.replaceGlyphs (by rwa [count_replaceGlyphs])) trivial (fun _ _ => trivial)
          fun _ _ => trivial
      rw [hread] at hparts
      obtain ⟨hclear, hlt⟩ := hparts a ha
      exact ih _ hlt hclear rfl

theorem read_raised (lex : Lexicon)
    (hraised : operator? (replaceGlyphs (trim t)) ≠ operator? (trim t)) :
    ∃ u as, read lex t = .ok (.tagged (.plain ('(' :: u))) ∧
      read lex (replaceGlyphs t) = .ok (.arithmetic .power as) := by
  have hnone : operator? (trim t) = none := by
    cases hop : operator? (trim t) with
    | none => rfl
    | some op => exact absurd ((operator?_replaceGlyphs hop).trans hop.symm) hraised
  have hplain : isEvaluation (trim t) = false := by
    refine Bool.eq_false_iff.mpr fun heval => ?_
    obtain ⟨op, hop⟩ := operator?_of_isEvaluation heval
    cases hnone.symm.trans hop
  obtain ⟨op, hop⟩ := Option.ne_none_iff_exists'.mp (hnone ▸ hraised)
  obtain ⟨rfl, c, body, g, he, hg⟩ := exists_raised hnone hop
  have hraise : replaceGlyphs (trim t) = '(' :: '^' :: '{' :: (g ++ replaceGlyphs body) := by
    rw [he, replaceGlyphs_cons_ascii rfl, replaceGlyphs_cons, hg]
    rfl
  refine ⟨'^' :: '{' :: (g ++ replaceGlyphs body), operands (replaceGlyphs (trim t)), ?_, ?_⟩
  · have hempty : (trim t).isEmpty = false := by rw [he]; rfl
    simp only [read, hempty, hplain, hnone, hraise]
    rfl
  · have hempty : (replaceGlyphs (trim t)).isEmpty = false := by rw [hraise]; rfl
    simp only [read, trim_replaceGlyphs, hempty, isEvaluation_replaceGlyphs, hplain, hop]
    rfl

end Layer

theorem Form.traverseList_replaceGlyphs {f : Text → Except Fault Text} {as : List Text}
    (h : ∀ a ∈ as, f (replaceGlyphs a) = (f a).map replaceGlyphs) :
    traverseList f (as.map replaceGlyphs) = (traverseList f as).map (List.map replaceGlyphs) := by
  induction as with
  | nil => rfl
  | cons a as ih =>
      rw [List.map_cons, traverseList, traverseList, h a List.mem_cons_self,
        ih fun b hb => h b (List.mem_cons_of_mem a hb)]
      cases f a with
      | error fault => rfl
      | ok b => cases traverseList f as <;> rfl

theorem Form.Operator.layout_replaceGlyphs (lex : Lexicon) (op : Operator) (ts : List Text) :
    (Layer.arithmetic op (ts.map replaceGlyphs)).layout lex =
      replaceGlyphs ((Layer.arithmetic op ts).layout lex) := by
  rw [Layer.layout, Layer.layout, op.render_replaceGlyphs]
  cases op.render ts <;> rfl

theorem Tex.head?_spaceCommands (t : Text) : (spaceCommands t).head? = t.head? := by
  cases t with
  | nil => rfl
  | cons c t => simp [spaceCommands, Spacer.run, greekSpacer, nameSpacer]

theorem Form.Operator.head?_power (ts : List Text) :
    ((Operator.power.render ts).getD []).head? ≠ some '(' := by
  rcases ts with _ | ⟨a, _ | ⟨b, ts⟩⟩
  · simp [render]
  · simp [render]
  · change ((if a = ['e'] then a else group a) ++ sup b).head? ≠ some '('
    split
    · next ha => simp [ha]
    · simp [group]

namespace Setting

variable (s : Setting) {t r : Text}

theorem replaceGlyphs_layout_tagged (hlacks : ∀ g, IsGlyph g → s.lexicon.Lacks g) {n : Nat}
    {form : Form Text} (h : Layer.read s.lexicon t = .ok (.tagged form)) {filled : Layer Text}
    (hfilled : (Layer.tagged form).traverse (s.typesetWithin n) = .ok filled) :
    replaceGlyphs (filled.layout s.lexicon) = filled.layout s.lexicon := by
  rcases Layer.read_cases h with hf | ⟨_, _, hf⟩ | ⟨_, _, _, hf⟩ | ⟨_, hform, hf⟩
  · cases hf
  · cases hf
  · cases hf
  · obtain rfl := Layer.tagged.inj hf
    refine replaceGlyphs_eq_self_iff.mpr fun g hg => ?_
    have habsent := s.ends_tagged_absent hg (hlacks g hg) n hform
    rw [hfilled] at habsent
    exact habsent

theorem typesetWithin_replaceGlyphs (hlex : s.lexicon.GlyphFree)
    (hlacks : ∀ g, IsGlyph g → s.lexicon.Lacks g) (n : Nat) (h : Layer.Steady s.lexicon t) :
    s.typesetWithin n (replaceGlyphs t) = (s.typesetWithin n t).map replaceGlyphs := by
  induction n generalizing t with
  | zero => rfl
  | succ n ih =>
      obtain ⟨hat, hoperands⟩ := h
      rw [typesetWithin, typesetWithin, Layer.read_replaceGlyphs hlex hat]
      cases hread : Layer.read s.lexicon t with
      | error fault => rfl
      | ok layer =>
          cases layer with
          | done u => rfl
          | arithmetic op as =>
              have htraverse : traverseList (s.typesetWithin n) (as.map replaceGlyphs) =
                  (traverseList (s.typesetWithin n) as).map (List.map replaceGlyphs) :=
                traverseList_replaceGlyphs fun a ha => ih (hoperands op as hread a ha)
              simp only [Except.map, Layer.replaced, Layer.traverse, htraverse, bind, Except.bind,
                pure, Except.pure]
              cases traverseList (s.typesetWithin n) as with
              | error fault => rfl
              | ok ts => exact congrArg Except.ok (op.layout_replaceGlyphs s.lexicon ts)
          | tagged form =>
              simp only [Except.map, Layer.replaced, bind, Except.bind]
              cases hfilled : (Layer.tagged form).traverse (s.typesetWithin n) with
              | error fault => rfl
              | ok filled =>
                  exact congrArg Except.ok (s.replaceGlyphs_layout_tagged hlacks hread hfilled).symm

theorem typeset_ne_of_raised (hraised : operator? (replaceGlyphs (trim t)) ≠ operator? (trim t))
    (h : s.typeset t = .ok r) : s.typeset (replaceGlyphs t) ≠ .ok r := by
  obtain ⟨u, as, hread, hread'⟩ := Layer.read_raised s.lexicon hraised
  intro h'
  rw [typeset] at h h'
  cases hn : s.limit.levels with
  | zero =>
      rw [hn] at h
      cases h
  | succ n =>
      rw [hn, typesetWithin, hread] at h
      rw [hn, typesetWithin, hread'] at h'
      have hplain : r.head? = some '(' := by
        obtain rfl := Except.ok.inj h
        exact head?_spaceCommands _
      obtain ⟨_, ⟨⟩, h'⟩ := exists_of_bind_ok h'
      obtain ⟨filled, hfilled, h'⟩ := exists_of_bind_ok h'
      obtain ⟨ts, -, hfilled⟩ := exists_of_bind_ok hfilled
      obtain rfl := Except.ok.inj hfilled
      obtain rfl := Except.ok.inj h'
      exact Operator.head?_power ts hplain

theorem typeset_replaceGlyphs_eq_iff (hlex : s.lexicon.GlyphFree)
    (hlacks : ∀ g, IsGlyph g → s.lexicon.Lacks g) (h : Layer.Steady s.lexicon t) :
    s.typeset (replaceGlyphs t) = s.typeset t ↔
      ∀ latex, s.typeset t = .ok latex → ∀ g, IsGlyph g → ¬ Layer.Survives s.lexicon g t := by
  have hmap : s.typeset (replaceGlyphs t) = (s.typeset t).map replaceGlyphs :=
    s.typesetWithin_replaceGlyphs hlex hlacks _ h
  rw [hmap]
  cases htypeset : s.typeset t with
  | error fault => simp [Except.map]
  | ok latex =>
      have hsurvives (g : Char) (hg : IsGlyph g) :
          g ∈ latex ↔ Layer.Survives s.lexicon g t :=
        s.mem_typesetWithin_iff hg (hlacks g hg) htypeset
      simp only [Except.map, Except.ok.injEq, forall_eq', replaceGlyphs_eq_self_iff]
      exact forall₂_congr fun g hg => not_congr (hsurvives g hg)

theorem typeset_replaceGlyphs (s : Setting) (hs : s.lexicon = .ofDeclarations {}) (t : Text) :
    (Layer.Steady s.lexicon t →
        s.typeset (replaceGlyphs t) = (s.typeset t).map replaceGlyphs ∧
          (s.typeset (replaceGlyphs t) = s.typeset t ↔ ∀ latex, s.typeset t = .ok latex →
            ∀ g, IsGlyph g → ¬ Layer.Survives s.lexicon g t)) ∧
      (Layer.Clear t → Layer.Steady s.lexicon t) ∧
      (operator? (replaceGlyphs (trim t)) ≠ operator? (trim t) →
        ∀ latex, s.typeset t = .ok latex → s.typeset (replaceGlyphs t) ≠ .ok latex) := by
  have hlex : s.lexicon.GlyphFree := hs ▸ glyphFree_default
  have hlacks (g : Char) (hg : IsGlyph g) : s.lexicon.Lacks g := hs ▸ hg.lacks_default
  refine ⟨fun h => ⟨?_, ?_⟩, fun h => hs ▸ h.steady,
    fun hraised _ => s.typeset_ne_of_raised hraised⟩
  · exact s.typesetWithin_replaceGlyphs hlex hlacks _ h
  · exact s.typeset_replaceGlyphs_eq_iff hlex hlacks h

theorem typeset_replaceGlyphs_constant :
    (Layer.Clear "(+ α (- (@LABEL CONSTANT φ)))" ∧
      Layer.Steady (.ofDeclarations {}) "(+ α (- (@LABEL CONSTANT φ)))" ∧
      ∀ g, IsGlyph g → ¬ Layer.Survives (.ofDeclarations {}) g "(+ α (- (@LABEL CONSTANT φ)))") ∧
    Setting.typeset ⟨.ofDeclarations {}, defaultLimit⟩ (replaceGlyphs "(∗ a b)") ≠
      .ok "(^{*} a b)" := by
  have hclear : Layer.Clear "(+ α (- (@LABEL CONSTANT φ)))" :=
    ⟨by decide, by decide, by decide, by decide +kernel⟩
  obtain ⟨hboth, hsteady, -⟩ := typeset_replaceGlyphs ⟨.ofDeclarations {}, defaultLimit⟩ rfl
    "(+ α (- (@LABEL CONSTANT φ)))"
  obtain ⟨-, -, hraised⟩ :=
    typeset_replaceGlyphs ⟨.ofDeclarations {}, defaultLimit⟩ rfl "(∗ a b)"
  refine ⟨⟨hclear, hsteady hclear, ?_⟩, hraised (by decide) _ (by decide +kernel)⟩
  exact (hboth (hsteady hclear)).2.mp (by decide +kernel) "\\alpha + -\\phi" (by decide +kernel)

theorem typeset_replaceGlyphs_differs :
    (Setting.typeset ⟨.ofDeclarations {}, defaultLimit⟩ "(- (@APPLY φ (@ARGS x)))" =
        .ok "-φ(x)" ∧
      Setting.typeset ⟨.ofDeclarations {}, defaultLimit⟩
        (replaceGlyphs "(- (@APPLY φ (@ARGS x)))") = .ok "-\\phi(x)") ∧
    (Setting.typeset ⟨.ofDeclarations {}, defaultLimit⟩ "(∗ a b)" = .ok "(^{*} a b)" ∧
      Setting.typeset ⟨.ofDeclarations {}, defaultLimit⟩ (replaceGlyphs "(∗ a b)") =
        .ok "{{*}}^{a}") ∧
    Setting.typeset ⟨.ofDeclarations {}, defaultLimit⟩ "(+ (@LABEL FUNCTIοN f) 1" =
        .ok "FUNCTIoN + f 1" ∧
      Setting.typeset ⟨.ofDeclarations {}, defaultLimit⟩
        (replaceGlyphs "(+ (@LABEL FUNCTIοN f) 1") = .ok "\\operatorname{f} + 1" := by
  decide +kernel

end Setting

end WorksheetTex
