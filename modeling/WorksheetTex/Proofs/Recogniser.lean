import WorksheetTex.Evaluation.Collapse
import WorksheetTex.Proofs.Depth
import WorksheetTex.Proofs.Reference
import WorksheetTex.Proofs.Seam

namespace WorksheetTex.Evaluation

open Text Paren Vocabulary Form Tex

section Recognisers

variable {w t r : Text}

theorem consumed_append (s r : Text) : consumed (s ++ r) r = s.length := by
  rw [consumed, List.length_append, Nat.add_sub_cancel]

theorem dropPrefix?_append (w r : Text) : dropPrefix? w (w ++ r) = some r := by
  induction w with
  | nil => cases r <;> rfl
  | cons c w ih => simpa [dropPrefix?] using ih

theorem eq_of_dropPrefix? (h : dropPrefix? w t = some r) : t = w ++ r := by
  induction w generalizing t with
  | nil =>
      obtain rfl : t = r := by cases t <;> simpa [dropPrefix?] using h
      rfl
  | cons c w ih =>
      cases t with
      | nil => cases h
      | cons d t =>
          rw [dropPrefix?] at h
          split at h
          · next hc => rw [hc, ih h, List.cons_append]
          · cases h

theorem eq_of_dropBlanks? (h : dropBlanks? t = some r) :
    ∃ b, b ≠ [] ∧ allBlank b = true ∧ t = b ++ r := by
  cases t with
  | nil => cases h
  | cons c t =>
      rw [dropBlanks?] at h
      split at h
      · next hc =>
          obtain rfl := Option.some.inj h
          refine ⟨c :: t.takeWhile isBlank, by simp, ?_, ?_⟩
          · rw [allBlank, List.all_cons, hc]
            exact List.all_takeWhile
          · rw [trimStart, List.cons_append, List.takeWhile_append_dropWhile]
      · cases h

theorem eq_of_takeRun? {p : Char → Bool} (h : takeRun? p t = some (w, r)) :
    w ≠ [] ∧ (∀ c ∈ w, p c = true) ∧ t = w ++ r := by
  rw [takeRun?] at h
  split at h
  · cases h
  · next hne =>
      obtain ⟨rfl, rfl⟩ := Prod.mk.inj (Option.some.inj h)
      exact ⟨fun hnil => hne hnil, List.all_eq_true.mp List.all_takeWhile,
        List.takeWhile_append_dropWhile.symm⟩

def ItemsOf (body : Text) (items : List Text) : Prop :=
  items = words body ∨ items = [[]]

theorem ItemsOf.eq_nil_or_mem {body : Text} {items : List Text} (h : ItemsOf body items) {w : Text}
    (hw : w ∈ items) : w = [] ∨ w ∈ words body := by
  rcases h with rfl | rfl
  · exact .inr hw
  · exact .inl (List.mem_singleton.mp hw)

theorem eq_of_spacedItems? {items : List Text} (h : spacedItems? t = some (items, r)) :
    ∃ c body, isBlank c = true ∧ (∀ x ∈ c :: body, isParen x = false) ∧ t = c :: body ++ r ∧
      ItemsOf body items := by
  obtain ⟨⟨run, rest⟩, hrun, hitems⟩ := Option.bind_eq_some_iff.mp h
  obtain ⟨_, hparen, rfl⟩ := eq_of_takeRun? hrun
  replace hparen : ∀ x ∈ run, isParen x = false := fun x hx => by simpa using hparen x hx
  cases run with
  | nil => cases hitems
  | cons c body =>
      simp only at hitems
      split at hitems
      · next hc =>
          rw [Bool.and_eq_true] at hc
          split at hitems
          · obtain ⟨rfl, rfl⟩ := Prod.mk.inj (Option.some.inj hitems)
            exact ⟨c, body, hc.1, hparen, rfl, .inr rfl⟩
          · obtain ⟨rfl, rfl⟩ := Prod.mk.inj (Option.some.inj hitems)
            exact ⟨c, body, hc.1, hparen, rfl, .inl rfl⟩
      · cases hitems

theorem not_isParen_of_allBlank (h : allBlank t = true) : ∀ c ∈ t, isParen c = false := by
  intro c hc
  have hblank := List.all_eq_true.mp h c hc
  rcases paren_cases c with rfl | rfl | hparen
  · exact absurd hblank (by decide)
  · exact absurd hblank (by decide)
  · exact hparen

theorem not_isParen_of_isAtomic {c : Char} (h : isAtomic c = true) : isParen c = false := by
  rw [isAtomic, Bool.and_eq_true, Bool.not_eq_true'] at h
  exact h.1

theorem not_isParen_of_isLatin {c : Char} (h : isLatin c = true) : isParen c = false := by
  rcases paren_cases c with rfl | rfl | hparen
  · cases h
  · cases h
  · exact hparen

end Recognisers

theorem Scan.eq_of_rule {scan : Scan} {before t p : Text} {n : Nat}
    (h : scan.rule before t = some (n, p)) :
    ∃ rest, scan t = some (p, rest) ∧ n = t.length - rest.length := by
  obtain ⟨⟨q, rest⟩, hscan, hfound⟩ := Option.map_eq_some_iff.mp h
  obtain ⟨rfl, rfl⟩ := Prod.mk.inj hfound
  exact ⟨rest, hscan, rfl⟩

section Scans

variable {lex : Lexicon} {t p rest : Text}

theorem eq_of_labelScan (h : labelScan lex t = some (p, rest)) :
    ∃ b kind b' name, allBlank b' = true ∧ b' ≠ [] ∧
      (∀ x ∈ b ++ kind ++ b' ++ name, isParen x = false) ∧
      t = "(@LABEL" ++ b ++ kind ++ b' ++ name ++ ')' :: rest ∧ p = labelPiece lex kind name := by
  simp only [labelScan, Option.bind_eq_bind, Option.bind_eq_some_iff, Prod.exists] at h
  obtain ⟨r₁, h₁, r₂, h₂, kind, r₃, h₃, r₄, h₄, name, r₅, h₅, rest, h₆, h₇⟩ := h
  obtain ⟨b, _, hb, rfl⟩ := eq_of_dropBlanks? h₂
  obtain ⟨b', hne', hb', rfl⟩ := eq_of_dropBlanks? h₄
  obtain ⟨_, hkind, rfl⟩ := eq_of_takeRun? h₃
  obtain ⟨_, hname, rfl⟩ := eq_of_takeRun? h₅
  obtain rfl := eq_of_dropPrefix? h₆
  obtain rfl := eq_of_dropPrefix? h₁
  obtain ⟨rfl, rfl⟩ := Prod.mk.inj (Option.some.inj h₇)
  refine ⟨b, kind, b', name, hb', hne', fun x hx => ?_, by simp, rfl⟩
  simp only [List.mem_append] at hx
  rcases hx with ((hx | hx) | hx) | hx
  · exact not_isParen_of_allBlank hb x hx
  · exact not_isParen_of_isLatin (hkind x hx)
  · exact not_isParen_of_allBlank hb' x hx
  · exact not_isParen_of_isAtomic (hname x hx)

theorem eq_of_applyScan (h : applyScan lex t = some (p, rest)) :
    ∃ b name b' c body items, (allBlank b = true ∧ b ≠ []) ∧ (allBlank b' = true ∧ b' ≠ []) ∧
      isBlank c = true ∧
      ((∀ x ∈ b ++ name ++ b', isParen x = false) ∧ ∀ x ∈ c :: body, isParen x = false) ∧
      t = "(@APPLY" ++ b ++ name ++ b' ++ "(@ARGS" ++ c :: body ++ ')' :: ')' :: rest ∧
      ItemsOf body items ∧ p = applyPiece lex name items := by
  simp only [applyScan, Option.bind_eq_bind, Option.bind_eq_some_iff, Prod.exists] at h
  obtain ⟨r₁, h₁, r₂, h₂, name, r₃, h₃, r₄, h₄, r₅, h₅, items, r₆, h₆, rest, h₇, h₈⟩ := h
  obtain ⟨b, hne, hb, rfl⟩ := eq_of_dropBlanks? h₂
  obtain ⟨b', hne', hb', rfl⟩ := eq_of_dropBlanks? h₄
  obtain ⟨_, hname, rfl⟩ := eq_of_takeRun? h₃
  obtain ⟨c, body, hc, hbody, rfl, hitems⟩ := eq_of_spacedItems? h₆
  obtain rfl := eq_of_dropPrefix? h₇
  obtain rfl := eq_of_dropPrefix? h₅
  obtain rfl := eq_of_dropPrefix? h₁
  obtain ⟨rfl, rfl⟩ := Prod.mk.inj (Option.some.inj h₈)
  refine ⟨b, name, b', c, body, items, ⟨hb, hne⟩, ⟨hb', hne'⟩, hc, ⟨fun x hx => ?_, hbody⟩,
    by simp, hitems, rfl⟩
  simp only [List.mem_append] at hx
  rcases hx with (hx | hx) | hx
  · exact not_isParen_of_allBlank hb x hx
  · exact not_isParen_of_isAtomic (hname x hx)
  · exact not_isParen_of_allBlank hb' x hx

theorem eq_of_operatorScan (h : operatorScan t = some (p, rest)) :
    ∃ (op : Operator) (c : Char) (body : Text) (items : List Text),
      isBlank c = true ∧ (∀ x ∈ c :: body, isParen x = false) ∧
      t = '(' :: op.symbol :: c :: body ++ ')' :: rest ∧
      ItemsOf body items ∧ op.render (items.map replaceGlyphs) = some p := by
  simp only [operatorScan, Option.bind_eq_bind, Option.bind_eq_some_iff, Prod.exists] at h
  obtain ⟨op, h₁, items, r, h₂, rest, h₃, q, h₄, h₅⟩ := h
  obtain ⟨u, rfl⟩ := exists_of_operator? h₁
  obtain ⟨c, body, hc, hbody, hu, hitems⟩ := eq_of_spacedItems? h₂
  obtain rfl := eq_of_dropPrefix? h₃
  obtain rfl : u = c :: body ++ (")" ++ rest) := hu
  obtain ⟨rfl, rfl⟩ := Prod.mk.inj (Option.some.inj h₅)
  exact ⟨op, c, body, items, hc, hbody, by simp, hitems, h₄⟩

theorem eq_of_bareTagScan (h : bareTagScan t = some (p, rest)) :
    ∃ w b, (∀ c ∈ w, isTagCapital c = true) ∧ allBlank b = true ∧
      t = "(@" ++ w ++ b ++ rest ∧ p = [] := by
  simp only [bareTagScan, Option.bind_eq_bind, Option.bind_eq_some_iff, Prod.exists] at h
  obtain ⟨r₁, h₁, w, r₂, h₂, h₃⟩ := h
  obtain ⟨_, hw, rfl⟩ := eq_of_takeRun? h₂
  obtain rfl := eq_of_dropPrefix? h₁
  obtain ⟨rfl, rfl⟩ := Prod.mk.inj (Option.some.inj h₃)
  refine ⟨w, r₂.takeWhile isBlank, hw, List.all_takeWhile, ?_, rfl⟩
  rw [trimStart, List.append_assoc _ (List.takeWhile _ _), List.takeWhile_append_dropWhile]
  simp

end Scans

structure AtForms (rule : Rule Text) : Prop where
  isLocal : rule.IsLocal
  opens {c : Char} (r : Text) : c ≠ '(' → rule [] (c :: r) = none

theorem Scan.atForms {scan : Scan}
    (h : ∀ {t p rest : Text}, scan t = some (p, rest) → ∃ s, t = '(' :: s) :
    AtForms scan.rule where
  isLocal _ _ := rfl
  opens := by
    intro c r hc
    refine Option.map_eq_none_iff.mpr (Option.eq_none_iff_forall_ne_some.mpr fun found hfound => ?_)
    obtain ⟨s, hs⟩ := h hfound
    exact hc (List.cons.inj hs).1

theorem atForms_labelRule (lex : Lexicon) : AtForms (labelRule lex) :=
  Scan.atForms fun h => by
    obtain ⟨b, kind, b', name, -, -, -, rfl, -⟩ := eq_of_labelScan h
    exact ⟨_, rfl⟩

theorem atForms_applyRule (lex : Lexicon) : AtForms (applyRule lex) :=
  Scan.atForms fun h => by
    obtain ⟨b, name, b', c, body, items, -, -, -, -, rfl, -⟩ := eq_of_applyScan h
    exact ⟨_, rfl⟩

theorem atForms_bareTagRule : AtForms bareTagRule :=
  Scan.atForms fun h => by
    obtain ⟨w, b, -, -, rfl, -⟩ := eq_of_bareTagScan h
    exact ⟨_, rfl⟩

theorem atForms_operatorRule : AtForms operatorRule :=
  Scan.atForms fun h => by
    obtain ⟨op, c, body, items, -, -, rfl, -⟩ := eq_of_operatorScan h
    exact ⟨_, rfl⟩

structure Rewrites (I P : Text → Prop) (rule : Rule Text) : Prop extends AtForms rule where
  hit {n : Nat} {t p : Text} : I t → rule [] t = some (n, p) →
    ∃ s r, t = '(' :: s ++ r ∧ n = t.length - r.length ∧ I r ∧ P p

theorem Rewrites.exists_hit {I P : Text → Prop} {rule : Rule Text} (hrule : Rewrites I P rule)
    {t : Text} {answer : Nat × Text} (ht : I t) (h : rule [] t = some answer) :
    ∃ s r p, t = '(' :: s ++ r ∧ answer = (('(' :: s).length, p) ∧ I r ∧ P p := by
  obtain ⟨n, p⟩ := answer
  obtain ⟨s, r, hsr, hn, hr, hp⟩ := hrule.hit ht h
  refine ⟨s, r, p, hsr, ?_, hr, hp⟩
  rw [hn, hsr, List.length_append, Nat.add_sub_cancel]

theorem rewrites_bareTagRule {I P : Text → Prop} (hI : Hereditary I) (hP : P [])
    (hskip : ∀ c t, isTagCapital c = true → I (c :: t) → I t) : Rewrites I P bareTagRule where
  toAtForms := atForms_bareTagRule
  hit := by
    intro n t p ht h
    obtain ⟨rest, hscan, rfl⟩ := Scan.eq_of_rule h
    obtain ⟨w, b, hw, hb, rfl, rfl⟩ := eq_of_bareTagScan hscan
    refine ⟨"@" ++ w ++ b, rest, by simp, rfl, ?_, hP⟩
    have hname : I (w ++ (b ++ rest)) := hI.head (c := '@') (by decide) (by simpa using ht)
    clear ht h hscan
    induction w with
    | nil => exact (hI.cut (seam_blank_left hb _) hname).2
    | cons c w ih =>
        exact ih (fun x hx => hw x (by simp [hx])) (hskip c _ (hw c (by simp)) hname)

section Inherits

variable {lex : Lexicon} {I P : Text → Prop} (h : Inherits lex I P)
  (hglyphs : ∀ t, I t → I (replaceGlyphs t))

include h hglyphs

theorem inherits_labelPiece (kind : Text) {name : Text} (hname : I name) :
    P (labelPiece lex kind name) := by
  have hwritten : P (replaceGlyphs name) := h.written (hglyphs name hname)
  rw [labelPiece]
  cases LabelKind.ofName? kind with
  | none => exact hwritten
  | some kind =>
      exact h.lexicon.label hwritten (h.composes.upright hwritten)
        (h.composes.operatorName hwritten) kind

theorem inherits_items {items : List Text} {body : Text} (hbody : I body)
    (hitems : ItemsOf body items) : ∀ w ∈ items.map replaceGlyphs, P w := by
  intro v hv
  obtain ⟨w, hw, rfl⟩ := List.mem_map.mp hv
  rcases hitems.eq_nil_or_mem hw with rfl | hw
  · exact h.composes.literal rfl
  · exact h.written (hglyphs w (h.hereditary.words hbody w hw))

theorem rewrites_labelRule : Rewrites I P (labelRule lex) where
  toAtForms := atForms_labelRule lex
  hit := by
    intro n t p ht hrule
    obtain ⟨rest, hscan, rfl⟩ := Scan.eq_of_rule hrule
    obtain ⟨b, kind, b', name, hb', hne', -, rfl, rfl⟩ := eq_of_labelScan hscan
    have hshape : "(@LABEL" ++ b ++ kind ++ b' ++ name ++ ')' :: rest =
        ("(@LABEL" ++ b ++ kind) ++ (b' ++ (name ++ ')' :: rest)) := by simp
    rw [hshape] at ht
    have hafter := (h.hereditary.across hb' hne' ht).2
    obtain ⟨hname, hrest⟩ := h.hereditary.around not_isAtomic_parens.2 hafter
    exact ⟨"@LABEL" ++ b ++ kind ++ b' ++ name ++ [')'], rest, by simp, rfl, hrest,
      inherits_labelPiece h hglyphs kind hname⟩

theorem rewrites_applyRule : Rewrites I P (applyRule lex) where
  toAtForms := atForms_applyRule lex
  hit := by
    intro n t p ht hrule
    obtain ⟨rest, hscan, rfl⟩ := Scan.eq_of_rule hrule
    obtain ⟨b, name, b', c, body, items, hb, hb', hc, -, rfl, hitems, rfl⟩ := eq_of_applyScan hscan
    have hshape : "(@APPLY" ++ b ++ name ++ b' ++ "(@ARGS" ++ c :: body ++ ')' :: ')' :: rest =
        "(@APPLY" ++ (b ++ (name ++
          (b' ++ ("(@ARGS" ++ c :: (body ++ ')' :: ')' :: rest))))) := by simp
    rw [hshape] at ht
    have hfirst := (h.hereditary.across hb.1 hb.2 ht).2
    obtain ⟨hname, hlast⟩ := h.hereditary.across hb'.1 hb'.2 hfirst
    have hitem := (h.hereditary.around (not_isAtomic_of_isBlank hc) hlast).2
    obtain ⟨hbody, hclose⟩ := h.hereditary.around not_isAtomic_parens.2 hitem
    refine ⟨"@APPLY" ++ b ++ name ++ b' ++ "(@ARGS" ++ c :: body ++ ")".toList ++ [')'], rest,
      by simp, rfl, h.hereditary.tail not_isAtomic_parens.2 hclose, ?_⟩
    exact h.composes.applyTemplate (h.lexicon.function (h.written hname))
      (h.composes.joinWith rfl (inherits_items h hglyphs hbody hitems))

theorem rewrites_operatorRule : Rewrites I P operatorRule where
  toAtForms := atForms_operatorRule
  hit := by
    intro n t p ht hrule
    obtain ⟨rest, hscan, rfl⟩ := Scan.eq_of_rule hrule
    obtain ⟨op, c, body, items, hc, -, rfl, hitems, hp⟩ := eq_of_operatorScan hscan
    have hitem : I (body ++ ')' :: rest) := h.hereditary.tail (not_isAtomic_of_isBlank hc)
      (h.hereditary.head (isHead_symbol op) ht)
    obtain ⟨hbody, hrest⟩ := h.hereditary.around not_isAtomic_parens.2 hitem
    exact ⟨op.symbol :: c :: body ++ [')'], rest, by simp, rfl, hrest,
      h.composes.render (inherits_items h hglyphs hbody hitems) hp⟩

end Inherits

end WorksheetTex.Evaluation
