import WorksheetTex.Proofs.Imbalance
import WorksheetTex.Proofs.SpacingTwice
import WorksheetTex.Proofs.Survival

namespace WorksheetTex.Tex

open Text

def controlWords : Text → List Text
  | [] => []
  | [_] => []
  | b :: c :: t =>
      if b = '\\' then
        if isLatin c then (c :: t.takeWhile isLatin) :: controlWords t else controlWords t
      else controlWords (c :: t)

def cutName (w : Text) : Text :=
  (greekNames.find? (·.isPrefixOf w)).getD w

def wordsFrom : Mode → Text → List Text
  | .plain, t => controlWords t
  | .command, t => controlWords ('\\' :: t)
  | .name w, t => (w.reverse ++ t.takeWhile isLatin) :: controlWords t

def ended : Mode → Char → List Text
  | .name w, c => if isLatin c then [] else [w.reverse]
  | _, _ => []

theorem controlWords_cons {c : Char} (hc : c ≠ '\\') (t : Text) :
    controlWords (c :: t) = controlWords t := by
  cases t with
  | nil => rfl
  | cons d t => rw [controlWords, if_neg hc]

theorem wordsFrom_cons (m : Mode) (c : Char) (t : Text) :
    wordsFrom m (c :: t) = ended m c ++ wordsFrom (nameSpacer.step m c) t := by
  have hplain : controlWords (c :: t) = wordsFrom (if c = '\\' then .command else .plain) t := by
    split
    · next hc => rw [hc]; rfl
    · next hc => exact controlWords_cons hc t
  cases m with
  | plain => exact hplain
  | command =>
      change controlWords ('\\' :: c :: t) = wordsFrom (if isLatin c then .name [c] else .plain) t
      rw [controlWords, if_pos rfl]
      split <;> rfl
  | name w =>
      cases hc : isLatin c with
      | true =>
          have hslash : c ≠ '\\' := by
            rintro rfl
            cases hc
          simp [wordsFrom, ended, nameSpacer, hc, controlWords_cons hslash]
      | false => simp [wordsFrom, ended, nameSpacer, hc, hplain]

theorem wordsFrom_append {m : Mode} {s : Text} (h : s.foldl nameSpacer.step m = .plain)
    (t : Text) : wordsFrom m (s ++ t) = wordsFrom m s ++ controlWords t := by
  induction s generalizing m with
  | nil =>
      obtain rfl : m = .plain := h
      rfl
  | cons c s ih =>
      rw [List.cons_append, wordsFrom_cons, wordsFrom_cons, ih h, List.append_assoc]

theorem controlWords_command {w : Text} (hne : w ≠ []) (hw : w.all isLatin = true) (t : Text) :
    controlWords ('\\' :: w ++ t) = (w ++ t.takeWhile isLatin) :: controlWords t := by
  obtain ⟨c, w, rfl⟩ := List.exists_cons_of_ne_nil hne
  rw [List.all_cons, Bool.and_eq_true] at hw
  have hrun : ∀ x ∈ w, isLatin x = true := List.all_eq_true.mp hw.2
  have hskip : ∀ x ∈ w, x ≠ '\\' := by
    rintro x hx rfl
    cases hrun _ hx
  have hafter : controlWords (w ++ t) = controlWords t := by
    clear hrun hw hne
    induction w with
    | nil => rfl
    | cons x w ih =>
        rw [List.forall_mem_cons] at hskip
        rw [List.cons_append, controlWords_cons hskip.1, ih hskip.2]
  rw [List.cons_append, List.cons_append, controlWords, if_pos rfl, if_pos hw.1, hafter,
    List.takeWhile_append_of_pos hrun]
  rfl

theorem wordsFrom_nameSpacer (m : Mode) (t : Text) :
    wordsFrom m (nameSpacer.run m t) = wordsFrom m t := by
  induction t generalizing m with
  | nil => rfl
  | cons c t ih =>
      rw [Spacer.run, wordsFrom_cons]
      split
      · next hdue =>
          obtain ⟨w, rfl, hlatin, halnum⟩ := due_nameSpacer hdue
          have hc : c ≠ '\\' := by
            rintro rfl
            rw [not_isAlphanumeric.2] at halnum
            cases halnum
          have hplain : nameSpacer.step (.name w) c = .plain := by simp [nameSpacer, hlatin, hc]
          rw [wordsFrom_cons, step_space, hplain, ← ih .plain]
          have hended : ended (.name w) ' ' = ended (.name w) c := by
            rw [ended, ended, hlatin]
            rfl
          exact congrArg₂ _ hended (controlWords_cons hc _)
      · rw [wordsFrom_cons, ih]

theorem eq_of_greek_start {v w : Text} (hv : v ∈ greekNames) (hw : w ∈ greekNames)
    (h : v <+: w) : v = w := by
  have hall : ∀ v ∈ greekNames, ∀ w ∈ greekNames, v <+: w → v = w := by decide
  exact hall v hv w hw h

theorem cutName_cases (w : Text) :
    (cutName w = w ∧ ∀ name ∈ greekNames, ¬ name <+: w) ∨
      (cutName w ∈ greekNames ∧ cutName w <+: w) := by
  rw [cutName]
  cases hfind : greekNames.find? (·.isPrefixOf w) with
  | none =>
      refine .inl ⟨rfl, fun name hname hprefix => ?_⟩
      exact List.find?_eq_none.mp hfind name hname (List.isPrefixOf_iff_prefix.mpr hprefix)
  | some v =>
      have hprefix : v.isPrefixOf w = true :=
        List.find?_some (p := fun name : Text => name.isPrefixOf w) hfind
      exact .inr ⟨List.mem_of_find?_eq_some hfind, List.isPrefixOf_iff_prefix.mp hprefix⟩

theorem cutName_append {name : Text} (hname : name ∈ greekNames) (t : Text) :
    cutName (name ++ t) = name := by
  have hstart := List.prefix_append name t
  rcases cutName_cases (name ++ t) with ⟨-, hnone⟩ | ⟨hmem, hprefix⟩
  · exact absurd hstart (hnone name hname)
  · rcases List.prefix_or_prefix_of_prefix hprefix hstart with h | h
    · exact eq_of_greek_start hmem hname h
    · exact (eq_of_greek_start hname hmem h).symm

def Uncut (w : Text) : Prop :=
  ∀ name ∈ greekNames, name <+: w → name = w

theorem Uncut.cutName {w : Text} (h : Uncut w) : cutName w = w := by
  rcases cutName_cases w with ⟨heq, -⟩ | ⟨hmem, hprefix⟩
  · exact heq
  · exact h _ hmem hprefix

theorem Uncut.concat {w : Text} (h : Uncut w) (hw : w ∉ greekNames) (c : Char) :
    Uncut (w ++ [c]) := by
  intro name hname hprefix
  rcases List.prefix_concat_iff.mp hprefix with heq | hprefix
  · exact heq
  · exact absurd (h name hname hprefix ▸ hname) hw

theorem mem_greekEndings_iff {w : Text} : w ∈ greekEndings ↔ w.reverse ∈ greekNames := by
  rw [greekEndings, List.mem_map]
  constructor
  · rintro ⟨name, hname, rfl⟩
    rwa [List.reverse_reverse]
  · exact fun h => ⟨_, h, List.reverse_reverse w⟩

def InStep : Mode → Option Text → Prop
  | .plain, _ => True
  | .command, s => s = some []
  | .name w, s => s = some w ∧ Uncut w.reverse

theorem InStep.step {m : Mode} {s : Option Text} {c : Char} (h : InStep m s)
    (hdue : greekSpacer.due s c = false) :
    InStep (nameSpacer.step m c) (greekSpacer.step s c) := by
  have hslash : InStep (if c = '\\' then .command else .plain) (greekSpacer.step s c) := by
    split
    · next hc => exact if_pos hc
    · trivial
  have hletter (hc : isLatin c = true) : greekSpacer.step s c = s.map (c :: ·) := by
    refine if_neg ?_
    rintro rfl
    cases hc
  cases m with
  | plain => exact hslash
  | command =>
      obtain rfl : s = some [] := h
      cases hc : isLatin c with
      | false => simp [nameSpacer, hc, InStep]
      | true =>
          have hshort : ∀ name ∈ greekNames, 1 < name.length := by decide
          rw [hletter hc]
          simp only [nameSpacer, hc, if_true]
          refine ⟨rfl, fun name hname hprefix => ?_⟩
          have := hshort name hname
          have := hprefix.length_le
          simp at this
          omega
  | name w =>
      obtain ⟨rfl, hw⟩ := h
      cases hc : isLatin c with
      | false => simpa [nameSpacer, hc] using hslash
      | true =>
          have halnum : c.isAlphanum = true := Bool.or_eq_true_iff.mpr (.inl hc)
          have hnot : w.reverse ∉ greekNames := by
            intro hmem
            have hends : greekEndings.contains w = true :=
              List.contains_iff_mem.mpr (mem_greekEndings_iff.mpr hmem)
            have : greekSpacer.due (some w) c = true := Bool.and_eq_true_iff.mpr ⟨halnum, hends⟩
            rw [hdue] at this
            cases this
          rw [hletter hc]
          simp only [nameSpacer, hc, if_true]
          refine ⟨rfl, ?_⟩
          rw [List.reverse_cons]
          exact hw.concat hnot c

theorem InStep.cutName_ended {m : Mode} {s : Option Text} (h : InStep m s) (c : Char) :
    (ended m c).map cutName = ended m c := by
  cases m with
  | plain => rfl
  | command => rfl
  | name w =>
      rw [ended]
      split
      · rfl
      · rw [List.map_singleton, h.2.cutName]

theorem wordsFrom_greekSpacer {m : Mode} {s : Option Text} (h : InStep m s) (t : Text) :
    wordsFrom m (greekSpacer.run s t) = (wordsFrom m t).map cutName := by
  induction t generalizing m s with
  | nil =>
      cases m with
      | plain => rfl
      | command => rfl
      | name w => simp [Spacer.run, wordsFrom, controlWords, h.2.cutName]
  | cons c t ih =>
      rw [Spacer.run]
      cases hdue : greekSpacer.due s c with
      | false =>
          simp only [Bool.false_eq_true, if_false]
          rw [wordsFrom_cons, wordsFrom_cons, List.map_append, h.cutName_ended, ih (h.step hdue)]
      | true =>
          obtain ⟨halnum, hmem⟩ := Bool.and_eq_true_iff.mp hdue
          have hc : c ≠ '\\' := by
            rintro rfl
            cases halnum
          have hrest : controlWords (' ' :: c :: greekSpacer.run (greekSpacer.step s c) t) =
              (controlWords (c :: t)).map cutName := by
            rw [controlWords_cons (by decide), controlWords_cons hc, controlWords_cons hc]
            exact ih (m := .plain) trivial
          cases m with
          | plain => exact hrest
          | command =>
              subst h
              cases hmem
          | name w =>
              obtain ⟨rfl, -⟩ := h
              have hname : w.reverse ∈ greekNames :=
                mem_greekEndings_iff.mp (List.contains_iff_mem.mp hmem)
              have hspace : isLatin ' ' = false := rfl
              simp only [if_true, wordsFrom, List.map_cons, cutName_append hname, hrest,
                List.takeWhile_cons, hspace, Bool.false_eq_true, if_false, List.append_nil]

theorem controlWords_spaceCommands (t : Text) :
    controlWords (spaceCommands t) = (controlWords t).map cutName :=
  (wordsFrom_nameSpacer .plain _).trans (wordsFrom_greekSpacer (m := .plain) trivial t)

end WorksheetTex.Tex

namespace WorksheetTex

open Text Tex Paren Vocabulary Form Evaluation

def openGlyphs : Text :=
  "ΓΔΘΛΞΠΣΥΦΨΩϑϕ∞"

def isLetter (c : Char) : Bool :=
  isLatin c || c == 'ο'

theorem glyph_command {p : Char × Text} (h : p ∈ glyphs) :
    (p.1 ∉ openGlyphs ∧ p.2.foldl nameSpacer.step .plain = .plain ∧
        (controlWords p.2).map cutName = controlWords p.2) ∨
      ∃ w, p.2 = '\\' :: w ∧ w ≠ [] ∧ w.all isLatin = true ∧
        (p.1 ∉ openGlyphs ∧ w ∈ greekNames ∨
          p.1 ∈ openGlyphs ∧ ∀ name ∈ greekNames, ¬ name <+: w ∧ ¬ w <+: name) := by
  have hall : ∀ p ∈ glyphs,
      (p.1 ∉ openGlyphs ∧ p.2.foldl nameSpacer.step .plain = .plain ∧
        (controlWords p.2).map cutName = controlWords p.2) ∨
      p.2 = '\\' :: p.2.tail ∧ p.2.tail ≠ [] ∧ p.2.tail.all isLatin = true ∧
        (p.1 ∉ openGlyphs ∧ p.2.tail ∈ greekNames ∨
          p.1 ∈ openGlyphs ∧ ∀ name ∈ greekNames, ¬ name <+: p.2.tail ∧ ¬ p.2.tail <+: name) := by
    decide +kernel
  exact (hall p h).imp_right fun h => ⟨_, h⟩

theorem controlWords_closed {c : Char} (hc : c ≠ '\\') (hopen : c ∉ openGlyphs) (t : Text) :
    (controlWords (glyph c ++ t)).map cutName =
      controlWords (glyph c) ++ (controlWords t).map cutName := by
  rcases glyph_cases c with hglyph | hglyph
  · rw [hglyph, List.singleton_append, controlWords_cons hc]
    rfl
  · rcases glyph_command hglyph with ⟨-, hplain, hcut⟩ | ⟨w, hw, hne, hlatin, hgreek⟩
    · have happend : controlWords (glyph c ++ t) = controlWords (glyph c) ++ controlWords t :=
        wordsFrom_append (m := .plain) hplain t
      rw [happend, List.map_append, hcut]
    · have hname : w ∈ greekNames := by
        rcases hgreek with hgreek | hgreek
        · exact hgreek.2
        · exact absurd hgreek.1 hopen
      have halone := controlWords_command hne hlatin []
      rw [List.append_nil] at halone
      have hw : glyph c = '\\' :: w := hw
      rw [hw, controlWords_command hne hlatin, halone, List.map_cons, cutName_append hname]
      simp [controlWords]

theorem controlWords_open {c : Char} (hopen : c ∈ openGlyphs) (t : Text) :
    ∃ w, controlWords (glyph c) = [w] ∧ (controlWords (glyph c ++ t)).map cutName =
      (w ++ t.takeWhile isLatin) :: (controlWords t).map cutName := by
  have hall : openGlyphs.all (fun c => glyph c != [c]) = true := by decide
  rcases glyph_cases c with hglyph | hglyph
  · exact absurd hglyph (bne_iff_ne.mp (List.all_eq_true.mp hall c hopen))
  · rcases glyph_command hglyph with ⟨hnot, -⟩ | ⟨w, hw, hne, hlatin, hgreek⟩
    · exact absurd hopen hnot
    · have hapart : ∀ name ∈ greekNames, ¬ name <+: w ∧ ¬ w <+: name := by
        rcases hgreek with hgreek | hgreek
        · exact absurd hopen hgreek.1
        · exact hgreek.2
      have huncut : Uncut (w ++ t.takeWhile isLatin) := by
        intro name hname hprefix
        rcases List.prefix_or_prefix_of_prefix hprefix (List.prefix_append w _) with h | h
        · exact absurd h (hapart name hname).1
        · exact absurd h (hapart name hname).2
      have halone := controlWords_command hne hlatin []
      rw [List.append_nil] at halone
      have hw : glyph c = '\\' :: w := hw
      refine ⟨w, ?_, ?_⟩
      · rw [hw, halone]
        simp [controlWords]
      · rw [hw, controlWords_command hne hlatin, List.map_cons, huncut.cutName]

theorem takeWhile_replaceGlyphs (c : Char) (t : Text) :
    (replaceGlyphs (c :: t)).takeWhile isLatin = [] ↔ isLetter c = false := by
  obtain ⟨x, r, hx⟩ := List.exists_cons_of_ne_nil (glyph_ne_nil c)
  have hhead : isLatin x = isLetter c := by
    by_cases hc : c = 'ο'
    · subst hc
      obtain ⟨rfl, -⟩ := List.cons.inj (hx.symm.trans (rfl : glyph 'ο' = ['o']))
      rfl
    · have hletter : isLetter c = isLatin c := by simp [isLetter, hc]
      rw [hletter]
      rcases glyph_cases c with hglyph | hglyph
      · obtain ⟨rfl, -⟩ := List.cons.inj (hx.symm.trans hglyph)
        rfl
      · have hall : ∀ p ∈ glyphs, p.1 ≠ 'ο' → p.2.head?.all (isLatin · == isLatin p.1) = true := by
          decide
        have := hall _ hglyph hc
        rw [hx] at this
        exact eq_of_beq this
  rw [replaceGlyphs_cons, hx, List.cons_append, List.takeWhile_cons, hhead]
  cases isLetter c <;> simp

theorem controlWords_replaceGlyphs_iff {s : Text} (hs : '\\' ∉ s) :
    (controlWords (replaceGlyphs s)).map cutName = s.flatMap (fun c => controlWords (glyph c)) ↔
      s.IsChain fun c d => c ∈ openGlyphs → isLetter d = false := by
  induction s with
  | nil => simp [controlWords]
  | cons c s ih =>
      rw [List.mem_cons, not_or] at hs
      rw [replaceGlyphs_cons, List.flatMap_cons]
      by_cases hopen : c ∈ openGlyphs
      · obtain ⟨w, hw, hwords⟩ := controlWords_open hopen (replaceGlyphs s)
        rw [hwords, hw, List.singleton_append, List.cons.injEq, ih hs.2, List.append_right_eq_self]
        cases s with
        | nil => simp
        | cons d s =>
            rw [takeWhile_replaceGlyphs, List.isChain_cons_cons, forall_prop_of_true hopen]
      · rw [controlWords_closed (Ne.symm hs.1) hopen, List.append_cancel_left_eq, ih hs.2]
        cases s with
        | nil => simp
        | cons d s => simp [hopen]

theorem typeset_atomic {s : Text} (hs : ∀ c ∈ s, isAtomic c = true) :
    typeset .absent s = .ok (spaceCommands (replaceGlyphs s)) := by
  have hset : Setting.typeset ⟨.ofDeclarations {}, defaultLimit⟩ s =
      .ok (spaceCommands (replaceGlyphs s)) := by
    cases s with
    | nil => rfl
    | cons c s =>
        let a : Atom := ⟨c :: s, by simp, hs⟩
        have hheight : (Tree.atom a).height ≤ defaultLimit.levels := (by decide : 1 ≤ 256)
        exact Setting.typesetWithin_tree (.atom a) (.atom a) hheight (.atom (.inl rfl))
  have hbalance : imbalance? s = none :=
    imbalance?_of_balanced (balanced_flat fun c hc => not_isParen_of_isAtomic (hs c hc))
  have hreport := report_record (o := {}) rfl hset (.inr hbalance)
  rw [spaceCommands_idem] at hreport
  exact congrArg (Except.map (·.latex)) hreport

theorem isAtomic_of_isAlphanum {c : Char} (h : c.isAlphanum = true) : isAtomic c = true := by
  have hall : ∀ n < 128, (Char.ofNat n).isAlphanum = true → isAtomic (Char.ofNat n) = true := by
    decide +kernel
  have hatomic := hall c.toNat (of_decide_eq_true (isAscii_of_isAlphanum h))
  rw [Char.ofNat_toNat] at hatomic
  exact hatomic h

theorem controlWords_typeset_iff {s : Text} (hs : ∀ c ∈ s, IsGlyph c ∨ c.isAlphanum = true) :
    ∃ latex, typeset .absent s = .ok latex ∧
      (controlWords latex = s.flatMap (fun c => controlWords (glyph c)) ↔
        s.IsChain fun c d => c ∈ openGlyphs → isLetter d = false) := by
  have hatomic : ∀ c ∈ s, isAtomic c = true := by
    have hall : (glyphs.map Prod.fst).all isAtomic = true := by decide
    intro c hc
    rcases hs c hc with h | h
    · exact List.all_eq_true.mp hall c h
    · exact isAtomic_of_isAlphanum h
  have hslash : '\\' ∉ s := by
    intro hmem
    rcases hs _ hmem with h | h
    · exact absurd h (by decide)
    · cases h
  refine ⟨_, typeset_atomic hatomic, ?_⟩
  rw [controlWords_spaceCommands]
  exact controlWords_replaceGlyphs_iff hslash

theorem controlWords_typeset_mixed :
    ∃ latex, typeset .absent "Δ2πrϕ°αο".toList = .ok latex ∧ controlWords latex =
      ["Delta".toList, "pi".toList, "varphi".toList, "circ".toList, "alpha".toList] := by
  have hall : "Δ2πrϕ°αο".toList.all (fun c => decide (IsGlyph c) || c.isAlphanum) = true := by
    decide
  obtain ⟨latex, hlatex, hiff⟩ := @controlWords_typeset_iff "Δ2πrϕ°αο".toList fun c hc => by
    simpa using List.all_eq_true.mp hall c hc
  exact ⟨latex, hlatex, (hiff.mpr (by decide)).trans (by decide +kernel)⟩

theorem controlWords_typeset_glued :
    typeset .absent "Δx".toList = .ok "\\Deltax".toList ∧
      controlWords "\\Deltax".toList = ["Deltax".toList] ∧
      "Δx".toList.flatMap (fun c => controlWords (glyph c)) = ["Delta".toList] ∧
      IsGlyph 'Δ' ∧ 'x'.isAlphanum = true := by
  decide +kernel

end WorksheetTex
