import WorksheetTex.Proofs.Assembly
import WorksheetTex.Proofs.Depth
import WorksheetTex.Proofs.Lexicon
import WorksheetTex.Proofs.Recogniser

namespace WorksheetTex.Evaluation

open Text Paren Vocabulary Form Tex

def IsBreak (c : Char) : Prop :=
  c ≠ openMark ∧ c ≠ closeMark ∧ c.isDigit = false

theorem isBreak_of_not_isAtomic {c : Char} (h : isAtomic c = false) : IsBreak c := by
  refine ⟨by rintro rfl; revert h; decide, by rintro rfl; revert h; decide, ?_⟩
  refine Bool.eq_false_iff.mpr fun hd => ?_
  rw [(isAtomic_of_isDigit hd).1] at h
  cases h

theorem isBreak_paren : IsBreak '(' ∧ IsBreak ')' :=
  ⟨isBreak_of_not_isAtomic not_isAtomic_parens.1, isBreak_of_not_isAtomic not_isAtomic_parens.2⟩

theorem not_mem_reference {c : Char} (h : IsBreak c) (n : Nat) : c ∉ reference n := by
  intro hc
  simp only [reference, List.cons_append, List.mem_cons, List.mem_append, List.not_mem_nil,
    or_false] at hc
  rcases hc with hc | hc | hc
  · exact h.1 hc
  · have := isDigit_of_mem_toDigits hc
    rw [h.2.2] at this
    cases this
  · exact h.2.1 hc

theorem not_isBreak_of_referenceRule {before t : Text} {n k : Nat}
    (h : referenceRule before t = some (n, k)) : ∀ c ∈ t.take n, ¬ IsBreak c := by
  intro c hc hbreak
  obtain ⟨ds, r, rfl, hds, hanswer⟩ := eq_of_referenceRule h
  have hform : openMark :: (ds ++ closeMark :: r) = openMark :: (ds ++ [closeMark]) ++ r := by simp
  rw [hform, (Prod.mk.inj hanswer).1, List.take_left' (by simp)] at hc
  simp only [List.mem_cons, List.mem_append, List.not_mem_nil, or_false] at hc
  rcases hc with hc | hc | hc
  · exact hbreak.1 hc
  · have := hbreak.2.2
    rw [hds c hc] at this
    cases this
  · exact hbreak.2.1 hc

@[simp] theorem replaceGlyphs_reference (n : Nat) : replaceGlyphs (reference n) = reference n := by
  refine replaceGlyphs_of_stable fun c hc => ?_
  simp only [reference, List.cons_append, List.mem_cons, List.mem_append, List.not_mem_nil,
    or_false] at hc
  rcases hc with rfl | hc | rfl
  · decide
  · exact glyph_ascii (isAtomic_of_isDigit (isDigit_of_mem_toDigits hc)).2
  · decide

namespace Sealed

variable {m : Char} {k : Nat} {s t : Text}

theorem tail {c : Char} (h : Sealed m k (c :: t)) (hc : c ≠ openMark) : Sealed m k t := by
  generalize hx : c :: t = x at h
  cases h with
  | nil => cases hx
  | keep _ ht =>
      obtain ⟨_, rfl⟩ := List.cons.inj hx
      exact ht
  | reference _ _ => exact absurd (List.cons.inj hx).1 hc

theorem split {c : Char} (hc : IsBreak c) (h : Sealed m k (s ++ c :: t)) :
    Sealed m k s ∧ Sealed m k t := by
  generalize hx : s ++ c :: t = x at h
  induction h generalizing s with
  | nil => simp at hx
  | @keep d r hd hr ih =>
      cases s with
      | nil =>
          obtain ⟨_, rfl⟩ := List.cons.inj hx
          exact ⟨.nil, hr⟩
      | cons a s =>
          obtain ⟨rfl, hrest⟩ := List.cons.inj hx
          obtain ⟨hs, ht⟩ := ih hrest
          exact ⟨.keep hd hs, ht⟩
  | @reference n r hn hr ih =>
      rcases List.append_eq_append_iff.mp hx with ⟨u, hu, hv⟩ | ⟨u, hu, hv⟩
      · cases u with
        | nil =>
            rw [List.append_nil] at hu
            obtain rfl : r = c :: t := by simpa using hv.symm
            have hs : Sealed m k (Evaluation.reference n ++ []) := .reference hn .nil
            rw [List.append_nil, hu] at hs
            exact ⟨hs, hr.tail hc.1⟩
        | cons d u =>
            obtain rfl : c = d := (List.cons.inj hv).1
            exact absurd (by rw [hu]; simp) (not_mem_reference hc n)
      · obtain ⟨hu', ht⟩ := ih hv.symm
        rw [hu]
        exact ⟨.reference hn hu', ht⟩

section Closure

variable (hm : m = openMark ∨ m = closeMark)

include hm

theorem ascii (h : t.all isAscii = true) : Sealed m k t := by
  refine of_not_mem fun hmem => ?_
  have hascii : isAscii m = true := List.all_eq_true.mp h m hmem
  rcases hm with rfl | rfl <;> exact absurd hascii (by decide)

theorem replaceGlyphs (h : Sealed m k t) : Sealed m k (replaceGlyphs t) := by
  induction h with
  | nil => exact .nil
  | @keep c t hc _ ih =>
      rw [replaceGlyphs_cons]
      refine Sealed.append ?_ ih
      rcases glyph_cases c with hg | hg
      · rw [hg]
        exact .keep hc .nil
      · exact ascii hm (List.all_eq_true.mpr (ascii_of_mem_glyphs hg).2)
  | @reference n t hn _ ih =>
      rw [replaceGlyphs_append, replaceGlyphs_reference]
      exact .reference hn ih

omit k in
theorem not_mem_replaceGlyphs (ht : m ∉ t) : m ∉ Vocabulary.replaceGlyphs t :=
  ((of_not_mem ht).replaceGlyphs hm (k := 0)).not_mem

omit hm in
theorem fillSlots (hs : Sealed m k s) (ht : Sealed m k t) : Sealed m k (fillSlots s t) := by
  induction hs with
  | nil => exact .nil
  | @keep c s hc _ ih =>
      have hstep : Vocabulary.fillSlots (c :: s) t =
          (if c = '#' then t else [c]) ++ Vocabulary.fillSlots s t := rfl
      rw [hstep]
      refine Sealed.append ?_ ih
      split
      · exact ht
      · exact .keep hc .nil
  | @reference n s hn _ ih =>
      have hslot : '#' ∉ Evaluation.reference n :=
        not_mem_reference ⟨by decide, by decide, by decide⟩ n
      rw [fillSlots_append, fillSlots_of_not_mem hslot]
      exact .reference hn ih

theorem composes (k : Nat) : Composes (Sealed m k) where
  assembles := assembles_of_ascii append (ascii hm)
  slots := fillSlots

theorem around {c : Char} (hc : isAtomic c = false) (h : Sealed m k (s ++ c :: t)) :
    Sealed m k (s ++ [c]) ∧ Sealed m k s ∧ Sealed m k (c :: t) ∧ Sealed m k t := by
  have hbreak := isBreak_of_not_isAtomic hc
  have hne : c ≠ m := by
    rcases hm with rfl | rfl
    · exact hbreak.1
    · exact hbreak.2.1
  obtain ⟨hs, ht⟩ := h.split hbreak
  exact ⟨hs.append (.keep hne .nil), hs, .keep hne ht, ht⟩

theorem hereditary (k : Nat) : Hereditary (Sealed m k) where
  cut := by
    intro s t hseam h
    cases t with
    | nil =>
        rw [List.append_nil] at h
        exact ⟨h, .nil⟩
    | cons d t =>
        cases hs : s.getLast? with
        | none =>
            obtain rfl := List.getLast?_eq_none_iff.mp hs
            exact ⟨.nil, h⟩
        | some c =>
            obtain ⟨s, rfl⟩ := List.getLast?_eq_some_iff.mp hs
            cases hc : isAtomic c with
            | false =>
                rw [List.append_assoc] at h
                obtain ⟨hleft, _, _, hright⟩ := around hm hc h
                exact ⟨hleft, hright⟩
            | true =>
                obtain ⟨_, hleft, hright, _⟩ := around hm (hseam c hs d rfl hc) h
                exact ⟨hleft, hright⟩
  head := by
    intro c r hc h
    refine (h.tail (by decide)).tail ?_
    rintro rfl
    revert hc
    decide

end Closure

end Sealed

def Avoids (lex : Lexicon) (m : Char) : Prop :=
  lex.All fun v => m ∉ v

theorem avoids_default {m : Char} (hm : m = openMark ∨ m = closeMark) :
    Avoids (.ofDeclarations {}) m := by
  refine Lexicon.all_ofDeclarations ?_ (by simp)
  rcases hm with rfl | rfl
  · decide +kernel
  · decide +kernel

section Inherits

variable {m : Char} (hm : m = openMark ∨ m = closeMark) {lex : Lexicon} (hlex : Avoids lex m)

include hm

theorem rewrites_bareTagRule_sealed (k : Nat) :
    Rewrites (Sealed m k) (Sealed m k) bareTagRule := by
  refine rewrites_bareTagRule (Sealed.hereditary hm k) .nil fun c t hc h => h.tail ?_
  rintro rfl
  revert hc
  decide

include hlex

theorem inherits_sealed (k : Nat) : Inherits lex (Sealed m k) (Sealed m k) where
  hereditary := Sealed.hereditary hm k
  composes := Sealed.composes hm k
  written := id
  lexicon := hlex.mono fun _ => .of_not_mem

theorem sealed_labelPiece {k : Nat} (kind : Text) {name : Text} (h : Sealed m k name) :
    Sealed m k (labelPiece lex kind name) :=
  inherits_labelPiece (inherits_sealed hm hlex k) (fun _ => .replaceGlyphs hm) kind h

end Inherits

end WorksheetTex.Evaluation
