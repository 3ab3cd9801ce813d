import WorksheetTex.Proofs.Layer
import WorksheetTex.Proofs.Sweep

namespace WorksheetTex

open Text Tex Paren Vocabulary Form Evaluation

namespace Text

variable {β : Type} {rule : Rule β} {before t : Text} {k : Nat}

theorem mem_of_keep_mem {c : Char} (h : .keep c ∈ segmentsFrom rule before k t) : c ∈ t := by
  induction t generalizing before k with
  | nil => cases h
  | cons d t ih =>
      cases k with
      | succ k => exact List.mem_cons_of_mem d (ih h)
      | zero =>
          rw [segmentsFrom] at h
          split at h
          · exact List.mem_cons_of_mem d (ih (by simpa using h))
          · rcases List.mem_cons.mp h with h | h
            · rw [Segment.keep.inj h]
              exact List.mem_cons_self
            · exact List.mem_cons_of_mem d (ih h)

theorem keep_mem_of_mem {c : Char}
    (hrule : ∀ before t n b, rule before t = some (n, b) → c ∉ t.take n) (h : c ∈ t.drop k) :
    .keep c ∈ segmentsFrom rule before k t := by
  induction t generalizing before k with
  | nil => simp at h
  | cons d t ih =>
      cases k with
      | succ k => exact ih h
      | zero =>
          rw [segmentsFrom]
          split
          · next n b hhit =>
              have htaken := hrule _ _ _ _ hhit
              rw [List.take_succ_cons, List.mem_cons, not_or] at htaken
              have hlater : c ∈ t := (List.mem_cons.mp h).resolve_left htaken.1
              rw [← List.take_append_drop n t, List.mem_append] at hlater
              exact List.mem_cons_of_mem _ (ih (hlater.resolve_left htaken.2))
          · rcases List.mem_cons.mp h with rfl | h
            · exact List.mem_cons_self
            · exact List.mem_cons_of_mem _ (ih h)

theorem exists_of_hit_mem {b : β} (h : .hit b ∈ segmentsFrom rule before k t) :
    ∃ before' s n, s <:+ t ∧ rule before' s = some (n, b) := by
  have later {d : Char} {t : Text}
      (hlater : ∃ before' s n, s <:+ t ∧ rule before' s = some (n, b)) :
      ∃ before' s n, s <:+ d :: t ∧ rule before' s = some (n, b) := by
    obtain ⟨before', s, n, hs, hrule⟩ := hlater
    exact ⟨before', s, n, List.IsSuffix.trans hs (List.suffix_cons d t), hrule⟩
  induction t generalizing before k with
  | nil => cases h
  | cons d t ih =>
      cases k with
      | succ k => exact later (ih h)
      | zero =>
          rw [segmentsFrom] at h
          split at h
          · next n a hrule =>
              rcases List.mem_cons.mp h with h | h
              · rw [← Segment.hit.inj h] at hrule
                exact ⟨before, d :: t, n + 1, List.suffix_refl _, hrule⟩
              · exact later (ih h)
          · exact later (ih (by simpa using h))

theorem mem_joinWith_iff {separator : Text} {ts : List Text} {c : Char} (hc : c ∉ separator) :
    c ∈ joinWith separator ts ↔ ∃ t ∈ ts, c ∈ t := by
  induction ts with
  | nil => simp [joinWith]
  | cons t ts ih =>
      cases ts with
      | nil => simp [joinWith]
      | cons u ts =>
          rw [joinWith_cons (List.cons_ne_nil u ts), List.mem_append, List.mem_append, ih]
          simp [hc]

theorem mem_words_iff {t : Text} {c : Char} (hc : isBlank c = false) :
    (∃ w ∈ words t, c ∈ w) ↔ c ∈ t := by
  have hne {b : Char} (hb : isBlank b = true) : c ≠ b := by
    rintro rfl
    rw [hc] at hb
    cases hb
  induction t using words_induct with
  | nil => simp [words]
  | blank b r hb ih =>
      rw [words_blank hb, List.mem_cons, or_iff_right (hne hb)]
      exact ih
  | word w hw => simp [words_word hw]
  | cons w b r hw hb ih =>
      rw [words_word_blank hw hb, List.mem_append, List.mem_cons, or_iff_right (hne hb)]
      simp only [List.mem_cons, exists_eq_or_imp]
      exact or_congr_right ih

theorem mem_collapseBlanks_iff {t : Text} {c : Char} (hc : isBlank c = false) :
    c ∈ collapseBlanks t ↔ c ∈ t := by
  have hspace : c ∉ [' '] := by
    rw [List.mem_singleton]
    rintro rfl
    cases hc
  rw [collapseBlanks, mem_joinWith_iff hspace, mem_words_iff hc]

end Text

theorem Tex.Spacer.mem_run_iff {σ : Type} (p : Spacer σ) (s : σ) {t : Text} {c : Char}
    (hc : c ≠ ' ') : c ∈ p.run s t ↔ c ∈ t := by
  induction t generalizing s with
  | nil => rfl
  | cons d t ih =>
      rw [Spacer.run]
      split <;> simp [ih, hc]

theorem Tex.mem_spaceCommands_iff {t : Text} {c : Char} (hc : c ≠ ' ') :
    c ∈ spaceCommands t ↔ c ∈ t := by
  rw [spaceCommands, Spacer.mem_run_iff _ _ hc, Spacer.mem_run_iff _ _ hc]

theorem forall₂_of_mapM {α β : Type} {f : α → Except Fault β} {as : List α} {bs : List β}
    (h : as.mapM f = .ok bs) : List.Forall₂ (fun a b => f a = .ok b) as bs := by
  induction as generalizing bs with
  | nil =>
      obtain rfl := Except.ok.inj h
      exact .nil
  | cons a as ih =>
      rw [List.mapM_cons] at h
      obtain ⟨b, hb, h⟩ := exists_of_bind_ok h
      obtain ⟨cs, hcs, h⟩ := exists_of_bind_ok h
      obtain rfl := Except.ok.inj h
      exact .cons hb (ih hcs)

theorem Form.traverseList_eq_mapM {α β : Type} (f : α → Except Fault β) (as : List α) :
    traverseList f as = as.mapM f := by
  induction as with
  | nil => rfl
  | cons a as ih =>
      rw [List.mapM_cons, traverseList, ih]

theorem exists_mem_iff_of_forall₂ {α β : Type} {P : α → Prop} {Q : β → Prop} {as : List α}
    {bs : List β} (h : List.Forall₂ (fun a b => Q b ↔ P a) as bs) :
    (∃ b ∈ bs, Q b) ↔ ∃ a ∈ as, P a := by
  induction h with
  | nil => simp
  | cons hab _ ih => simp [hab, ih]

namespace Evaluation

section Stow

variable {pieces : List Text} {segs : List (Segment Text)}

theorem mem_of_mem_stow {c : Char} (hc : IsBreak c) (h : c ∈ (stow pieces segs).1) :
    .keep c ∈ segs := by
  induction segs generalizing pieces with
  | nil => cases h
  | cons seg segs ih =>
      cases seg with
      | keep d =>
          rcases List.mem_cons.mp h with rfl | h
          · exact List.mem_cons_self
          · exact List.mem_cons_of_mem _ (ih h)
      | hit p =>
          rcases List.mem_append.mp h with h | h
          · exact absurd h (not_mem_reference hc _)
          · exact List.mem_cons_of_mem _ (ih h)

theorem mem_or_hit_of_mem_stow {p : Text} (h : p ∈ (stow pieces segs).2) :
    p ∈ pieces ∨ .hit p ∈ segs := by
  induction segs generalizing pieces with
  | nil => exact .inl h
  | cons seg segs ih =>
      cases seg with
      | keep d => exact (ih h).imp_right (List.mem_cons_of_mem _)
      | hit q =>
          rcases ih h with h | h
          · rcases List.mem_append.mp h with h | h
            · exact .inl h
            · exact .inr (by simp [List.mem_singleton.mp h])
          · exact .inr (List.mem_cons_of_mem _ h)

end Stow

theorem mem_of_mem_balanceFrom {d : Nat} {t : Text} {c : Char} (hc : c ≠ ')')
    (h : c ∈ balanceFrom d t) : c ∈ t := by
  induction t generalizing d with
  | nil => exact absurd (List.eq_of_mem_replicate h) hc
  | cons x t ih =>
      have hkeep {k : Nat} (h : c ∈ x :: balanceFrom k t) : c ∈ x :: t := by
        rcases List.mem_cons.mp h with rfl | h
        · exact List.mem_cons_self
        · exact List.mem_cons_of_mem x (ih h)
      rcases paren_cases x with rfl | rfl | hx
      · exact hkeep (k := d + 1) h
      · cases d with
        | zero => exact List.mem_cons_of_mem _ (ih h)
        | succ d => exact hkeep (k := d) h
      · have hstep : balanceFrom d (x :: t) = x :: balanceFrom d t := by
          simp [balanceFrom, ne_of_not_paren hx]
        exact hkeep (hstep ▸ h)

theorem mem_of_mem_dropTags {t : Text} {c : Char} (h : c ∈ dropTags t) : c ∈ t := by
  obtain ⟨seg, hseg, hc⟩ := List.mem_flatMap.mp h
  cases seg with
  | keep d =>
      obtain rfl := List.mem_singleton.mp hc
      exact mem_of_keep_mem hseg
  | hit p =>
      obtain ⟨_, _, _, _, hrule⟩ := exists_of_hit_mem hseg
      obtain ⟨_, hscan, -⟩ := Scan.eq_of_rule hrule
      obtain ⟨_, _, _, _, _, rfl⟩ := eq_of_bareTagScan hscan
      cases hc

inductive Reaches (pieces : List Text) : Text → Text → Prop
  | self (t : Text) : Reaches pieces t t
  | piece {t p q : Text} {n : Nat} : .hit n ∈ segments referenceRule t → pieces[n]? = some p →
      Reaches pieces p q → Reaches pieces t q

theorem Reaches.eq_or_mem {pieces : List Text} {t q : Text} (h : Reaches pieces t q) :
    q = t ∨ q ∈ pieces := by
  induction h with
  | self t => exact .inl rfl
  | piece _ hp _ ih => exact .inr (ih.elim (fun hq => hq ▸ List.mem_of_getElem? hp) id)

def Yields (pieces : List Text) (c : Char) : Segment Nat → Prop
  | .keep d => c = d
  | .hit n => ∃ p, pieces[n]? = some p ∧ ∃ q, Reaches pieces p q ∧ c ∈ q

theorem exists_yields_iff (pieces : List Text) {t : Text} {c : Char} (hc : IsBreak c) :
    (∃ seg ∈ segments referenceRule t, Yields pieces c seg) ↔
      ∃ q, Reaches pieces t q ∧ c ∈ q := by
  constructor
  · rintro ⟨seg, hseg, hyields⟩
    cases seg with
    | keep d =>
        obtain rfl : c = d := hyields
        exact ⟨t, .self t, mem_of_keep_mem hseg⟩
    | hit n =>
        obtain ⟨p, hp, q, hreach, hmem⟩ := hyields
        exact ⟨q, .piece hseg hp hreach, hmem⟩
  · rintro ⟨q, hreach, hmem⟩
    cases hreach with
    | self =>
        refine ⟨.keep c, keep_mem_of_mem (fun before t n b hrule htaken => ?_) hmem, rfl⟩
        exact not_isBreak_of_referenceRule hrule c htaken hc
    | piece hseg hp hreach => exact ⟨.hit _, hseg, _, hp, q, hreach, hmem⟩

theorem mem_expand_iff {pieces : List Text} {fuel : Nat} {c : Char} (hc : IsBreak c) {t v : Text}
    (h : expand pieces fuel t = .ok v) : c ∈ v ↔ ∃ q, Reaches pieces t q ∧ c ∈ q := by
  induction fuel generalizing t v with
  | zero => cases h
  | succ fuel ih =>
      obtain ⟨ts, hts, h⟩ := exists_of_bind_ok h
      obtain rfl := Except.ok.inj h
      rw [List.mem_flatten, ← exists_yields_iff pieces hc]
      refine exists_mem_iff_of_forall₂ ((forall₂_of_mapM hts).imp fun seg u hu => ?_)
      cases seg with
      | keep d =>
          obtain rfl := Except.ok.inj hu
          exact List.mem_singleton
      | hit n =>
          dsimp only at hu
          split at hu
          · next hp =>
              obtain rfl := Except.ok.inj hu
              simp [Yields, hp]
          · next p hp => simp [Yields, hp, ih hu]

end Evaluation

end WorksheetTex
