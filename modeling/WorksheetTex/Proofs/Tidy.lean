import WorksheetTex.Proofs.Assembly

namespace WorksheetTex

open Text Tex Form Vocabulary

namespace Text

inductive Tidy : Text → Prop
  | word {w : Text} : IsWord w → Tidy w
  | cons {w t : Text} : IsWord w → Tidy t → Tidy (w ++ ' ' :: t)

theorem Tidy.spaced {s t : Text} (hs : Tidy s) (ht : Tidy t) : Tidy (s ++ ' ' :: t) := by
  induction hs with
  | word hw => exact .cons hw ht
  | cons hw _ ih =>
      rw [List.append_assoc]
      exact .cons hw ih

theorem Tidy.append {s t : Text} (hs : Tidy s) (ht : Tidy t) : Tidy (s ++ t) := by
  induction hs with
  | word hw =>
      cases ht with
      | word hv => exact .word (hw.append hv.not_blank)
      | cons hv hu =>
          rw [← List.append_assoc]
          exact .cons (hw.append hv.not_blank) hu
  | cons hw _ ih =>
      rw [List.append_assoc]
      exact .cons hw ih

theorem Tidy.words_ne_nil {t : Text} (h : Tidy t) : words t ≠ [] := by
  cases h with
  | word hw => simp [words_word hw]
  | cons hw _ => simp [words_word_blank hw (show isBlank ' ' = true by decide)]

theorem Tidy.collapseBlanks {t : Text} (h : Tidy t) : collapseBlanks t = t := by
  unfold Text.collapseBlanks
  induction h with
  | word hw => simp [words_word hw, joinWith, List.intercalate]
  | cons hw ht ih =>
      rw [words_word_blank hw (by decide), joinWith_cons ht.words_ne_nil, ih, List.append_assoc]
      rfl

theorem isWord_of_mem_words {t w : Text} (h : w ∈ words t) : IsWord w := by
  induction t using words_induct with
  | nil => cases h
  | blank c r hc ih => exact ih (words_blank hc r ▸ h)
  | word v hv =>
      rw [words_word hv] at h
      exact List.mem_singleton.mp h ▸ hv
  | cons v c r hv hc ih =>
      rw [words_word_blank hv hc] at h
      rcases List.mem_cons.mp h with rfl | h
      · exact hv
      · exact ih h

theorem Tidy.joinWith {sep : Text} (hsep : ∀ s t, Tidy s → Tidy t → Tidy (s ++ sep ++ t))
    {ts : List Text} (hne : ts ≠ []) (h : ∀ t ∈ ts, Tidy t) : Tidy (joinWith sep ts) := by
  induction ts with
  | nil => exact absurd rfl hne
  | cons t ts ih =>
      have ht := h t List.mem_cons_self
      cases ts with
      | nil => simpa [Text.joinWith] using ht
      | cons u us =>
          rw [joinWith_cons (List.cons_ne_nil u us)]
          exact hsep _ _ ht (ih (List.cons_ne_nil u us) fun x hx => h x (List.mem_cons_of_mem _ hx))

theorem tidy_iff {t : Text} : Tidy t ↔ t ≠ [] ∧ Text.collapseBlanks t = t := by
  constructor
  · intro h
    refine ⟨?_, h.collapseBlanks⟩
    rintro rfl
    exact h.words_ne_nil rfl
  · rintro ⟨hne, heq⟩
    rw [← heq]
    refine .joinWith (fun s t hs ht => ?_) ?_ fun w hw => .word (isWord_of_mem_words hw)
    · rw [List.append_assoc]
      exact hs.spaced ht
    · intro hwords
      rw [Text.collapseBlanks, hwords] at heq
      exact hne heq.symm

instance (t : Text) : Decidable (Tidy t) :=
  decidable_of_iff _ tidy_iff.symm

namespace Tidy

variable {s t : Text} {ts : List Text}

theorem group (h : Tidy t) : Tidy (group t) := by
  have hopen : Tidy ['{'] := by decide
  have hclose : Tidy ['}'] := by decide
  exact (hopen.append h).append hclose

theorem sup (h : Tidy t) : Tidy (sup t) := by
  have hcaret : Tidy ['^'] := by decide
  exact hcaret.append h.group

theorem upright (h : Tidy t) : Tidy (upright t) := by
  have hcommand : Tidy "\\mathrm" := by decide
  exact hcommand.append h.group

theorem operatorName (h : Tidy t) : Tidy (operatorName t) := by
  have hcommand : Tidy "\\operatorname" := by decide
  exact hcommand.append h.group

theorem joinAround {w : Text} (hw : Tidy w) (hne : ts ≠ []) (h : ∀ t ∈ ts, Tidy t) :
    Tidy (Text.joinWith (' ' :: w ++ [' ']) ts) := by
  refine joinWith (fun s t hs ht => ?_) hne h
  have hspaced := hs.spaced (hw.spaced ht)
  simpa using hspaced

theorem render {op : Operator} (h : ∀ t ∈ ts, Tidy t) (ht : op.render ts = some t) : Tidy t := by
  cases ts with
  | nil => cases op <;> cases ht
  | cons a as =>
      have ha := h a List.mem_cons_self
      have hne := List.cons_ne_nil a as
      cases op with
      | plus =>
          obtain rfl := Option.some.inj ht
          exact joinAround (w := ['+']) (by decide) hne h
      | times =>
          obtain rfl := Option.some.inj ht
          exact joinAround (w := "\\cdot") (by decide) hne h
      | minus =>
          cases as with
          | nil =>
              obtain rfl := Option.some.inj ht
              have hsign : Tidy ['-'] := by decide
              exact hsign.append ha
          | cons b bs =>
              obtain rfl := Option.some.inj ht
              exact joinAround (w := ['-']) (by decide) hne h
      | divide =>
          cases as with
          | nil => cases ht
          | cons b bs =>
              obtain rfl := Option.some.inj ht
              have hcommand : Tidy "\\frac" := by decide
              exact (hcommand.append ha.group).append (h b (by simp)).group
      | power =>
          cases as with
          | nil => cases ht
          | cons b bs =>
              obtain rfl := Option.some.inj ht
              refine append ?_ (h b (by simp)).sup
              split
              · exact ha
              · exact ha.group

theorem fillSlots_word {w : Text} (hw : IsWord w) (ht : Tidy t) : Tidy (fillSlots w t) := by
  obtain ⟨hne, hblank⟩ := hw
  induction w with
  | nil => exact absurd rfl hne
  | cons c w ih =>
      have hpart : Tidy (if c = '#' then t else [c]) := by
        split
        · exact ht
        · exact .word ⟨by simp, by simpa using hblank c List.mem_cons_self⟩
      have hcons : fillSlots (c :: w) t = (if c = '#' then t else [c]) ++ fillSlots w t := rfl
      rw [hcons]
      cases w with
      | nil => simpa [fillSlots] using hpart
      | cons d w =>
          exact hpart.append (ih (by simp) fun x hx => hblank x (List.mem_cons_of_mem _ hx))

theorem fillSlots (hs : Tidy s) (ht : Tidy t) : Tidy (fillSlots s t) := by
  induction hs with
  | word hw => exact fillSlots_word hw ht
  | cons hw _ ih =>
      rw [fillSlots_append]
      exact (fillSlots_word hw ht).spaced ih

theorem applyTemplate (hs : Tidy s) (ht : Tidy t) : Tidy (applyTemplate s t) := by
  have hopen : Tidy ['('] := by decide
  have hclose : Tidy [')'] := by decide
  rw [Vocabulary.applyTemplate]
  split
  · exact hs.fillSlots ht
  · exact ((hs.append hopen).append ht).append hclose

end Tidy

end Text

end WorksheetTex
