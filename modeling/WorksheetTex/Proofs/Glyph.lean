import WorksheetTex.Evaluation.Collapse

namespace WorksheetTex.Vocabulary

open Text Evaluation

theorem glyph_cases (c : Char) : glyph c = [c] ∨ (c, glyph c) ∈ glyphs := by
  unfold glyph
  cases h : glyphs.lookup c with
  | none => exact .inl rfl
  | some t =>
      obtain ⟨l₁, l₂, hl, -⟩ := List.lookup_eq_some_iff.mp h
      right
      rw [hl]
      simp

def isAscii (c : Char) : Bool :=
  decide (c.toNat < 128)

theorem ascii_of_mem_glyphs {p : Char × Text} (h : p ∈ glyphs) :
    isAscii p.1 = false ∧ ∀ c ∈ p.2, isAscii c = true := by
  have hall : ∀ p ∈ glyphs, isAscii p.1 = false ∧ p.2.all isAscii = true := by decide
  exact ⟨(hall p h).1, List.all_eq_true.mp (hall p h).2⟩

theorem glyph_ascii {c : Char} (h : isAscii c = true) : glyph c = [c] := by
  rcases glyph_cases c with hc | hc
  · exact hc
  · have := (ascii_of_mem_glyphs hc).1
    simp [h] at this

theorem glyph_of_mem_glyph {c x : Char} (h : x ∈ glyph c) : glyph x = [x] := by
  rcases glyph_cases c with hc | hc
  · obtain rfl : x = c := by simpa [hc] using h
    exact hc
  · exact glyph_ascii ((ascii_of_mem_glyphs hc).2 x h)

theorem glyph_ne_nil (c : Char) : glyph c ≠ [] := by
  rcases glyph_cases c with hc | hc
  · simp [hc]
  · have hall : ∀ p ∈ glyphs, p.2 ≠ [] := by decide
    exact hall _ hc

theorem isAtomic_of_mem_glyph {c x : Char} (hc : isAtomic c = true) (h : x ∈ glyph c) :
    isAtomic x = true := by
  rcases glyph_cases c with hg | hg
  · obtain rfl : x = c := by simpa [hg] using h
    exact hc
  · have hall : ∀ p ∈ glyphs, p.2.all isAtomic = true := by decide
    exact List.all_eq_true.mp (hall _ hg) x h

theorem isAtomic_of_toNat {c : Char} (hlow : 42 ≤ c.toNat) (hhigh : c.toNat < 128) :
    isAtomic c = true ∧ isAscii c = true := by
  have hp : c ≠ '(' ∧ c ≠ ')' := by
    constructor <;> rintro rfl <;> simp at hlow
  constructor
  · simp only [isAtomic, isParen, isBlank, blankRanges, List.any_cons, List.any_nil]
    simp [hp]
    omega
  · exact decide_eq_true hhigh

theorem toNat_of_isDigit {c : Char} (h : c.isDigit = true) : 48 ≤ c.toNat ∧ c.toNat ≤ 57 := by
  obtain ⟨hlow, hhigh⟩ := Bool.and_eq_true_iff.mp h
  exact ⟨UInt32.le_iff_toNat_le.mp (of_decide_eq_true hlow),
    UInt32.le_iff_toNat_le.mp (of_decide_eq_true hhigh)⟩

theorem isAtomic_of_isDigit {c : Char} (h : c.isDigit = true) :
    isAtomic c = true ∧ isAscii c = true := by
  have hc := toNat_of_isDigit h
  exact isAtomic_of_toNat (by omega) (by omega)

theorem isAscii_of_isAlphanum {c : Char} (h : c.isAlphanum = true) : isAscii c = true := by
  have hcases : (c.isUpper || c.isLower || c.isDigit) = true := h
  have hbound {d : Char} (hd : d.val ≤ '\x7f'.val) (hc : c.val ≤ d.val) : isAscii c = true :=
    decide_eq_true (Nat.lt_succ_of_le (UInt32.le_trans hc hd))
  rw [Bool.or_eq_true, Bool.or_eq_true] at hcases
  rcases hcases with (h | h) | h
  · exact @hbound 'Z' (by decide) (of_decide_eq_true h).2
  · exact @hbound 'z' (by decide) (of_decide_eq_true (Bool.and_eq_true_iff.mp h).2)
  · exact (isAtomic_of_isDigit h).2

theorem isAscii_of_isLatin {c : Char} (h : isLatin c = true) : isAscii c = true :=
  isAscii_of_isAlphanum (by simp [Char.isAlphanum, show c.isAlpha = true from h])

@[simp] theorem replaceGlyphs_nil : replaceGlyphs [] = [] := rfl

@[simp] theorem replaceGlyphs_cons (c : Char) (r : Text) :
    replaceGlyphs (c :: r) = glyph c ++ replaceGlyphs r := by
  simp [replaceGlyphs]

theorem replaceGlyphs_of_stable {t : Text} (h : ∀ c ∈ t, glyph c = [c]) : replaceGlyphs t = t := by
  induction t with
  | nil => rfl
  | cons c r ih =>
      rw [replaceGlyphs_cons, h c (by simp), ih fun x hx => h x (by simp [hx])]
      rfl

theorem replaceGlyphs_ascii {t : Text} (h : t.all isAscii = true) : replaceGlyphs t = t :=
  replaceGlyphs_of_stable fun c hc => glyph_ascii (List.all_eq_true.mp h c hc)

theorem mem_replaceGlyphs {t : Text} {x : Char} (h : x ∈ replaceGlyphs t) :
    ∃ c ∈ t, x ∈ glyph c :=
  List.mem_flatMap.mp h

@[simp] theorem replaceGlyphs_idem (t : Text) :
    replaceGlyphs (replaceGlyphs t) = replaceGlyphs t := by
  refine replaceGlyphs_of_stable fun x hx => ?_
  obtain ⟨c, -, hc⟩ := mem_replaceGlyphs hx
  exact glyph_of_mem_glyph hc

theorem replaceGlyphs_ne_nil {t : Text} (h : t ≠ []) : replaceGlyphs t ≠ [] := by
  cases t with
  | nil => exact absurd rfl h
  | cons c r => simp [glyph_ne_nil]

theorem length_le_replaceGlyphs (t : Text) : t.length ≤ (replaceGlyphs t).length := by
  induction t with
  | nil => exact Nat.le_refl _
  | cons c r ih =>
      have hc : 0 < (glyph c).length := List.length_pos_iff.mpr (glyph_ne_nil c)
      rw [replaceGlyphs_cons, List.length_append, List.length_cons]
      omega

theorem eq_of_replaceGlyphs_eq {t w : Text}
    (hw : (glyphs.all fun p => p.2.any fun c => !w.contains c) = true) (h : replaceGlyphs t = w) :
    t = w := by
  refine h ▸ (replaceGlyphs_of_stable fun c hc => ?_).symm
  rcases glyph_cases c with hg | hg
  · exact hg
  · obtain ⟨x, hx, hxw⟩ := List.any_eq_true.mp (List.all_eq_true.mp hw _ hg)
    have hmem : x ∈ replaceGlyphs t := List.mem_flatMap.mpr ⟨c, hc, hx⟩
    rw [h] at hmem
    simp [hmem] at hxw

end WorksheetTex.Vocabulary
