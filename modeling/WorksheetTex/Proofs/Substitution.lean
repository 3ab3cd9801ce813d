import WorksheetTex.Proofs.Apart

namespace WorksheetTex.Text

def wordRule (w latex : Text) : Rule Text := fun _ t =>
  if w.isPrefixOf t then some (w.length, latex) else none

theorem isLocal_wordRule (w latex : Text) : (wordRule w latex).IsLocal := fun _ _ => rfl

theorem replaceAll_wordRule_singleton (c : Char) (latex t : Text) :
    replaceAll (wordRule [c] latex) t = t.flatMap fun d => if d = c then latex else [d] := by
  induction t with
  | nil => rfl
  | cons d t ih =>
      rw [List.flatMap_cons, ← ih]
      by_cases hd : d = c
      · have hrule : wordRule [c] latex [] ([d] ++ t) = some ([d].length, latex) := by
          simp [wordRule, hd]
        have hsource : d :: t = [d] ++ t := rfl
        rw [if_pos hd, hsource, replaceAll,
          segments_hit (isLocal_wordRule _ _) (List.cons_ne_nil d []) hrule]
        rfl
      · have hrule : wordRule [c] latex [] (d :: t) = none := by
          simp [wordRule, Ne.symm hd]
        rw [if_neg hd, replaceAll, segments_keep (isLocal_wordRule _ _) hrule]
        rfl

end WorksheetTex.Text

namespace WorksheetTex.Vocabulary

open Text Evaluation

def replaceEach (table : List (Char × Text)) (t : Text) : Text :=
  table.foldl (fun t e => replaceAll (wordRule [e.1] e.2) t) t

def Separate (table : List (Char × Text)) : Prop :=
  ∀ e ∈ table, ∀ c ∈ e.2, c ∉ table.map Prod.fst

theorem Separate.tail {e : Char × Text} {table : List (Char × Text)}
    (h : Separate (e :: table)) : Separate table :=
  fun e' he' c hc hmem => h e' (List.mem_cons_of_mem e he') c hc (List.mem_cons_of_mem e.1 hmem)

theorem lookup_of_not_mem {table : List (Char × Text)} {c : Char}
    (h : c ∉ table.map Prod.fst) : table.lookup c = none := by
  refine List.lookup_eq_none_iff.mpr fun e he => bne_iff_ne.mpr fun hc => ?_
  exact h (List.mem_map.mpr ⟨e, he, hc.symm⟩)

theorem replaceEach_eq_flatMap {table : List (Char × Text)} (h : Separate table) (t : Text) :
    replaceEach table t = t.flatMap fun c => (table.lookup c).getD [c] := by
  induction table generalizing t with
  | nil => simp [replaceEach]
  | cons e table ih =>
      have hstep : replaceEach (e :: table) t =
          replaceEach table (replaceAll (wordRule [e.1] e.2) t) := rfl
      rw [hstep, ih h.tail, replaceAll_wordRule_singleton, List.flatMap_assoc]
      refine congrArg (fun f => t.flatMap f) (funext fun c => ?_)
      by_cases hc : c = e.1
      · have hkept : ∀ d ∈ e.2, (table.lookup d).getD [d] = [d] := fun d hd => by
          have hmem := h e List.mem_cons_self d hd
          rw [lookup_of_not_mem fun hd => hmem (List.mem_cons_of_mem e.1 hd)]
          rfl
        rw [if_pos hc, hc, List.lookup_cons_self]
        exact (List.flatMap_congr hkept).trans (List.flatMap_singleton' e.2)
      · rw [if_neg hc, List.lookup_cons, beq_false_of_ne hc, List.flatMap_singleton]

theorem separate_glyphs : Separate glyphs := by
  intro e he c hc hmem
  obtain ⟨e', he', rfl⟩ := List.mem_map.mp hmem
  have hascii := (ascii_of_mem_glyphs he).2 e'.1 hc
  rw [(ascii_of_mem_glyphs he').1] at hascii
  cases hascii

theorem replaceEach_append (table table' : List (Char × Text)) (t : Text) :
    replaceEach (table ++ table') t = replaceEach table' (replaceEach table t) :=
  List.foldl_append

theorem replaceEach_glyphs (t : Text) : replaceEach glyphs t = replaceGlyphs t :=
  replaceEach_eq_flatMap separate_glyphs t

theorem glyph_of_mem {e : Char × Text} (h : e ∈ glyphs) : glyph e.1 = e.2 := by
  have hall : ∀ e ∈ glyphs, glyph e.1 = e.2 := by decide
  exact hall e h

theorem glyph_of_not_mem {c : Char} (h : c ∉ glyphs.map Prod.fst) : glyph c = [c] := by
  rw [glyph, lookup_of_not_mem h]
  rfl

def isFixed (c : Char) : Bool :=
  isBlank c || isParen c

theorem isFixed_eq (c : Char) : isFixed c = !isAtomic c := by
  rw [isFixed, isAtomic]
  cases isBlank c <;> cases isParen c <;> rfl

theorem glyph_of_isFixed {c : Char} (h : isFixed c = true) : glyph c = [c] :=
  glyph_of_not_isAtomic (by simpa [isFixed_eq] using h)

theorem not_isFixed_of_mem_glyph {c x : Char} (hc : isFixed c = false) (hx : x ∈ glyph c) :
    isFixed x = false := by
  rw [isFixed_eq, Bool.not_eq_false'] at hc ⊢
  exact isAtomic_of_mem_glyph hc hx

theorem filter_isFixed_replaceGlyphs (t : Text) :
    (replaceGlyphs t).filter isFixed = t.filter isFixed := by
  induction t with
  | nil => rfl
  | cons c t ih =>
      rw [replaceGlyphs_cons, List.filter_append, ih, List.filter_cons]
      by_cases hc : isFixed c = true
      · rw [glyph_of_isFixed hc, if_pos hc, List.filter_cons_of_pos hc]
        rfl
      · have hnone : (glyph c).filter isFixed = [] :=
          List.filter_eq_nil_iff.mpr fun x hx => by
            simp [not_isFixed_of_mem_glyph (Bool.not_eq_true _ ▸ hc) hx]
        rw [if_neg hc, hnone, List.nil_append]

theorem splitOnP_append_of_all {p : Char → Bool} {s : Text} (h : ∀ c ∈ s, p c = false)
    (t : Text) : (s ++ t).splitOnP p = (t.splitOnP p).modifyHead (s ++ ·) := by
  induction s with
  | nil =>
      rw [List.nil_append]
      cases t.splitOnP p <;> rfl
  | cons c s ih =>
      have hc : ¬ p c = true := by simp [h c List.mem_cons_self]
      rw [List.cons_append, List.splitOnP_cons_eq_if_modifyHead, if_neg hc,
        ih fun d hd => h d (List.mem_cons_of_mem c hd), List.modifyHead_modifyHead]
      rfl

theorem splitOnP_replaceGlyphs (t : Text) :
    (replaceGlyphs t).splitOnP isFixed = (t.splitOnP isFixed).map replaceGlyphs := by
  induction t with
  | nil => rfl
  | cons c t ih =>
      rw [replaceGlyphs_cons, List.splitOnP_cons_eq_if_modifyHead]
      by_cases hc : isFixed c = true
      · rw [glyph_of_isFixed hc, if_pos hc, List.singleton_append,
          List.splitOnP_cons_eq_if_modifyHead, if_pos hc, ih]
        rfl
      · have hglyph : ∀ x ∈ glyph c, isFixed x = false := fun x =>
          not_isFixed_of_mem_glyph (Bool.not_eq_true _ ▸ hc)
        rw [if_neg hc, splitOnP_append_of_all hglyph, ih]
        cases t.splitOnP isFixed <;> rfl

theorem replaceGlyphs_simultaneous (s t : Text) :
    replaceGlyphs (s ++ t) = replaceGlyphs s ++ replaceGlyphs t ∧
    replaceGlyphs (replaceGlyphs s) = replaceGlyphs s ∧
    replaceGlyphs s = replaceEach [infinity] (replaceEach special (replaceEach greek s)) ∧
    replaceGlyphs s = s.flatMap glyph ∧
    (∀ e ∈ greek ++ special ++ [infinity], glyph e.1 = e.2) ∧
    (∀ c, c ∉ (greek ++ special ++ [infinity]).map Prod.fst → glyph c = [c]) ∧
    (replaceGlyphs s).filter isFixed = s.filter isFixed ∧
    (replaceGlyphs s).splitOnP isFixed = (s.splitOnP isFixed).map replaceGlyphs := by
  refine ⟨replaceGlyphs_append s t, replaceGlyphs_idem s, ?_, rfl, fun e => glyph_of_mem,
    fun c => glyph_of_not_mem, filter_isFixed_replaceGlyphs s, splitOnP_replaceGlyphs s⟩
  rw [← replaceEach_append, ← replaceEach_append, ← replaceEach_glyphs]
  rfl

theorem replaceGlyphs_simultaneous_angle :
    replaceGlyphs "(sin 30°\tοΩ)".toList =
        replaceEach [infinity] (replaceEach special (replaceEach greek "(sin 30°\tοΩ)".toList)) ∧
      glyph '°' = "^\x7b\\circ\x7d".toList ∧ glyph 's' = ['s'] := by
  obtain ⟨-, -, heach, -, hlisted, hother, -⟩ :=
    replaceGlyphs_simultaneous "(sin 30°\tοΩ)".toList []
  exact ⟨heach, hlisted ('°', "^\x7b\\circ\x7d".toList) (by decide), hother 's' (by decide)⟩

end WorksheetTex.Vocabulary
