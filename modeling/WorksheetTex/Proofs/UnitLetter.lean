import WorksheetTex.Proofs.Merge

namespace WorksheetTex.Vocabulary

open Text Tex Evaluation

def Folds (k l : Text) : Prop :=
  1 < unitLength k ∧ 1 < unitLength l ∧ upper k = upper l

instance : DecidableRel Folds :=
  fun _ _ => inferInstanceAs (Decidable (_ ∧ _))

def Rivals (name : Text) (e : Text × Text) : Prop :=
  Folds e.1 name ∨ Folds (replaceGlyphs e.1) name

instance (name : Text) : DecidablePred (Rivals name) :=
  fun _ => inferInstanceAs (Decidable (_ ∨ _))

theorem Merged.mem_keys_iff {es ds : List (Text × Text)} {names : List Text} {t : Table}
    (h : Merged es ds names t) {k : Text} :
    k ∈ t.keys ↔ ∃ e ∈ es ++ ds, e.1 = k ∨ replaceGlyphs e.1 = k := by
  have hnames (k : Text) : k ∈ names ↔ ∃ e ∈ es ++ ds, e.1 = k := by
    obtain ⟨new, hnew, rfl⟩ := h.names_eq
    rw [← List.mem_map, List.map_append, List.mem_append, List.mem_append, List.mem_filter,
      hnew.mem_iff]
    by_cases hk : k ∈ es.map Prod.fst <;> simp [hk]
  have hspelled : (∃ q ∈ names, replaceGlyphs q = k) ↔ ∃ e ∈ es ++ ds, replaceGlyphs e.1 = k := by
    simp only [hnames]
    exact ⟨fun ⟨_, ⟨e, he, hq⟩, hk⟩ => ⟨e, he, hq ▸ hk⟩, fun ⟨e, he, hk⟩ => ⟨_, ⟨e, he, rfl⟩, hk⟩⟩
  rw [h.keys_eq, List.mem_append, List.mem_eraseDups, List.mem_filter, List.mem_map, hspelled]
  simp only [and_or_left, exists_or, ← hnames]
  by_cases hk : k ∈ names <;> simp [hk]

section Lookup

variable {lex : Lexicon} {name : Text}

theorem Lexicon.caselessUnit?_eq (lex : Lexicon) (name : Text) : lex.caselessUnit? name =
    (lex.units.keys.find? (Folds · name)).bind lex.units.find? := by
  have hfind := Table.map_snd_find?
    (fun k => decide (1 < unitLength k) && upper k == upper name) lex.units.entries
  rw [caselessUnit?]
  split
  · next hlong =>
      have hfolds : (fun k => decide (1 < unitLength k) && upper k == upper name) =
          fun k => decide (Folds k name) := by
        funext k
        rw [Bool.eq_iff_iff]
        simp [Folds, hlong]
      rw [hfind, hfolds]
      rfl
  · next hshort =>
      have hnone : lex.units.keys.find? (Folds · name) = none :=
        List.find?_eq_none.mpr fun k _ => by simp [Folds, hshort]
      rw [hnone]
      rfl

theorem Lexicon.unit_of_find? (hname : name ≠ ['N']) (hnone : lex.units.find? name = none) :
    lex.unit name =
      ((lex.units.keys.find? (Folds · name)).bind lex.units.find?).getD (upright name) := by
  rw [unit, if_neg hname, hnone, caselessUnit?_eq]
  rfl

end Lookup

section Upper

theorem length_le_upper (t : Text) : t.length ≤ (upper t).length := by
  have hseveral : ∀ p ∈ upperSeveral, p.2 ≠ [] := by decide
  have hpos (c : Char) : 0 < (mapCase upperSeveral upperRuns c).length := by
    rw [mapCase]
    split
    · next ns hns =>
        obtain ⟨l₁, l₂, hl, -⟩ := List.lookup_eq_some_iff.mp hns
        have hne := hseveral (c.toNat, ns) (by rw [hl]; simp)
        rw [List.length_map]
        exact List.length_pos_iff.mpr hne
    · split <;> exact Nat.one_pos
  induction t with
  | nil => exact Nat.le_refl _
  | cons c r ih =>
      have hc := hpos c
      rw [upper, List.flatMap_cons, List.length_append, List.length_cons]
      rw [upper] at ih
      omega

theorem length_upper_of_isWide {c : Char} (h : isWide c = true) : (upper [c]).length = 1 := by
  have hseveral : ∀ p ∈ upperSeveral, p.1 < 0x10000 := by decide
  have hwide : 0x10000 ≤ c.toNat := of_decide_eq_true h
  have hnone : upperSeveral.lookup c.toNat = none := by
    refine List.lookup_eq_none_iff.mpr fun p hp => ?_
    have := hseveral p hp
    simp
    omega
  rw [upper, List.flatMap_singleton, mapCase, hnone]
  dsimp only
  split <;> rfl

theorem mapCase_ascii {c : Char} (h : isAscii c = true) :
    mapCase upperSeveral upperRuns c = [c.toUpper] := by
  have hseveral : ∀ p ∈ upperSeveral, 128 ≤ p.1 := by decide
  have hruns : ∀ r ∈ upperRuns.tail, 128 ≤ r.first := by decide +kernel
  have htoUpper : ∀ n < 128, (Char.ofNat n).toUpper =
      if 97 ≤ n ∧ n ≤ 122 then Char.ofNat (n - 32) else Char.ofNat n := by decide
  have hc : c.toNat < 128 := of_decide_eq_true h
  have hnone : upperSeveral.lookup c.toNat = none := by
    refine List.lookup_eq_none_iff.mpr fun p hp => ?_
    have := hseveral p hp
    simp
    omega
  have hrest : upperRuns.tail.find? (·.covers c.toNat) = none := by
    refine List.find?_eq_none.mpr fun r hr => ?_
    have := hruns r hr
    simp [CaseRun.covers]
    omega
  have hfirst : upperRuns = ⟨97, 122, 1, -32⟩ :: upperRuns.tail := rfl
  have hcapital := htoUpper c.toNat hc
  rw [Char.ofNat_toNat] at hcapital
  rw [mapCase, hnone, hfirst, List.find?_cons, hrest, hcapital]
  by_cases hsmall : 97 ≤ c.toNat ∧ c.toNat ≤ 122
  · have hcovers : CaseRun.covers ⟨97, 122, 1, -32⟩ c.toNat = true := by
      simp [CaseRun.covers, hsmall, Nat.mod_one]
    have happly : CaseRun.apply ⟨97, 122, 1, -32⟩ c.toNat = c.toNat - 32 := by
      change ((c.toNat : Int) + -32).toNat = c.toNat - 32
      omega
    simp only [hcovers, happly, if_pos hsmall]
  · have hcovers : CaseRun.covers ⟨97, 122, 1, -32⟩ c.toNat = false := by
      simp [CaseRun.covers]
      omega
    simp only [hcovers, if_neg hsmall]

theorem upper_ascii {t : Text} (h : t.all isAscii = true) : upper t = t.map Char.toUpper := by
  induction t with
  | nil => rfl
  | cons c r ih =>
      rw [List.all_cons, Bool.and_eq_true] at h
      rw [upper, List.flatMap_cons, mapCase_ascii h.1, ← upper, ih h.2]
      rfl

end Upper

section Default

variable {c : Char} {e : Text × Text} {k : Text}

theorem upper_glyph (h : (c, glyph c) ∈ glyphs) (hlong : 1 < unitLength (glyph c)) :
    (upper (glyph c)).head?.any isLatin = false ∧
      (upper (glyph c) = "\\OMEGA".toList → c = 'ω' ∨ c = 'Ω') := by
  have hall : ∀ p ∈ glyphs, 1 < unitLength p.2 →
      (p.2.map Char.toUpper).head?.any isLatin = false ∧
        (p.2.map Char.toUpper = "\\OMEGA".toList → p.1 = 'ω' ∨ p.1 = 'Ω') := by
    decide +kernel
  rw [upper_ascii (List.all_eq_true.mpr (ascii_of_mem_glyphs h).2)]
  exact hall _ h hlong

theorem upper_defaultUnit (he : e ∈ defaultUnits) (hk : k = e.1 ∨ k = replaceGlyphs e.1)
    (hlong : 1 < unitLength k) :
    2 ≤ k.length ∧ (k = "\\Omega".toList ∨ (upper k).head?.any isLatin = true) := by
  have hall : ∀ e ∈ defaultUnits, ∀ k ∈ [e.1, replaceGlyphs e.1], 1 < unitLength k →
      k.all isAscii = true ∧ 2 ≤ k.length ∧
        (k = "\\Omega".toList ∨ (k.map Char.toUpper).head?.any isLatin = true) := by
    decide +kernel
  obtain ⟨hascii, hkind⟩ := hall e he k (by simpa using hk) hlong
  rwa [upper_ascii hascii]

theorem eq_omega_of_rivals (he : e ∈ defaultUnits) (hr : Rivals (replaceGlyphs [c]) e)
    (hnew : replaceGlyphs e.1 ≠ replaceGlyphs [c]) : c = 'ω' := by
  obtain ⟨k, hk, hlong, hletter, hupper⟩ :
      ∃ k, (k = e.1 ∨ k = replaceGlyphs e.1) ∧ Folds k (glyph c) := by
    rw [Rivals, replaceGlyphs_cons, replaceGlyphs_nil, List.append_nil] at hr
    exact hr.elim (fun h => ⟨_, .inl rfl, h⟩) fun h => ⟨_, .inr rfl, h⟩
  obtain ⟨htwo, hkind⟩ := upper_defaultUnit he hk hlong
  rcases glyph_cases c with hc | hc
  · rw [hc] at hletter hupper
    have hwide : isWide c = true := by
      by_contra hnarrow
      simp [unitLength, unitWidth, hnarrow] at hletter
    have hlength := length_le_upper k
    rw [hupper, length_upper_of_isWide hwide] at hlength
    omega
  · obtain ⟨hnot, homega⟩ := upper_glyph hc hletter
    rcases hkind with rfl | hlatin
    · refine (homega (hupper.symm.trans (by decide +kernel))).resolve_right ?_
      rintro rfl
      refine hnew (Eq.trans ?_ (by decide +kernel : "\\Omega".toList = _))
      rcases hk with hk | hk
      · rw [← hk]
        decide +kernel
      · exact hk.symm
    · rw [hupper, hnot] at hlatin
      cases hlatin

end Default

section Letter

variable {d : Declarations} {c : Char}

theorem unit_of_fresh
    (hnew : ∀ e ∈ defaultUnits ++ d.units, replaceGlyphs e.1 ≠ replaceGlyphs [c]) :
    (Lexicon.ofDeclarations d).unit (replaceGlyphs [c]) =
      (((Lexicon.ofDeclarations d).units.keys.find? (Folds · (replaceGlyphs [c]))).bind
        (Lexicon.ofDeclarations d).units.find?).getD (upright (replaceGlyphs [c])) := by
  have hnewton : replaceGlyphs [c] ≠ ['N'] := fun h =>
    hnew (entry "N" (upright "N")) (by simp [defaultUnits]) (by rw [h]; rfl)
  refine Lexicon.unit_of_find? hnewton (Option.not_isSome_iff_eq_none.mp fun hsome => ?_)
  obtain ⟨e, he, hk⟩ := (merged_units d).mem_keys_iff.mp (Table.mem_keys_iff.mpr hsome)
  refine hnew e he ?_
  rcases hk with hk | hk
  · rw [hk, replaceGlyphs_idem]
  · exact hk

theorem exists_folds_iff {name : Text} :
    (∃ k ∈ (Lexicon.ofDeclarations d).units.keys, Folds k name) ↔
      ∃ e ∈ defaultUnits ++ d.units, Rivals name e := by
  constructor
  · rintro ⟨k, hk, hfolds⟩
    obtain ⟨e, he, rfl | rfl⟩ := (merged_units d).mem_keys_iff.mp hk
    · exact ⟨e, he, .inl hfolds⟩
    · exact ⟨e, he, .inr hfolds⟩
  · rintro ⟨e, he, hfolds | hfolds⟩
    · exact ⟨_, (merged_units d).mem_keys_iff.mpr ⟨e, he, .inl rfl⟩, hfolds⟩
    · exact ⟨_, (merged_units d).mem_keys_iff.mpr ⟨e, he, .inr rfl⟩, hfolds⟩

end Letter

end WorksheetTex.Vocabulary

namespace WorksheetTex

open Text Tex Vocabulary Evaluation

theorem typeset_unit_letter (d : Declarations) (c : Char) (hc : isAtomic c = true)
    (hnew : ∀ e ∈ defaultUnits ++ d.units, replaceGlyphs e.1 ≠ replaceGlyphs [c]) :
    ((∀ e ∈ defaultUnits ++ d.units, ¬ Rivals (replaceGlyphs [c]) e) →
      typeset (.record d.options) (Role.unit.form [c]) =
        .ok (spaceCommands (upright (replaceGlyphs [c])))) ∧
    ((∃ e ∈ defaultUnits ++ d.units, Rivals (replaceGlyphs [c]) e) →
      ∃ key latex,
        (Lexicon.ofDeclarations d).units.keys.find? (Folds · (replaceGlyphs [c])) = some key ∧
        (Lexicon.ofDeclarations d).units.find? key = some latex ∧
        typeset (.record d.options) (Role.unit.form [c]) = .ok (spaceCommands latex)) ∧
    (unitLength (replaceGlyphs [c]) = 1 → ∀ e, ¬ Rivals (replaceGlyphs [c]) e) ∧
    ∀ e ∈ defaultUnits, Rivals (replaceGlyphs [c]) e → c = 'ω' := by
  have htypeset := Role.typeset_form d .unit ⟨[c], by simp, by simpa using hc⟩
  rw [Role.meaning, unit_of_fresh hnew] at htypeset
  refine ⟨fun hnone => ?_, fun hsome => ?_, fun hone e hr => ?_, fun e he hr => ?_⟩
  · have hfind : (Lexicon.ofDeclarations d).units.keys.find? (Folds · (replaceGlyphs [c])) =
        none := by
      refine List.find?_eq_none.mpr fun k hk hfolds => ?_
      obtain ⟨e, he, hr⟩ := exists_folds_iff.mp ⟨k, hk, of_decide_eq_true hfolds⟩
      exact hnone e he hr
    rw [hfind] at htypeset
    exact htypeset
  · obtain ⟨k, hk, hfolds⟩ := exists_folds_iff.mpr hsome
    have hfirst : ((Lexicon.ofDeclarations d).units.keys.find?
        (Folds · (replaceGlyphs [c]))).isSome = true :=
      List.find?_isSome.mpr ⟨k, hk, decide_eq_true hfolds⟩
    obtain ⟨key, hkey⟩ := Option.isSome_iff_exists.mp hfirst
    obtain ⟨latex, hlatex⟩ := Option.isSome_iff_exists.mp
      (Table.mem_keys_iff.mp (List.mem_of_find?_eq_some hkey))
    refine ⟨key, latex, hkey, hlatex, ?_⟩
    rw [hkey, Option.bind_some, hlatex] at htypeset
    exact htypeset
  · rcases hr with ⟨-, hlong, -⟩ | ⟨-, hlong, -⟩ <;> omega
  · exact eq_omega_of_rivals he hr (hnew e (List.mem_append_left _ he))

theorem typeset_unit_letter_sigma :
    typeset (.record (Declarations.options { units := [("Σ", "X")] })) "(@LABEL UNIT x)" =
        .ok "\\mathrm{x}" ∧
      ∃ key latex,
        (Lexicon.ofDeclarations { units := [("Σ", "X")] }).units.keys.find?
          (Folds · "\\sigma".toList) = some key ∧
        (Lexicon.ofDeclarations { units := [("Σ", "X")] }).units.find? key = some latex ∧
        typeset (.record (Declarations.options { units := [("Σ", "X")] })) "(@LABEL UNIT σ)" =
          .ok (spaceCommands latex) := by
  obtain ⟨hupright, -, hone, -⟩ :=
    typeset_unit_letter { units := [("Σ", "X")] } 'x' rfl (by decide +kernel)
  obtain ⟨-, hrivals, -⟩ :=
    typeset_unit_letter { units := [("Σ", "X")] } 'σ' (by decide) (by decide +kernel)
  exact ⟨(hupright fun e _ => hone (by decide +kernel) e).trans (by decide +kernel),
    hrivals ⟨("Σ", "X"), List.mem_append_right _ (by simp), by decide +kernel⟩⟩

theorem typeset_unit_letter_omega :
    (defaultUnits.map fun e => replaceGlyphs e.1).contains (replaceGlyphs ['ω']) = false ∧
      typeset .absent "(@LABEL UNIT ω)" = .ok "\\Omega" ∧
      spaceCommands (upright (replaceGlyphs ['ω'])) = "\\mathrm\x7b\\omega\x7d".toList := by
  refine ⟨by decide +kernel, (Role.typeset_form {} .unit (.ofText "ω" rfl)).trans ?_, ?_⟩
  all_goals decide +kernel

end WorksheetTex
