import WorksheetTex.Proofs.Assembly
import WorksheetTex.Proofs.Lexicon
import WorksheetTex.Proofs.Splitting

namespace WorksheetTex.Form

open Text Vocabulary Evaluation

def Seam (s t : Text) : Prop :=
  ∀ c ∈ s.getLast?, ∀ d ∈ t.head?, isAtomic c = true → isAtomic d = false

theorem not_isAtomic_of_isBlank {c : Char} (h : isBlank c = true) : isAtomic c = false := by
  simp [isAtomic, h]

theorem not_isAtomic_of_isGap {c : Char} (h : isGap c = true) : isAtomic c = false :=
  not_isAtomic_of_isBlank (isBlank_of_isGap h)

theorem not_isAtomic_parens : isAtomic '(' = false ∧ isAtomic ')' = false := by decide

theorem seam_of_head {s t : Text} (h : ∀ d ∈ t.head?, isAtomic d = false) : Seam s t :=
  fun _ _ d hd _ => h d hd

theorem seam_of_last {s t : Text} (h : ∀ c ∈ s.getLast?, isAtomic c = false) : Seam s t := by
  intro c hc d _ hatomic
  rw [h c hc] at hatomic
  cases hatomic

theorem seam_blank_left {b : Text} (hb : allBlank b = true) (t : Text) : Seam b t :=
  seam_of_last fun c hc =>
    not_isAtomic_of_isBlank (List.all_eq_true.mp hb c (List.mem_of_mem_getLast? hc))

theorem seam_blank_right {b : Text} (hb : allBlank b = true) (s : Text) : Seam s b :=
  seam_of_head fun c hc =>
    not_isAtomic_of_isBlank (List.all_eq_true.mp hb c (List.mem_of_mem_head? hc))

theorem not_isAtomic_of_cuts {cut : Cut} {depth : Int} {c : Char} (h : Cuts cut depth c) :
    isAtomic c = false := by
  rcases h.2 with hgap | ⟨_, rfl⟩
  · exact not_isAtomic_of_isGap hgap
  · exact not_isAtomic_parens.1

theorem eq_of_mem_release {held p : Text} (hhead : ∀ c ∈ held.reverse.head?, isBlank c = false)
    (hp : p ∈ release held) : ∃ b, allBlank b = true ∧ held.reverse = p ++ b := by
  obtain ⟨b, b', hb, hb', heq, -⟩ := mem_release hp
  cases b with
  | nil => exact ⟨b', hb', heq⟩
  | cons c b =>
      have hc : isBlank c = false := hhead c (by rw [heq]; rfl)
      simp [allBlank, hc] at hb

theorem release_eq_cons {held p : Text} {ps : List Text} (h : release held = p :: ps) :
    ps = [] := by
  rw [release] at h
  split at h
  · cases h
  · exact (List.cons.inj h).2.symm

theorem exists_rest_of_splitFrom {depth : Int} {held t p : Text} {ps : List Text}
    (hhead : ∀ c ∈ (held.reverse ++ t).head?, isBlank c = false)
    (h : splitFrom .atGaps depth held t = p :: ps) :
    ∃ q, held.reverse ++ t = p ++ q ∧ split .atGaps q = ps ∧ ∀ c ∈ q.head?, isBlank c = true := by
  induction t generalizing depth held with
  | nil =>
      rw [List.append_nil] at hhead ⊢
      rw [splitFrom_nil] at h
      obtain ⟨b, hb, heq⟩ := eq_of_mem_release (p := p) hhead (by rw [h]; simp)
      obtain rfl := release_eq_cons h
      exact ⟨b, heq, splitFrom_blank hb,
        fun c hc => List.all_eq_true.mp hb c (List.mem_of_mem_head? hc)⟩
  | cons c r ih =>
      rw [splitFrom_cons] at h
      split at h
      · next hcuts =>
          have hgap : isGap c = true := hcuts.2.resolve_right (by simp)
          have hblank := isBlank_of_isGap hgap
          have hstart : start c = [] := if_neg (by rintro rfl; cases hgap)
          have hheld : ∀ d ∈ held.reverse.head?, isBlank d = false := fun d hd =>
            hhead d (by rw [List.head?_append, hd]; rfl)
          have hne : release held ≠ [] := by
            intro hnil
            cases hrev : held.reverse with
            | nil => simp [hrev, hblank] at hhead
            | cons d s =>
                have hall := allBlank_of_release_eq_nil hnil
                rw [allBlank, ← List.all_reverse, hrev] at hall
                simp [hheld d (by rw [hrev]; rfl)] at hall
          obtain ⟨q, qs, hq⟩ := List.exists_cons_of_ne_nil hne
          obtain rfl := release_eq_cons hq
          rw [hq, List.singleton_append, hstart, hcuts.1, weight_of_isBlank hblank] at h
          obtain ⟨rfl, rfl⟩ := List.cons.inj h
          obtain ⟨b, hb, heq⟩ := eq_of_mem_release (p := q) hheld (by rw [hq]; simp)
          refine ⟨b ++ c :: r, by rw [heq]; simp, ?_, ?_⟩
          · have hblanks : allBlank (b ++ [c]) = true := by
              rw [allBlank] at hb
              simp [allBlank, hb, hblank]
            have hsplit := @splitFrom_blank_append .atGaps [] r (b ++ [c]) hblanks rfl
            rw [List.append_assoc, List.singleton_append] at hsplit
            exact hsplit
          · intro d hd
            cases b with
            | nil => exact Option.some.inj hd ▸ hblank
            | cons x b => exact List.all_eq_true.mp hb d (by rw [← Option.some.inj hd]; simp)
      · have hshift : (c :: held).reverse ++ r = held.reverse ++ c :: r := by simp
        obtain ⟨q, hq, hrest⟩ := ih (by rwa [hshift]) h
        exact ⟨q, by rw [← hshift, hq], hrest⟩

theorem exists_rest_of_split {t p : Text} {ps : List Text}
    (hhead : ∀ c ∈ t.head?, isBlank c = false) (h : split .atGaps t = p :: ps) :
    ∃ q, t = p ++ q ∧ split .atGaps q = ps ∧ ∀ c ∈ q.head?, isBlank c = true :=
  @exists_rest_of_splitFrom 0 [] t p ps hhead h

def isHead (c : Char) : Bool :=
  "+-*/^=@".toList.contains c

theorem isHead_symbol (op : Operator) : isHead op.symbol = true := by
  cases op <;> decide

theorem dropClosing_form {c : Char} (hc : isHead c = true) (r : Text) :
    dropClosing ('(' :: c :: r) = '(' :: c :: dropClosing r := by
  have hclose : c ≠ ')' := by
    rintro rfl
    revert hc
    decide
  cases r with
  | nil => simp [dropClosing, hclose]
  | cons d r =>
      simp only [dropClosing, List.getLast?_cons_cons, List.dropLast_cons_cons]
      split <;> rfl

theorem operands_form (op : Operator) (r : Text) :
    operands ('(' :: op.symbol :: r) = split .atGapsAndParens (dropClosing r) := by
  have hwidth : unitWidth '(' = 1 ∧ unitWidth op.symbol = 1 := by cases op <;> decide
  rw [operands, dropClosing_form (isHead_symbol op)]
  simp only [dropUnits, hwidth, Nat.add_sub_cancel, Nat.sub_self]

theorem arguments_form (r : Text) :
    arguments ('(' :: '@' :: r) =
      split .atGapsAndParens (dropClosing (r.dropWhile fun c => !isGap c && c != '(')) := by
  have hskip : (!isGap '@' && '@' != '(') = true := by decide
  rw [arguments, List.drop_one, List.tail_cons, List.dropWhile_cons, if_pos hskip]

structure Hereditary (I : Text → Prop) : Prop where
  cut {s t : Text} : Seam s t → I (s ++ t) → I s ∧ I t
  head {c : Char} {r : Text} : isHead c = true → I ('(' :: c :: r) → I r

namespace Hereditary

variable {I : Text → Prop} (hI : Hereditary I) {s t : Text}

include hI

theorem around {c : Char} (hc : isAtomic c = false) (h : I (s ++ c :: t)) : I s ∧ I t := by
  obtain ⟨hs, ht⟩ := hI.cut (seam_of_head (by simpa using hc)) h
  exact ⟨hs, (hI.cut (s := [c]) (seam_of_last (by simpa using hc)) ht).2⟩

theorem tail {c : Char} (hc : isAtomic c = false) (h : I (c :: t)) : I t :=
  (hI.around (s := []) hc h).2

theorem across {b : Text} (hb : allBlank b = true) (hne : b ≠ []) (h : I (s ++ (b ++ t))) :
    I s ∧ I t := by
  obtain ⟨c, b, rfl⟩ := List.exists_cons_of_ne_nil hne
  rw [allBlank, List.all_cons, Bool.and_eq_true] at hb
  obtain ⟨hs, ht⟩ := hI.around (not_isAtomic_of_isBlank hb.1) h
  exact ⟨hs, (hI.cut (seam_blank_left hb.2 _) ht).2⟩

theorem trim (h : I t) : I (trim t) := by
  obtain ⟨b, b', hb, hb', ht⟩ := exists_trim t
  rw [ht] at h
  exact (hI.cut (seam_blank_right hb' _) (hI.cut (seam_blank_left hb _) h).2).1

theorem dropClosing (h : I t) : I (dropClosing t) := by
  rw [Text.dropClosing]
  split
  · next hlast =>
      obtain ⟨s, rfl⟩ := List.getLast?_eq_some_iff.mp hlast
      rw [List.dropLast_concat]
      exact (hI.around not_isAtomic_parens.2 h).1
  · exact h

theorem dropName (h : I t) : I (t.dropWhile fun c => !isGap c && c != '(') := by
  rw [← List.takeWhile_append_dropWhile (p := fun c => !isGap c && c != '(') (l := t)] at h
  refine (hI.cut (seam_of_head fun d hd => ?_) h).2
  have hstop := List.head?_dropWhile_not (fun c => !isGap c && c != '(') t
  rw [hd] at hstop
  have hcases : isGap d = true ∨ d = '(' := by
    by_cases hgap : isGap d = true
    · exact .inl hgap
    · exact .inr (by simpa [hgap] using hstop)
  rcases hcases with hgap | rfl
  · exact not_isAtomic_of_isGap hgap
  · exact not_isAtomic_parens.1

theorem release {held p : Text} (h : I held.reverse) (hp : p ∈ release held) : I p := by
  rw [Form.release] at hp
  split at hp
  · cases hp
  · obtain rfl := List.mem_singleton.mp hp
    exact hI.trim h

theorem splitFrom {cut : Cut} {depth : Int} {held p : Text} (h : I (held.reverse ++ t))
    (hp : p ∈ splitFrom cut depth held t) : I p := by
  induction t generalizing depth held with
  | nil => exact hI.release (by simpa using h) hp
  | cons c r ih =>
      rw [splitFrom_cons] at hp
      split at hp
      · next hcuts =>
          have hc := not_isAtomic_of_cuts hcuts
          obtain ⟨hheld, hrest⟩ := hI.cut (seam_of_head (by simpa using hc)) h
          rcases List.mem_append.mp hp with hp | hp
          · exact hI.release hheld hp
          · refine ih ?_ hp
            rw [start]
            split
            · exact hrest
            · exact hI.tail hc hrest
      · refine ih ?_ hp
        rwa [List.reverse_cons, List.append_assoc, List.singleton_append]

theorem split {cut : Cut} (h : I t) : ∀ p ∈ split cut t, I p := by
  intro p hp
  refine hI.splitFrom ?_ hp
  exact h

theorem words (h : I t) : ∀ w ∈ words t, I w := by
  intro w hw
  induction t using words_induct with
  | nil => cases hw
  | blank c r hc ih =>
      rw [words_blank hc] at hw
      exact ih (hI.tail (not_isAtomic_of_isBlank hc) h) hw
  | word v hv =>
      rw [words_word hv] at hw
      exact List.mem_singleton.mp hw ▸ h
  | cons v c r hv hc ih =>
      obtain ⟨hhead, hrest⟩ := hI.around (not_isAtomic_of_isBlank hc) h
      rw [words_word_blank hv hc] at hw
      rcases List.mem_cons.mp hw with rfl | hw
      · exact hhead
      · exact ih hrest hw

theorem operands {op : Operator} (h : I t) : ∀ p ∈ operands ('(' :: op.symbol :: t), I p := by
  rw [operands_form]
  exact hI.split (hI.dropClosing h)

theorem arguments (h : I t) : ∀ p ∈ arguments ('(' :: '@' :: t), I p := by
  rw [arguments_form]
  exact hI.split (hI.dropClosing (hI.dropName h))

end Hereditary

theorem Hereditary.and {I J : Text → Prop} (hI : Hereditary I) (hJ : Hereditary J) :
    Hereditary fun t => I t ∧ J t where
  cut hseam h := by
    obtain ⟨hs, ht⟩ := hI.cut hseam h.1
    obtain ⟨hs', ht'⟩ := hJ.cut hseam h.2
    exact ⟨⟨hs, hs'⟩, ht, ht'⟩
  head hc h := ⟨hI.head hc h.1, hJ.head hc h.2⟩

theorem hereditary_without (w : Text) : Hereditary fun t => ¬ w <:+: t where
  cut _ h := ⟨fun hw => h (hw.trans (List.prefix_append _ _).isInfix),
    fun hw => h (hw.trans (List.suffix_append _ _).isInfix)⟩
  head _ h hw := h (List.infix_cons (List.infix_cons hw))

theorem hereditary_true : Hereditary fun _ => True where
  cut _ _ := ⟨trivial, trivial⟩
  head _ _ := trivial

theorem hereditary_not_mem (m : Char) : Hereditary (m ∉ ·) where
  cut _ h := by simpa using h
  head _ h := fun hm => h (by simp [hm])

structure Conveys (lex : Lexicon) (I P : Text → Prop) : Prop where
  composes : Composes P
  written {t : Text} : I t → P t
  lexicon : lex.All P
  arguments {r : Text} : I ('(' :: '@' :: r) → ∀ p ∈ arguments ('(' :: '@' :: r), I p
  operands {op : Operator} {r : Text} :
    I ('(' :: op.symbol :: r) → ∀ p ∈ operands ('(' :: op.symbol :: r), I p

structure Inherits (lex : Lexicon) (I P : Text → Prop) : Prop where
  hereditary : Hereditary I
  composes : Composes P
  written {t : Text} : I t → P t
  lexicon : lex.All P

theorem Inherits.conveys {lex : Lexicon} {I P : Text → Prop} (h : Inherits lex I P) :
    Conveys lex I P where
  composes := h.composes
  written := h.written
  lexicon := h.lexicon
  arguments ht := h.hereditary.arguments (h.hereditary.head (by decide) ht)
  operands {op _} ht := h.hereditary.operands (h.hereditary.head (isHead_symbol op) ht)

theorem inherits_holes (lex : Lexicon) {I : Text → Prop} (hI : Hereditary I) :
    Inherits lex I fun _ => True where
  hereditary := hI
  composes := composes_true
  written _ := trivial
  lexicon _ _ := trivial

end WorksheetTex.Form
