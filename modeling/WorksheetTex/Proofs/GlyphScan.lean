import WorksheetTex.Proofs.Apart
import WorksheetTex.Proofs.Survival

namespace WorksheetTex

open Text Tex Paren Vocabulary Form Evaluation

namespace Vocabulary

def isCommandHead (c : Char) : Bool :=
  c == '\\' || c == '{' || c == '^'

theorem glyph_head (c : Char) :
    glyph c = [c] ∨ c = 'ο' ∨ ∃ x r, glyph c = x :: r ∧ isCommandHead x = true := by
  rcases glyph_cases c with hc | hc
  · exact .inl hc
  · have hall : glyphs.all (fun p => p.1 == 'ο' || p.2.head?.any isCommandHead) = true := by decide
    have hhead := List.all_eq_true.mp hall _ hc
    rw [Bool.or_eq_true, beq_iff_eq] at hhead
    rcases hhead with hhead | hhead
    · exact .inr (.inl hhead)
    · obtain ⟨x, r, hr⟩ := List.exists_cons_of_ne_nil (glyph_ne_nil c)
      refine .inr (.inr ⟨x, r, hr, ?_⟩)
      simpa [hr] using hhead

def Respects (p : Char → Bool) (c : Char) : Prop :=
  (∀ x ∈ glyph c, p x = true) ∧ p c = true ∨ (∀ x ∈ (glyph c).head?, p x = false) ∧ p c = false

theorem respects_of_uniform {p : Char → Bool} {c : Char} (h : ∀ x ∈ glyph c, p x = p c) :
    Respects p c := by
  cases hc : p c with
  | true => exact .inl ⟨fun x hx => (h x hx).trans hc, hc⟩
  | false => exact .inr ⟨fun x hx => (h x (List.mem_of_mem_head? hx)).trans hc, hc⟩

theorem respects_isAtomic (c : Char) : Respects isAtomic c := by
  refine respects_of_uniform fun x hx => ?_
  cases hc : isAtomic c with
  | true => exact isAtomic_of_mem_glyph hc hx
  | false =>
      rw [glyph_of_not_isAtomic hc, List.mem_singleton] at hx
      rw [hx, hc]

theorem respects_isBlank (c : Char) : Respects isBlank c := by
  refine respects_of_uniform fun x hx => ?_
  cases hc : isBlank c with
  | true =>
      rw [glyph_of_not_isAtomic (not_isAtomic_of_isBlank hc), List.mem_singleton] at hx
      rw [hx, hc]
  | false => exact not_isBlank_of_mem_glyph hc hx

theorem isParen_of_mem_glyph {c x : Char} (hx : x ∈ glyph c) : isParen x = isParen c := by
  cases hc : isAtomic c with
  | true =>
      rw [not_isParen_of_isAtomic hc, not_isParen_of_isAtomic (isAtomic_of_mem_glyph hc hx)]
  | false =>
      rw [glyph_of_not_isAtomic hc, List.mem_singleton] at hx
      rw [hx]

theorem respects_not_isParen (c : Char) : Respects (!isParen ·) c :=
  respects_of_uniform fun x hx => by rw [isParen_of_mem_glyph hx]

theorem respects_of_ascii {p : Char → Bool} (hascii : ∀ c, p c = true → isAscii c = true)
    (hhead : ∀ x, isCommandHead x = true → p x = false) {c : Char} (hc : c ≠ 'ο') :
    Respects p c := by
  rcases glyph_head c with hg | rfl | ⟨x, r, hg, hx⟩
  · exact respects_of_uniform fun x hx => by rw [hg, List.mem_singleton] at hx; rw [hx]
  · exact absurd rfl hc
  · refine .inr ⟨by simpa [hg] using hhead x hx, Bool.eq_false_iff.mpr fun hp => ?_⟩
    rw [glyph_ascii (hascii c hp)] at hg
    obtain ⟨rfl, -⟩ := List.cons.inj hg
    rw [hhead c hx] at hp
    cases hp

theorem eq_of_isCommandHead {x : Char} (h : isCommandHead x = true) :
    x = '\\' ∨ x = '{' ∨ x = '^' := by
  simpa [isCommandHead, or_assoc] using h

theorem respects_isLatin {c : Char} (hc : c ≠ 'ο') : Respects isLatin c := by
  refine respects_of_ascii (fun _ => isAscii_of_isLatin) (fun x hx => ?_) hc
  rcases eq_of_isCommandHead hx with rfl | rfl | rfl <;> rfl

theorem respects_omicron {p : Char → Bool} (hletter : p 'o' = false) (homicron : p 'ο' = false) :
    Respects p 'ο' := by
  have hglyph : glyph 'ο' = ['o'] := by decide
  exact .inr ⟨by simpa [hglyph] using hletter, homicron⟩

theorem respects_isTagCapital (c : Char) : Respects isTagCapital c := by
  by_cases hc : c = 'ο'
  · exact hc ▸ respects_omicron (by decide) (by decide)
  · refine respects_of_ascii (fun d hd => ?_) (fun x hx => ?_) hc
    · rw [isTagCapital, Bool.or_eq_true, beq_iff_eq] at hd
      rcases hd with hd | rfl
      · have halpha : (d.isUpper || d.isLower || d.isDigit) = true := by rw [hd]; rfl
        exact isAscii_of_isAlphanum halpha
      · rfl
    · rcases eq_of_isCommandHead hx with rfl | rfl | rfl <;> rfl

theorem respects_isDigit (c : Char) : Respects Char.isDigit c := by
  by_cases hc : c = 'ο'
  · exact hc ▸ respects_omicron (by decide) (by decide)
  · refine respects_of_ascii (fun d hd => (isAtomic_of_isDigit hd).2) (fun x hx => ?_) hc
    rcases eq_of_isCommandHead hx with rfl | rfl | rfl <;> rfl

theorem span_replaceGlyphs {p : Char → Bool} {t : Text} (h : ∀ c ∈ t, Respects p c) :
    (replaceGlyphs t).takeWhile p = replaceGlyphs (t.takeWhile p) ∧
      (replaceGlyphs t).dropWhile p = replaceGlyphs (t.dropWhile p) := by
  induction t with
  | nil => exact ⟨rfl, rfl⟩
  | cons c t ih =>
      obtain ⟨htake, hdrop⟩ := ih fun x hx => h x (by simp [hx])
      rw [replaceGlyphs_cons]
      rcases h c (by simp) with ⟨hall, hc⟩ | ⟨hhead, hc⟩
      · rw [List.takeWhile_append_of_pos hall, List.dropWhile_append_of_pos hall, htake, hdrop]
        simp [hc]
      · obtain ⟨x, r, hr⟩ := List.exists_cons_of_ne_nil (glyph_ne_nil c)
        have hx : p x = false := hhead x (by simp [hr])
        simp [hr, hx, hc]

theorem trimStart_replaceGlyphs (t : Text) :
    trimStart (replaceGlyphs t) = replaceGlyphs (trimStart t) :=
  (span_replaceGlyphs fun c _ => respects_isBlank c).2

theorem replaceGlyphs_eq_nil_iff {t : Text} : replaceGlyphs t = [] ↔ t = [] := by
  refine ⟨fun h => Decidable.not_not.mp fun hne => replaceGlyphs_ne_nil hne h, ?_⟩
  rintro rfl
  rfl

theorem replaceGlyphs_cons_ascii {c : Char} (hc : isAscii c = true) (t : Text) :
    replaceGlyphs (c :: t) = c :: replaceGlyphs t := by
  rw [replaceGlyphs_cons, glyph_ascii hc, List.singleton_append]

theorem assembles_replaceGlyphs : Assembles fun t v => v = replaceGlyphs t := by
  refine assembles_of_ascii ?_ fun ht => (replaceGlyphs_ascii ht).symm
  rintro s t v w rfl rfl
  exact (replaceGlyphs_append s t).symm

theorem forall₂_replaceGlyphs (ts : List Text) :
    List.Forall₂ (fun t v => v = replaceGlyphs t) ts (ts.map replaceGlyphs) := by
  rw [List.forall₂_map_right_iff, List.forall₂_same]
  exact fun _ _ => rfl

theorem joinWith_replaceGlyphs {separator : Text} (hs : separator.all isLiteral = true)
    (ts : List Text) :
    joinWith separator (ts.map replaceGlyphs) = replaceGlyphs (joinWith separator ts) :=
  assembles_replaceGlyphs.joinWith hs (forall₂_replaceGlyphs ts)

end Vocabulary

namespace Evaluation

def IsRigid (w : Text) : Prop :=
  (w.all fun c => glyph c == [c] && !isCommandHead c && c != 'o') = true

instance : DecidablePred IsRigid :=
  fun _ => inferInstanceAs (Decidable (_ = true))

theorem IsRigid.not_head {a : Char} {w : Text} (h : IsRigid (a :: w)) :
    glyph a = [a] ∧ (∀ c, glyph c ≠ [c] → (glyph c).head? ≠ some a) ∧ IsRigid w := by
  simp only [IsRigid, List.all_cons, Bool.and_eq_true, Bool.not_eq_true', bne_iff_ne,
    beq_iff_eq] at h
  obtain ⟨⟨⟨hstable, hhead⟩, ho⟩, hw⟩ := h
  refine ⟨hstable, fun c hc heq => ?_, hw⟩
  rcases glyph_head c with hg | rfl | ⟨x, r, hg, hx⟩
  · exact hc hg
  · exact ho (Option.some.inj heq).symm
  · rw [hg] at heq
    obtain rfl := Option.some.inj heq
    rw [hhead] at hx
    cases hx

theorem dropPrefix?_replaceGlyphs {w : Text} (hw : IsRigid w) (t : Text) :
    dropPrefix? w (replaceGlyphs t) = (dropPrefix? w t).map replaceGlyphs := by
  induction w generalizing t with
  | nil => cases t <;> rfl
  | cons a w ih =>
      obtain ⟨hstable, hhead, hw⟩ := hw.not_head
      cases t with
      | nil => rfl
      | cons c t =>
          rw [replaceGlyphs_cons, dropPrefix?]
          by_cases hc : glyph c = [c]
          · rw [hc, List.singleton_append, dropPrefix?]
            split
            · exact ih hw t
            · rfl
          · have hac : a ≠ c := by
              rintro rfl
              exact hc hstable
            obtain ⟨x, r, hr⟩ := List.exists_cons_of_ne_nil (glyph_ne_nil c)
            have hax : a ≠ x := fun h => hhead c hc (by rw [hr, h]; rfl)
            rw [hr, List.cons_append, dropPrefix?, if_neg hax, if_neg hac]
            rfl

theorem dropBlanks?_replaceGlyphs (t : Text) :
    dropBlanks? (replaceGlyphs t) = (dropBlanks? t).map replaceGlyphs := by
  cases t with
  | nil => rfl
  | cons c t =>
      rw [replaceGlyphs_cons, dropBlanks?]
      cases hc : isBlank c with
      | true =>
          rw [glyph_of_not_isAtomic (not_isAtomic_of_isBlank hc), List.singleton_append,
            dropBlanks?, if_pos hc, if_pos rfl, trimStart_replaceGlyphs]
          rfl
      | false =>
          obtain ⟨x, r, hr⟩ := List.exists_cons_of_ne_nil (glyph_ne_nil c)
          have hx : isBlank x = false := not_isBlank_of_mem_glyph hc (by simp [hr])
          rw [hr, List.cons_append, dropBlanks?, hx]
          rfl

theorem takeRun?_replaceGlyphs {p : Char → Bool} {t : Text} (h : ∀ c ∈ t, Respects p c) :
    takeRun? p (replaceGlyphs t) =
      (takeRun? p t).map fun run => (replaceGlyphs run.1, replaceGlyphs run.2) := by
  obtain ⟨htake, hdrop⟩ := span_replaceGlyphs h
  rw [takeRun?, takeRun?, htake, hdrop]
  cases hrun : t.takeWhile p with
  | nil => rfl
  | cons c w =>
      obtain ⟨x, r, hr⟩ := List.exists_cons_of_ne_nil (replaceGlyphs_ne_nil (List.cons_ne_nil c w))
      rw [Option.map_some, hr]

theorem isWord_replaceGlyphs {w : Text} (h : IsWord w) : IsWord (replaceGlyphs w) where
  ne_nil := replaceGlyphs_ne_nil h.ne_nil
  not_blank := by
    intro x hx
    obtain ⟨c, hc, hxc⟩ := mem_replaceGlyphs hx
    exact not_isBlank_of_mem_glyph (h.not_blank c hc) hxc

theorem words_replaceGlyphs (t : Text) :
    words (replaceGlyphs t) = (words t).map replaceGlyphs := by
  have hblank {c : Char} (hc : isBlank c = true) : glyph c = [c] :=
    glyph_of_not_isAtomic (not_isAtomic_of_isBlank hc)
  induction t using words_induct with
  | nil => rfl
  | blank c r hc ih =>
      rw [replaceGlyphs_cons, hblank hc, List.singleton_append, words_blank hc, words_blank hc, ih]
  | word w hw => rw [words_word hw, words_word (isWord_replaceGlyphs hw), List.map_singleton]
  | cons w c r hw hc ih =>
      rw [replaceGlyphs_append, replaceGlyphs_cons, hblank hc, List.singleton_append,
        words_word_blank (isWord_replaceGlyphs hw) hc, words_word_blank hw hc, ih, List.map_cons]

theorem collapseBlanks_replaceGlyphs (t : Text) :
    collapseBlanks (replaceGlyphs t) = replaceGlyphs (collapseBlanks t) := by
  rw [collapseBlanks, collapseBlanks, words_replaceGlyphs, joinWith_replaceGlyphs rfl]

theorem spacedItems?_replaceGlyphs (t : Text) :
    spacedItems? (replaceGlyphs t) =
      (spacedItems? t).map fun found => (found.1.map replaceGlyphs, replaceGlyphs found.2) := by
  rw [spacedItems?, spacedItems?, takeRun?_replaceGlyphs fun c _ => respects_not_isParen c]
  rcases takeRun? (!isParen ·) t with _ | ⟨_ | ⟨c, r⟩, rest⟩
  · rfl
  · rfl
  · simp only [Option.map_some, Option.bind_eq_bind, Option.bind_some, replaceGlyphs_cons]
    cases hc : isBlank c with
    | true =>
        have hempty : (replaceGlyphs r).isEmpty = r.isEmpty := by
          rw [Bool.eq_iff_iff, List.isEmpty_iff, List.isEmpty_iff, replaceGlyphs_eq_nil_iff]
        rw [glyph_of_not_isAtomic (not_isAtomic_of_isBlank hc)]
        simp only [List.singleton_append, hc, hempty, words_replaceGlyphs]
        cases r.isEmpty <;> cases words r <;> rfl
    | false =>
        obtain ⟨x, g, hg⟩ := List.exists_cons_of_ne_nil (glyph_ne_nil c)
        have hx : isBlank x = false := not_isBlank_of_mem_glyph hc (by simp [hg])
        simp [hg, hx]

theorem spacedItems?_of_not_blank {c : Char} (hc : isBlank c = false) (r : Text) :
    spacedItems? (c :: r) = none := by
  cases hfound : spacedItems? (c :: r) with
  | none => rfl
  | some found =>
      obtain ⟨d, body, hd, -, heq, -⟩ := eq_of_spacedItems? hfound
      rw [(List.cons.inj heq).1, hd] at hc
      cases hc

theorem balanceFrom_replaceGlyphs (depth : Nat) (t : Text) :
    balanceFrom depth (replaceGlyphs t) = replaceGlyphs (balanceFrom depth t) := by
  induction t generalizing depth with
  | nil => exact (replaceGlyphs_ascii (by simp [balanceFrom, isAscii])).symm
  | cons c t ih =>
      rw [replaceGlyphs_cons]
      rcases paren_cases c with rfl | rfl | hc
      · have hopen : glyph '(' = ['('] := glyph_ascii rfl
        simp [balanceFrom, hopen, ih]
      · have hclose : glyph ')' = [')'] := glyph_ascii rfl
        cases depth <;> simp [balanceFrom, hclose, ih]
      · have hflat : ∀ x ∈ glyph c, isParen x = false := fun x hx =>
          (isParen_of_mem_glyph hx).trans hc
        have hstep : balanceFrom depth (c :: t) = c :: balanceFrom depth t := by
          simp [balanceFrom, ne_of_not_paren hc]
        rw [balanceFrom_append (depthFrom_flat hflat depth), ih, hstep, replaceGlyphs_cons]

theorem isPrefixOf_eq_isSome (w t : Text) : w.isPrefixOf t = (dropPrefix? w t).isSome := by
  induction w generalizing t with
  | nil => cases t <;> rfl
  | cons a w ih =>
      cases t with
      | nil => rfl
      | cons c t => by_cases hac : a = c <;> simp [dropPrefix?, List.isPrefixOf, hac, ih]

theorem isPrefixOf_replaceGlyphs {w : Text} (hw : IsRigid w) (t : Text) :
    w.isPrefixOf (replaceGlyphs t) = w.isPrefixOf t := by
  rw [isPrefixOf_eq_isSome, isPrefixOf_eq_isSome, dropPrefix?_replaceGlyphs hw, Option.isSome_map]

theorem head?_replaceGlyphs_eq_iff {c : Char} (hc : IsRigid [c]) (t : Text) :
    (replaceGlyphs t).head? = some c ↔ t.head? = some c := by
  have hstart (u : Text) : u.head? = some c ↔ [c].isPrefixOf u = true := by
    rw [List.isPrefixOf_iff_prefix]
    cases u with
    | nil => simp
    | cons d u => simp [List.cons_prefix_cons, eq_comm]
  rw [hstart, hstart, isPrefixOf_replaceGlyphs hc]

theorem occursIn_replaceGlyphs {w : Text} (hw : IsRigid ('(' :: w)) (t : Text) :
    occursIn ('(' :: w) (replaceGlyphs t) = occursIn ('(' :: w) t := by
  induction t with
  | nil => rfl
  | cons c t ih =>
      by_cases hc : c = '('
      · subst hc
        have hopen := replaceGlyphs_cons_ascii (c := '(') rfl t
        have hstart := isPrefixOf_replaceGlyphs hw ('(' :: t)
        rw [hopen] at hstart ⊢
        rw [occursIn, occursIn, hstart, ih]
      · have hflat : '(' ∉ glyph c := by
          intro hmem
          have hparen := isParen_of_mem_glyph hmem
          rcases paren_cases c with rfl | rfl | hother
          · exact hc rfl
          · rw [glyph_ascii rfl] at hmem
            cases List.mem_singleton.mp hmem
          · rw [hother] at hparen
            cases hparen
        rw [replaceGlyphs_cons, occursIn_flat hflat, ih]
        exact (occursIn_flat (s := [c]) (by simpa using Ne.symm hc) w t).symm

end Evaluation

namespace Layer

theorem isEvaluation_replaceGlyphs (e : Text) :
    isEvaluation (replaceGlyphs e) = isEvaluation e := by
  have hlabel : occursIn "(@LABEL" (replaceGlyphs e) = occursIn "(@LABEL" e :=
    occursIn_replaceGlyphs (w := "@LABEL".toList) (by decide) e
  have happly : occursIn "(@APPLY" (replaceGlyphs e) = occursIn "(@APPLY" e :=
    occursIn_replaceGlyphs (w := "@APPLY".toList) (by decide) e
  have hstart : ["(/", "(*", "(+", "(-"].any
        (fun w : String => w.toList.isPrefixOf (replaceGlyphs e)) =
      ["(/", "(*", "(+", "(-"].any fun w : String => w.toList.isPrefixOf e := by
    simp only [List.any_cons, List.any_nil]
    rw [isPrefixOf_replaceGlyphs (by decide), isPrefixOf_replaceGlyphs (by decide),
      isPrefixOf_replaceGlyphs (by decide), isPrefixOf_replaceGlyphs (by decide)]
  rw [isEvaluation, isEvaluation, hstart, hlabel, happly]

end Layer

namespace Form

theorem replaceGlyphs_form (op : Operator) (r : Text) :
    replaceGlyphs ('(' :: op.symbol :: r) = '(' :: op.symbol :: replaceGlyphs r := by
  have hsymbol : isAscii op.symbol = true := by cases op <;> rfl
  rw [replaceGlyphs_cons_ascii rfl, replaceGlyphs_cons_ascii hsymbol]

theorem operator?_replaceGlyphs {e : Text} {op : Operator} (h : operator? e = some op) :
    operator? (replaceGlyphs e) = some op := by
  obtain ⟨r, rfl⟩ := exists_of_operator? h
  rw [replaceGlyphs_form]
  exact h

theorem exists_raised {e : Text} {op : Operator} (hnone : operator? e = none)
    (h : operator? (replaceGlyphs e) = some op) :
    op = .power ∧ ∃ c r g, e = '(' :: c :: r ∧ glyph c = '^' :: '{' :: g := by
  obtain ⟨r', hr'⟩ := exists_of_operator? h
  obtain ⟨x, y, rfl, hx, hy⟩ := exists_of_replaceGlyphs_eq (u := []) not_isAtomic_parens.1 hr'
  obtain rfl := replaceGlyphs_eq_nil_iff.mp hx.symm
  cases y with
  | nil => cases hy
  | cons c r =>
      rw [replaceGlyphs_cons] at hy
      rcases glyph_cases c with hc | hc
      · rw [hc] at hy
        obtain ⟨rfl, -⟩ := List.cons.inj hy
        exact absurd (hnone.symm.trans (Operator.ofChar?_symbol op)) (by simp)
      · have hall : glyphs.all (fun p => (p.2.head?.bind Operator.ofChar?).isNone ||
            ['^', '{'].isPrefixOf p.2) = true := by decide
        obtain ⟨d, g, hg⟩ := List.exists_cons_of_ne_nil (glyph_ne_nil c)
        have hraised := List.all_eq_true.mp hall _ hc
        rw [hg] at hy hraised
        obtain ⟨rfl, -⟩ := List.cons.inj hy
        rw [Bool.or_eq_true, List.head?_cons, Option.bind_some, Operator.ofChar?_symbol] at hraised
        obtain ⟨g', hg'⟩ := List.isPrefixOf_iff_prefix.mp (hraised.resolve_left (by simp))
        obtain ⟨hsymbol, rfl⟩ := List.cons.inj hg'
        refine ⟨?_, c, r, g', rfl, by rw [hg, hsymbol]; rfl⟩
        cases op <;> first | rfl | cases hsymbol

theorem dropClosing_replaceGlyphs (t : Text) :
    dropClosing (replaceGlyphs t) = replaceGlyphs (dropClosing t) := by
  rcases List.eq_nil_or_concat t with rfl | ⟨s, c, rfl⟩
  · rfl
  · rw [List.concat_eq_append, replaceGlyphs_append]
    have hc : replaceGlyphs [c] = glyph c := by simp
    by_cases hclose : c = ')'
    · subst hclose
      rw [hc, glyph_ascii rfl, dropClosing_concat, dropClosing_concat]
    · have hlast : (replaceGlyphs s ++ glyph c).getLast? ≠ some ')' := by
        rw [List.getLast?_append_of_ne_nil _ (glyph_ne_nil c)]
        intro hmem
        have hparen := isParen_of_mem_glyph (List.mem_of_mem_getLast? hmem)
        rcases paren_cases c with rfl | rfl | hother
        · rw [glyph_ascii rfl] at hmem
          cases hmem
        · exact hclose rfl
        · rw [hother] at hparen
          cases hparen
      rw [hc, dropClosing, if_neg hlast, dropClosing, if_neg (by simpa using hclose),
        replaceGlyphs_append, hc]

theorem operands_replaceGlyphs {e : Text} {op : Operator} (h : operator? e = some op) :
    operands (replaceGlyphs e) = (operands e).map replaceGlyphs := by
  obtain ⟨r, rfl⟩ := exists_of_operator? h
  rw [replaceGlyphs_form, operands_form, operands_form, dropClosing_replaceGlyphs,
    split_replaceGlyphs]

theorem isWhole_replaceGlyphs (e : Text) : isWhole (replaceGlyphs e) = isWhole e := by
  rw [Bool.eq_iff_iff, isWhole_iff, isWhole_iff]
  constructor
  · rintro ⟨t, ht, he⟩
    obtain ⟨x, y, rfl, hx, hy⟩ := exists_of_replaceGlyphs_eq (u := []) not_isAtomic_parens.1 he
    obtain ⟨z, w, rfl, rfl, hw⟩ := exists_of_replaceGlyphs_eq not_isAtomic_parens.2 hy.symm
    obtain rfl := replaceGlyphs_eq_nil_iff.mp hx.symm
    obtain rfl := replaceGlyphs_eq_nil_iff.mp hw.symm
    exact ⟨z, (depthFrom_replaceGlyphs 0 z).symm.trans ht, rfl⟩
  · rintro ⟨t, ht, rfl⟩
    refine ⟨replaceGlyphs t, (depthFrom_replaceGlyphs 0 t).trans ht, ?_⟩
    rw [replaceGlyphs_cons_ascii rfl, replaceGlyphs_append]
    rfl

theorem spacedOperands_replaceGlyphs {e : Text} {op : Operator} (h : operator? e = some op)
    (hw : isWhole e = true) :
    Layer.spacedOperands (replaceGlyphs e) = (Layer.spacedOperands e).map replaceGlyphs := by
  obtain ⟨body, rfl⟩ := exists_body h hw
  have hclose : replaceGlyphs (body ++ [')']) = replaceGlyphs body ++ [')'] := by
    rw [replaceGlyphs_append]
    rfl
  have hdrop (t : Text) : (('(' :: op.symbol :: (t ++ [')'])).drop 2).dropLast = t := by simp
  rw [Layer.spacedOperands, Layer.spacedOperands, replaceGlyphs_form, hclose, hdrop, hdrop,
    trim_replaceGlyphs, split_replaceGlyphs]

theorem Operator.render_replaceGlyphs (op : Operator) (ts : List Text) :
    op.render (ts.map replaceGlyphs) = (op.render ts).map replaceGlyphs := by
  have hbase : ts.head? = some ['e'] ↔ (ts.map replaceGlyphs).head? = some ['e'] := by
    cases ts with
    | nil => simp
    | cons a ts =>
        have he : replaceGlyphs ['e'] = ['e'] := by decide
        rw [List.map_cons, List.head?_cons, List.head?_cons, Option.some_inj, Option.some_inj]
        exact ⟨fun h => h ▸ he, eq_of_replaceGlyphs_eq (by decide)⟩
  cases hrender : op.render ts with
  | none =>
      have hsome := isSome_render op (ts.map replaceGlyphs)
      rw [List.length_map, ← isSome_render, hrender] at hsome
      exact Option.isNone_iff_eq_none.mp (by simpa using hsome)
  | some t =>
      obtain ⟨v, hv, rfl⟩ :=
        assembles_replaceGlyphs.render (forall₂_replaceGlyphs ts) (fun _ => hbase) hrender
      exact hv

end Form

end WorksheetTex
