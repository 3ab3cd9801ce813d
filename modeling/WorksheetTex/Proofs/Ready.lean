import WorksheetTex.Proofs.Notation
import WorksheetTex.Proofs.Recogniser

namespace WorksheetTex.Evaluation

open Text Paren Vocabulary Form

def enclose (head body : Text) : Text :=
  '(' :: (head ++ (body ++ [')']))

theorem dropBlanks?_gapRun {g t : Text} (hg : IsGapRun g) (ht : ∀ c ∈ t.head?, isBlank c = false) :
    dropBlanks? (g ++ t) = some t := by
  obtain ⟨hne, hgap⟩ := hg
  cases g with
  | nil => exact absurd rfl hne
  | cons c g =>
      have hblank : ∀ x ∈ g, isBlank x = true := fun x hx =>
        isBlank_of_isGap (hgap x (by simp [hx]))
      simp [dropBlanks?, isBlank_of_isGap (hgap c (by simp)), trimStart_append hblank ht]

theorem takeRun?_append {p : Char → Bool} {w r : Text} (hne : w ≠ []) (hw : ∀ c ∈ w, p c = true)
    (hr : ∀ c ∈ r.head?, p c = false) : takeRun? p (w ++ r) = some (w, r) := by
  have hdrop : (w ++ r).dropWhile p = r := by
    rw [List.dropWhile_append_of_pos hw]
    exact dropWhile_of_head? hr
  simp only [takeRun?, takeWhile_append_of_head hw hr, hdrop]

theorem head?_gapRun {g : Text} (hg : IsGapRun g) (t : Text) :
    ∃ c, (g ++ t).head? = some c ∧ isGap c = true := by
  obtain ⟨hne, hgap⟩ := hg
  cases g with
  | nil => exact absurd rfl hne
  | cons c g => exact ⟨c, rfl, hgap c (by simp)⟩

section Items

variable {ts : List Text} {body : Text}

theorem spread_head? (h : Spread ts body) : ∀ c ∈ body.head?, isGap c = true := by
  cases h with
  | nil => simp
  | @cons g t r ts hg hr =>
      obtain ⟨d, hd, hgap⟩ := head?_gapRun hg (t ++ r)
      intro c hc
      rw [List.append_assoc, hd] at hc
      obtain rfl := Option.some.inj hc
      exact hgap

theorem spread_pair_iff {s t : Text} :
    Spread [s, t] body ↔ ∃ g g', IsGapRun g ∧ IsGapRun g' ∧ body = g ++ s ++ (g' ++ t) := by
  constructor
  · intro h
    cases h with
    | @cons g _ _ _ hg h =>
        cases h with
        | @cons g' _ _ _ hg' h =>
            cases h with
            | nil => exact ⟨g, g', hg, hg', by simp⟩
  · rintro ⟨g, g', hg, hg', rfl⟩
    have hlast : Spread [t] (g' ++ t ++ []) := .cons hg' .nil
    rw [List.append_nil] at hlast
    exact .cons hg hlast

theorem words_gaps {g : Text} (hg : ∀ c ∈ g, isGap c = true) (t : Text) :
    words (g ++ t) = words t := by
  induction g with
  | nil => rfl
  | cons c g ih =>
      rw [List.cons_append, words_blank (isBlank_of_isGap (hg c (by simp)))]
      exact ih fun x hx => hg x (by simp [hx])

theorem words_spread (h : Spread ts body) (hw : ∀ t ∈ ts, IsWord t) : words body = ts := by
  induction h with
  | nil => rfl
  | @cons g t r ts hg hr ih =>
      have ht := hw t (by simp)
      have hrest := ih fun s hs => hw s (by simp [hs])
      rw [List.append_assoc, words_gaps hg.2]
      cases r with
      | nil => rw [List.append_nil, words_word ht, ← hrest]; rfl
      | cons c r =>
          have hblank := isBlank_of_isGap (spread_head? hr c rfl)
          rw [words_word_blank ht hblank, ← hrest, words_blank hblank]

theorem isParen_of_spread_atoms (h : Spread ts body) (ha : ∀ t ∈ ts, ∃ a : Atom, t = a.text) :
    ∀ c ∈ body, isParen c = false := by
  induction h with
  | nil => simp
  | @cons g t r ts hg _ ih =>
      obtain ⟨a, rfl⟩ := ha t List.mem_cons_self
      have hr := ih fun t ht => ha t (List.mem_cons_of_mem _ ht)
      intro c hc
      simp only [List.mem_append] at hc
      rcases hc with (hc | hc) | hc
      · exact hg.not_paren c hc
      · exact a.not_paren hc
      · exact hr c hc

theorem spacedItems?_flat (h : Spread ts body) (hne : ts ≠ [])
    (ha : ∀ t ∈ ts, ∃ a : Atom, t = a.text) (k : Text) :
    spacedItems? (body ++ ')' :: k) = some (ts, ')' :: k) := by
  have hparen := isParen_of_spread_atoms h ha
  have hwords : words body = ts := words_spread h fun t ht => by
    obtain ⟨a, rfl⟩ := ha t ht
    exact a.isWord
  cases body with
  | nil => exact absurd hwords.symm hne
  | cons c r =>
      have hblank := isBlank_of_isGap (spread_head? h c rfl)
      rw [words_blank hblank] at hwords
      have hr : r ≠ [] := by
        rintro rfl
        exact hne hwords.symm
      have hrun : takeRun? (!isParen ·) (c :: r ++ ')' :: k) = some (c :: r, ')' :: k) := by
        refine takeRun?_append (by simp) (fun x hx => by simp [hparen x hx]) fun x hx => ?_
        obtain rfl := Option.some.inj hx
        rfl
      obtain ⟨t, ts, rfl⟩ := List.exists_cons_of_ne_nil hne
      rw [spacedItems?, hrun]
      simp [hblank, hr, hwords]

theorem spacedItems?_form {s k r : Text} (hs : ∀ c ∈ s, isParen c = false) {items : List Text}
    (h : spacedItems? (s ++ '(' :: k) = some (items, r)) : r = '(' :: k := by
  have hflat : ∀ c ∈ s, (!isParen c) = true := fun c hc => by simp [hs c hc]
  have hopen : ∀ c ∈ ('(' :: k).head?, (!isParen c) = false := by simp [isParen]
  cases s with
  | nil => cases h
  | cons c s =>
      rw [spacedItems?, takeRun?_append (by simp) hflat hopen] at h
      simp only [Option.bind_eq_bind, Option.bind_some] at h
      split at h
      · split at h
        · exact (Prod.mk.inj (Option.some.inj h)).2.symm
        · exact (Prod.mk.inj (Option.some.inj h)).2.symm
      · cases h

theorem spread_cases (h : Spread ts body) (hi : ∀ t ∈ ts, Item t) :
    (∀ t ∈ ts, ∃ a : Atom, t = a.text) ∨
      ∃ s r, body = s ++ '(' :: r ∧ ∀ c ∈ s, isParen c = false := by
  induction h with
  | nil => exact .inl (by simp)
  | @cons g t r ts hg _ ih =>
      have hgap := hg.not_paren
      cases hi t List.mem_cons_self with
      | @form s _ => exact .inr ⟨g, s ++ [')'] ++ r, by simp, hgap⟩
      | atom a =>
          rcases ih fun t ht => hi t (List.mem_cons_of_mem _ ht) with hts | ⟨s, r', rfl, hs⟩
          · exact .inl (List.forall_mem_cons.mpr ⟨⟨a, rfl⟩, hts⟩)
          · refine .inr ⟨g ++ a.text ++ s, r', by simp, ?_⟩
            intro c hc
            simp only [List.mem_append] at hc
            rcases hc with (hc | hc) | hc
            · exact hgap c hc
            · exact a.not_paren hc
            · exact hs c hc

theorem item_enclose {head : Text} (hhead : head.any isParen = false) (h : Spread ts body)
    (hi : ∀ t ∈ ts, Item t) : Item (enclose head body) := by
  rw [enclose, ← List.append_assoc]
  have hflat : Balanced head := balanced_flat fun c hc => by
    simpa using List.any_eq_false.mp hhead c hc
  exact .form (hflat.append (h.balanced hi))

end Items

section Rules

variable {lex : Lexicon} {body args : Text} {kind name : Atom} {xs : List Text}

theorem not_blank_head? (a : Atom) (t : Text) : ∀ c ∈ (a.text ++ t).head?, isBlank c = false := by
  intro c hc
  rw [List.head?_append_of_ne_nil _ a.ne_nil] at hc
  exact a.not_blank (List.mem_of_mem_head? hc)

theorem takeRun?_gapRun {p : Char → Bool} (hp : ∀ c, isGap c = true → p c = false) {w g : Text}
    (hne : w ≠ []) (hw : ∀ c ∈ w, p c = true) (hg : IsGapRun g) (t : Text) :
    takeRun? p (w ++ (g ++ t)) = some (w, g ++ t) := by
  refine takeRun?_append hne hw fun c hc => ?_
  obtain ⟨d, hd, hgap⟩ := head?_gapRun hg t
  rw [hd] at hc
  obtain rfl := Option.some.inj hc
  exact hp _ hgap

theorem not_isLatin_of_isGap {c : Char} (h : isGap c = true) : isLatin c = false := by
  simp only [isGap, Bool.or_eq_true, beq_iff_eq] at h
  rcases h with ((rfl | rfl) | rfl) | rfl <;> rfl

theorem labelRule_label (hkind : ∀ c ∈ kind.text, isLatin c = true)
    (h : Spread [kind.text, name.text] body) (k : Text) :
    labelRule lex [] (enclose "@LABEL" body ++ k) =
      some ((enclose "@LABEL" body).length, labelPiece lex kind.text name.text) := by
  obtain ⟨g, g', hg, hg', rfl⟩ := spread_pair_iff.mp h
  have htext : enclose "@LABEL" (g ++ kind.text ++ (g' ++ name.text)) ++ k =
      "(@LABEL" ++ (g ++ (kind.text ++ (g' ++ (name.text ++ (")" ++ k))))) := by
    simp [enclose]
  have hblanks := dropBlanks?_gapRun hg (not_blank_head? kind (g' ++ (name.text ++ (")" ++ k))))
  have hrun := takeRun?_gapRun (fun _ => not_isLatin_of_isGap) kind.ne_nil hkind hg'
    (name.text ++ (")" ++ k))
  have hblanks' := dropBlanks?_gapRun hg' (not_blank_head? name (")" ++ k))
  have hrun' : takeRun? isAtomic (name.text ++ (")" ++ k)) = some (name.text, ")" ++ k) := by
    refine takeRun?_append name.ne_nil name.atomic fun x hx => ?_
    obtain rfl := Option.some.inj hx
    rfl
  rw [← consumed_append _ k, htext, labelRule, Scan.rule, labelScan]
  simp only [Option.bind_eq_bind, dropPrefix?_append, Option.bind_some, hblanks, hrun, hblanks',
    hrun']
  rfl

theorem applyScan_application (h : Spread [name.text, enclose "@ARGS" args] body) (k : Text) :
    applyScan lex (enclose "@APPLY" body ++ k) =
      (spacedItems? (args ++ ("))" ++ k))).bind fun (items, r) =>
        (dropPrefix? "))" r).bind fun rest => some (applyPiece lex name.text items, rest) := by
  obtain ⟨g, g', hg, hg', rfl⟩ := spread_pair_iff.mp h
  have htext : enclose "@APPLY" (g ++ name.text ++ (g' ++ enclose "@ARGS" args)) ++ k =
      "(@APPLY" ++ (g ++ (name.text ++ (g' ++ ("(@ARGS" ++ (args ++ ("))" ++ k)))))) := by
    simp [enclose]
  have hblanks := dropBlanks?_gapRun hg
    (not_blank_head? name (g' ++ ("(@ARGS" ++ (args ++ ("))" ++ k)))))
  have hrun := takeRun?_gapRun (fun _ => not_isAtomic_of_isGap) name.ne_nil name.atomic hg'
    ("(@ARGS" ++ (args ++ ("))" ++ k)))
  have hopen : ∀ c ∈ ("(@ARGS" ++ (args ++ ("))" ++ k))).head?, isBlank c = false := by
    intro c hc
    obtain rfl := Option.some.inj hc
    rfl
  rw [htext, applyScan]
  simp only [Option.bind_eq_bind, dropPrefix?_append, Option.bind_some, hblanks, hrun,
    dropBlanks?_gapRun hg' hopen]
  rfl

theorem applyRule_hit (h : Spread [name.text, enclose "@ARGS" args] body) (hargs : Spread xs args)
    (hne : xs ≠ []) (ha : ∀ x ∈ xs, ∃ a : Atom, x = a.text) (k : Text) :
    applyRule lex [] (enclose "@APPLY" body ++ k) =
      some ((enclose "@APPLY" body).length, applyPiece lex name.text xs) := by
  have hitems : spacedItems? (args ++ ("))" ++ k)) = some (xs, "))" ++ k) :=
    spacedItems?_flat hargs hne ha (')' :: k)
  rw [applyRule, Scan.rule, applyScan_application h, hitems]
  simp only [Option.bind_some, dropPrefix?_append, Option.map_some, consumed_append]

theorem applyRule_miss {s r : Text} (h : Spread [name.text, enclose "@ARGS" (s ++ '(' :: r)] body)
    (hs : ∀ c ∈ s, isParen c = false) (k : Text) :
    applyRule lex [] (enclose "@APPLY" body ++ k) = none := by
  rw [applyRule, Scan.rule, applyScan_application h, Option.map_eq_none_iff,
    Option.bind_eq_none_iff]
  rintro ⟨items, rest⟩ hitems
  rw [List.append_assoc, List.cons_append] at hitems
  obtain rfl := spacedItems?_form hs hitems
  rfl

theorem operatorScan_operation (op : Operator) (body k : Text) :
    operatorScan (enclose [op.symbol] body ++ k) =
      (spacedItems? (body ++ (")" ++ k))).bind fun (items, r) =>
        (dropPrefix? ")" r).bind fun rest =>
          (op.render (items.map replaceGlyphs)).bind fun piece => some (piece, rest) := by
  have hop : operator? (enclose [op.symbol] body ++ k) = some op := Operator.ofChar?_symbol op
  have hdrop : (enclose [op.symbol] body ++ k).drop 2 = body ++ (")" ++ k) := by
    simp [enclose]
  rw [operatorScan]
  simp only [Option.bind_eq_bind, hop, hdrop, Option.bind_some]
  rfl

theorem operatorRule_atoms (op : Operator) (h : Spread xs body) (hne : xs ≠ [])
    (ha : ∀ x ∈ xs, ∃ a : Atom, x = a.text) (k : Text) :
    operatorRule [] (enclose [op.symbol] body ++ k) =
      (op.render (xs.map replaceGlyphs)).map fun p => ((enclose [op.symbol] body).length, p) := by
  have hitems : spacedItems? (body ++ (")" ++ k)) = some (xs, ")" ++ k) :=
    spacedItems?_flat h hne ha k
  rw [operatorRule, Scan.rule, operatorScan_operation, hitems]
  simp only [Option.bind_some, dropPrefix?_append]
  cases op.render (xs.map replaceGlyphs) with
  | none => rfl
  | some p => simp only [Option.bind_some, Option.map_some, consumed_append]

theorem operatorRule_hit {op : Operator} {p : Text} (h : Spread xs body) (hne : xs ≠ [])
    (ha : ∀ x ∈ xs, ∃ a : Atom, x = a.text) (hp : op.render (xs.map replaceGlyphs) = some p)
    (k : Text) :
    operatorRule [] (enclose [op.symbol] body ++ k) =
      some ((enclose [op.symbol] body).length, p) := by
  rw [operatorRule_atoms op h hne ha, hp]
  rfl

theorem operatorRule_miss (op : Operator) {s : Text} (hs : ∀ c ∈ s, isParen c = false)
    (r k : Text) : operatorRule [] (enclose [op.symbol] (s ++ '(' :: r) ++ k) = none := by
  rw [operatorRule, Scan.rule, operatorScan_operation, Option.map_eq_none_iff,
    Option.bind_eq_none_iff]
  rintro ⟨items, rest⟩ hitems
  rw [List.append_assoc, List.cons_append] at hitems
  obtain rfl := spacedItems?_form hs hitems
  rfl

end Rules

end WorksheetTex.Evaluation
