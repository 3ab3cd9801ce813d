import WorksheetTex.Text.Blank

namespace WorksheetTex.Text

theorem dropWhile_of_head? {p : Char → Bool} {t : Text} (h : ∀ c ∈ t.head?, p c = false) :
    t.dropWhile p = t := by
  cases t with
  | nil => rfl
  | cons c r => simp [h c rfl]

theorem takeWhile_append_of_head {p : Char → Bool} {w r : Text} (hw : ∀ c ∈ w, p c = true)
    (hr : ∀ c ∈ r.head?, p c = false) : (w ++ r).takeWhile p = w := by
  rw [List.takeWhile_append_of_pos hw]
  cases r with
  | nil => simp
  | cons c r => simp [hr c rfl]

theorem trimStart_of_head? {t : Text} (h : ∀ c ∈ t.head?, isBlank c = false) : trimStart t = t :=
  dropWhile_of_head? h

theorem trimEnd_of_getLast? {t : Text} (h : ∀ c ∈ t.getLast?, isBlank c = false) :
    trimEnd t = t := by
  have hr : ∀ c ∈ t.reverse.head?, isBlank c = false := by
    simpa only [List.head?_reverse] using h
  rw [trimEnd, dropWhile_of_head? hr, List.reverse_reverse]

theorem trim_of_ends {t : Text} (hh : ∀ c ∈ t.head?, isBlank c = false)
    (hl : ∀ c ∈ t.getLast?, isBlank c = false) : trim t = t := by
  rw [trim, trimStart_of_head? hh, trimEnd_of_getLast? hl]

theorem trimStart_append {g t : Text} (hg : ∀ c ∈ g, isBlank c = true)
    (ht : ∀ c ∈ t.head?, isBlank c = false) : trimStart (g ++ t) = t := by
  rw [trimStart, List.dropWhile_append_of_pos hg]
  exact dropWhile_of_head? ht

theorem trim_blank_append {b : Text} (hb : allBlank b = true) (t : Text) :
    trim (b ++ t) = trim t := by
  have hb : ∀ c ∈ b, isBlank c = true := List.all_eq_true.mp hb
  rw [trim, trimStart, List.dropWhile_append_of_pos hb]
  rfl

theorem trim_append_blank {b : Text} (hb : allBlank b = true) (t : Text) :
    trim (t ++ b) = trim t := by
  have hb : ∀ c ∈ b, isBlank c = true := List.all_eq_true.mp hb
  have hr : ∀ c ∈ b.reverse, isBlank c = true := fun c hc => hb c (List.mem_reverse.mp hc)
  rw [trim, trim, trimStart, trimStart, List.dropWhile_append]
  split
  · next h =>
      have hnil : (b ++ []).dropWhile isBlank = [] := List.dropWhile_append_of_pos hb
      rw [List.append_nil] at hnil
      rw [List.isEmpty_iff.mp h, hnil]
  · rw [trimEnd, List.reverse_append, List.dropWhile_append_of_pos hr]
    rfl

theorem exists_trim (t : Text) :
    ∃ b b', allBlank b = true ∧ allBlank b' = true ∧ t = b ++ (trim t ++ b') := by
  refine ⟨t.takeWhile isBlank, ((trimStart t).reverse.takeWhile isBlank).reverse, ?_, ?_, ?_⟩
  · exact List.all_takeWhile
  · rw [allBlank, List.all_reverse]
    exact List.all_takeWhile
  · have hend : trim t ++ ((trimStart t).reverse.takeWhile isBlank).reverse = trimStart t := by
      rw [trim, trimEnd, ← List.reverse_append, List.takeWhile_append_dropWhile,
        List.reverse_reverse]
    rw [hend, trimStart, List.takeWhile_append_dropWhile]

@[simp] theorem trim_trim (t : Text) : trim (trim t) = trim t := by
  obtain ⟨b, b', hb, hb', ht⟩ := exists_trim t
  calc trim (trim t) = trim (b ++ (trim t ++ b')) := by
        rw [trim_blank_append hb, trim_append_blank hb']
    _ = trim t := by rw [← ht]

theorem trim_isInfix (t : Text) : trim t <:+: t := by
  obtain ⟨b, b', _, _, ht⟩ := exists_trim t
  exact ⟨b, b', by rw [List.append_assoc, ← ht]⟩

theorem head_trim_not_blank (t : Text) : ∀ c ∈ (trim t).head?, isBlank c = false := by
  intro c hc
  obtain ⟨r, ht⟩ := List.head?_eq_some_iff.mp hc
  refine Bool.eq_false_iff.mpr fun hc => ?_
  have hblank : allBlank [c] = true := by simp [allBlank, hc]
  have hr : trim r = c :: r := by
    rw [← ht, ← trim_trim t, ht, ← trim_blank_append hblank r]
    rfl
  have hlen := length_trim_le r
  rw [hr, List.length_cons] at hlen
  omega

theorem last_trim_not_blank (t : Text) : ∀ c ∈ (trim t).getLast?, isBlank c = false := by
  intro c hc
  have hdrop := List.head?_dropWhile_not isBlank (trimStart t).reverse
  rw [trim, trimEnd, List.getLast?_reverse] at hc
  rw [Option.mem_def.mp hc] at hdrop
  exact hdrop

theorem exists_cons_trim {t : Text} (h : allBlank t = false) :
    ∃ c r, trim t = c :: r ∧ isBlank c = false := by
  cases ht : trim t with
  | nil =>
      obtain ⟨b, b', hb, hb', heq⟩ := exists_trim t
      rw [allBlank] at hb hb'
      rw [heq, ht, allBlank, List.nil_append, List.all_append, hb, hb'] at h
      cases h
  | cons c r => exact ⟨c, r, rfl, head_trim_not_blank t c (by rw [ht]; rfl)⟩

structure IsWord (w : Text) : Prop where
  ne_nil : w ≠ []
  not_blank : ∀ c ∈ w, isBlank c = false

theorem IsWord.append {w v : Text} (hw : IsWord w) (hv : ∀ c ∈ v, isBlank c = false) :
    IsWord (w ++ v) where
  ne_nil := by simp [hw.ne_nil]
  not_blank := by
    intro c hc
    rcases List.mem_append.mp hc with h | h
    · exact hw.not_blank c h
    · exact hv c h

theorem words_blank {c : Char} (h : isBlank c = true) (r : Text) : words (c :: r) = words r := by
  simp [words, h]

theorem words_word {w : Text} (hw : IsWord w) : words w = [w] := by
  obtain ⟨hne, hb⟩ := hw
  induction w with
  | nil => exact absurd rfl hne
  | cons c r ih =>
      have hc := hb c (by simp)
      cases r with
      | nil => simp [words, hc]
      | cons d s =>
          have hd := hb d (by simp)
          have hw := ih (by simp) fun x hx => hb x (by simp [hx])
          rw [words]
          simp [hc, hd, hw]

theorem words_word_blank {w : Text} (hw : IsWord w) {b : Char} (hb : isBlank b = true) (t : Text) :
    words (w ++ b :: t) = w :: words t := by
  obtain ⟨hne, hn⟩ := hw
  induction w with
  | nil => exact absurd rfl hne
  | cons c r ih =>
      have hc := hn c (by simp)
      cases r with
      | nil => simp [words, hc, hb]
      | cons d s =>
          have hd := hn d (by simp)
          have hw := ih (by simp) fun x hx => hn x (by simp [hx])
          rw [List.cons_append, List.cons_append, words]
          rw [List.cons_append] at hw
          simp [hc, hd, hw]

theorem exists_word {c : Char} (hc : isBlank c = false) (r : Text) :
    ∃ w v, IsWord w ∧ c :: r = w ++ v ∧ ∀ b ∈ v.head?, isBlank b = true := by
  have hword : ∀ x ∈ r.takeWhile (!isBlank ·), isBlank x = false := fun x hx => by
    simpa using List.all_eq_true.mp List.all_takeWhile x hx
  refine ⟨c :: r.takeWhile (!isBlank ·), r.dropWhile (!isBlank ·), ⟨by simp, ?_⟩, ?_, ?_⟩
  · simpa [hc] using hword
  · rw [List.cons_append, List.takeWhile_append_dropWhile]
  · intro b hb
    have := List.head?_dropWhile_not (!isBlank ·) r
    rw [hb] at this
    simpa using this

@[elab_as_elim]
theorem words_induct {motive : Text → Prop} (nil : motive [])
    (blank : ∀ c r, isBlank c = true → motive r → motive (c :: r))
    (word : ∀ w, IsWord w → motive w)
    (cons : ∀ w c r, IsWord w → isBlank c = true → motive r → motive (w ++ c :: r)) (t : Text) :
    motive t := by
  induction hn : t.length using Nat.strongRecOn generalizing t with
  | ind n ih =>
      cases t with
      | nil => exact nil
      | cons c r =>
          cases hc : isBlank c with
          | true => exact blank c r hc (ih r.length (by simp at hn; omega) r rfl)
          | false =>
              obtain ⟨w, v, hw, hwv, hv⟩ := exists_word hc r
              rw [hwv]
              cases v with
              | nil => exact (List.append_nil w).symm ▸ word w hw
              | cons b u =>
                  have hlen := congrArg List.length hwv
                  simp only [List.length_append, List.length_cons] at hlen hn
                  exact cons w b u hw (hv b rfl) (ih u.length (by omega) u rfl)

theorem joinWith_cons {separator t : Text} {ts : List Text} (h : ts ≠ []) :
    joinWith separator (t :: ts) = t ++ separator ++ joinWith separator ts := by
  cases ts with
  | nil => exact absurd rfl h
  | cons u us => simp [joinWith, List.intercalate]

theorem joinWith_eq_flatMap (w t : Text) (ts : List Text) :
    joinWith w (t :: ts) = t ++ ts.flatMap (w ++ ·) := by
  induction ts generalizing t with
  | nil => simp [joinWith]
  | cons u ts ih =>
      rw [joinWith_cons (List.cons_ne_nil u ts), ih]
      simp

theorem joinWith_append (w : Text) {ts : List Text} (hts : ts ≠ []) (us : List Text) :
    joinWith w (ts ++ us) = joinWith w ts ++ us.flatMap (w ++ ·) := by
  obtain ⟨t, ts, rfl⟩ := List.exists_cons_of_ne_nil hts
  rw [List.cons_append, joinWith_eq_flatMap, joinWith_eq_flatMap, List.flatMap_append,
    List.append_assoc]

theorem count_collapseBlanks {x : Char} (hx : isBlank x = false) (t : Text) :
    (collapseBlanks t).count x = t.count x := by
  have hne {c : Char} (hc : isBlank c = true) : c ≠ x := by
    rintro rfl
    rw [hx] at hc
    cases hc
  induction t using words_induct with
  | nil => rfl
  | blank c r hc ih =>
      rw [collapseBlanks, words_blank hc, List.count_cons_of_ne (hne hc)]
      exact ih
  | word w hw =>
      rw [collapseBlanks, words_word hw]
      simp [joinWith]
  | cons w c r hw hc ih =>
      rw [List.count_append, List.count_cons_of_ne (hne hc), ← ih, collapseBlanks, collapseBlanks,
        words_word_blank hw hc]
      cases words r with
      | nil => simp [joinWith]
      | cons v vs =>
          have hspace : [' '].count x = 0 :=
            List.count_eq_zero.mpr (by simpa using (hne (c := ' ') (by decide)).symm)
          rw [joinWith_cons (List.cons_ne_nil v vs), List.count_append, List.count_append, hspace,
            Nat.add_zero]

theorem occursIn_flat {s : Text} (hs : '(' ∉ s) (w t : Text) :
    occursIn ('(' :: w) (s ++ t) = occursIn ('(' :: w) t := by
  induction s with
  | nil => rfl
  | cons c s ih =>
      have hc : '(' ≠ c := fun hc => hs (hc ▸ List.mem_cons_self)
      rw [List.cons_append, occursIn, ih fun hmem => hs (by simp [hmem])]
      simp [List.isPrefixOf, hc]

end WorksheetTex.Text
