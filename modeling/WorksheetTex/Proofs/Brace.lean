import WorksheetTex.Proofs.Tally

namespace WorksheetTex.Tex

open Text Paren Vocabulary Form Evaluation

def BracesMatch (t : Text) : Prop :=
  (∀ s, s <+: t → s.count '}' ≤ s.count '{') ∧ t.count '}' = t.count '{'

def braceStep (inside : Char → Bool) (depth : Nat) (c : Char) : Option Nat :=
  if c = '{' then some (depth + 1)
  else if c = '}' then
    match depth with
    | 0 => none
    | d + 1 => some d
  else if depth = 0 ∨ inside c = true then some depth
  else none

def braceDepth (inside : Char → Bool) : Nat → Text → Option Nat
  | depth, [] => some depth
  | depth, c :: t => (braceStep inside depth c).bind (braceDepth inside · t)

abbrev anywhere : Char → Bool := fun _ => true

def Braced (t : Text) : Prop :=
  braceDepth anywhere 0 t = some 0

instance : DecidablePred Braced :=
  fun _ => inferInstanceAs (Decidable (_ = _))

def Neat (t : Text) : Prop :=
  braceDepth isAtomic 0 t = some 0

section Step

variable {inside : Char → Bool} {c : Char} {d e : Nat}

theorem braceStep_of_ne (hopen : c ≠ '{') (hclose : c ≠ '}') (h : d = 0 ∨ inside c = true) :
    braceStep inside d c = some d := by
  simp [braceStep, hopen, hclose, h]

theorem braceStep_zero (hopen : c ≠ '{') (hclose : c ≠ '}') : braceStep inside 0 c = some 0 :=
  braceStep_of_ne hopen hclose (.inl rfl)

theorem braceStep_mono {inside' : Char → Bool} (hc : inside c = true → inside' c = true)
    (h : braceStep inside d c = some e) : braceStep inside' d c = some e := by
  unfold braceStep at h ⊢
  split
  · simpa [*] using h
  · split
    · simpa [*] using h
    · rw [if_neg ‹_›, if_neg ‹_›] at h
      split at h
      · next hd => rwa [if_pos (hd.imp_right hc)]
      · cases h

theorem eq_zero_of_braceStep (hc : isAtomic c = false) (h : braceStep isAtomic d c = some e) :
    d = 0 ∧ e = 0 := by
  have hopen : c ≠ '{' := by rintro rfl; revert hc; decide
  have hclose : c ≠ '}' := by rintro rfl; revert hc; decide
  simp only [braceStep, hopen, hclose, if_false, hc, Bool.false_eq_true, or_false] at h
  split at h
  · next hd => exact ⟨hd, by rw [← Option.some.inj h, hd]⟩
  · cases h

end Step

section Depth

variable {inside : Char → Bool} {s t : Text} {d e : Nat}

theorem braceDepth_append (inside : Char → Bool) (d : Nat) (s t : Text) :
    braceDepth inside d (s ++ t) = (braceDepth inside d s).bind (braceDepth inside · t) := by
  induction s generalizing d with
  | nil => rfl
  | cons c s ih =>
      rw [List.cons_append, braceDepth, braceDepth, Option.bind_assoc]
      congr 1
      exact funext ih

theorem braceDepth_append_of (h : braceDepth inside d s = some e) (t : Text) :
    braceDepth inside d (s ++ t) = braceDepth inside e t := by
  rw [braceDepth_append, h]
  rfl

theorem braceDepth_mono {inside' : Char → Bool}
    (ht : ∀ c ∈ t, inside c = true → inside' c = true) (h : braceDepth inside d t = some e) :
    braceDepth inside' d t = some e := by
  induction t generalizing d with
  | nil => exact h
  | cons c t ih =>
      obtain ⟨d', hd, hrest⟩ := Option.bind_eq_some_iff.mp h
      rw [braceDepth, braceStep_mono (ht c (by simp)) hd]
      exact ih (fun x hx => ht x (by simp [hx])) hrest

theorem braceDepth_flat (hs : ∀ c ∈ s, c ≠ '{' ∧ c ≠ '}' ∧ inside c = true) (d : Nat) (t : Text) :
    braceDepth inside d (s ++ t) = braceDepth inside d t := by
  induction s with
  | nil => rfl
  | cons c s ih =>
      obtain ⟨hopen, hclose, hc⟩ := hs c (by simp)
      rw [List.cons_append, braceDepth, braceStep_of_ne hopen hclose (.inr hc)]
      exact ih fun x hx => hs x (by simp [hx])

theorem braceDepth_skip {c : Char} (hopen : c ≠ '{') (hclose : c ≠ '}') (d : Nat) (t : Text) :
    braceDepth anywhere d (c :: t) = braceDepth anywhere d t :=
  braceDepth_flat (s := [c]) (by simp [hopen, hclose]) d t

theorem tallies_braceDepth : Tallies '{' '}' (braceDepth anywhere) where
  nil _ := rfl
  opens _ _ := rfl
  stops _ := rfl
  closes _ _ := rfl
  skips d t hopen hclose := braceDepth_skip hopen hclose d t

theorem braceDepth_eq_some_iff :
    braceDepth anywhere d t = some e ↔
      (∀ s, s <+: t → s.count '}' ≤ d + s.count '{') ∧ e + t.count '}' = d + t.count '{' :=
  tallies_braceDepth.eq_some_iff (by decide)

theorem braced_iff : Braced t ↔ BracesMatch t := by
  rw [Braced, braceDepth_eq_some_iff, BracesMatch]
  simp

end Depth

theorem Neat.braced {t : Text} (h : Neat t) : Braced t :=
  braceDepth_mono (fun _ _ _ => rfl) h

theorem Neat.of_not_mem {t : Text} (hopen : '{' ∉ t) (hclose : '}' ∉ t) : Neat t := by
  induction t with
  | nil => rfl
  | cons c t ih =>
      have hc : c ≠ '{' ∧ c ≠ '}' := ⟨fun h => hopen (by simp [h]), fun h => hclose (by simp [h])⟩
      rw [Neat, braceDepth, braceStep_zero hc.1 hc.2]
      exact ih (fun h => hopen (by simp [h])) fun h => hclose (by simp [h])

namespace Braced

variable {s t : Text}

theorem depth (h : Braced t) (d : Nat) : braceDepth anywhere d t = some d :=
  tallies_braceDepth.of_zero (by decide) h d

theorem append (hs : Braced s) (ht : Braced t) : Braced (s ++ t) := by
  rw [Braced, braceDepth_append_of hs]
  exact ht

theorem group (h : Braced t) : Braced (group t) := by
  have hstep : braceDepth anywhere 0 ('{' :: t) = some 1 := h.depth 1
  rw [Braced, Tex.group, braceDepth_append_of hstep]
  rfl

end Braced

theorem composes_braced : Composes Braced where
  assembles := by
    refine ⟨.append, fun {t} ht => ?_, .group, fun {t} _ h => ?_⟩
    · have hliteral := List.all_eq_true.mp ht
      exact (Neat.of_not_mem (fun hmem => absurd (hliteral _ hmem) (by decide))
        fun hmem => absurd (hliteral _ hmem) (by decide)).braced
    · have hopen : Braced ['('] := rfl
      have hclose : Braced [')'] := rfl
      exact hopen.append (h.append hclose)
  slots hs ht := (tallies_braceDepth.fillSlots (by decide) ht.depth 0 _).trans hs

theorem Braced.spaceCommands {t : Text} (h : Braced t) : Braced (spaceCommands t) :=
  (tallies_braceDepth.spaceCommands (by decide) 0 t).trans h

theorem braceDepth_glyph (d : Nat) (c : Char) :
    braceDepth isAtomic d (glyph c) = braceStep isAtomic d c := by
  rcases glyph_cases c with hc | hc
  · rw [hc, braceDepth]
    cases braceStep isAtomic d c <;> rfl
  · have hall : ∀ p ∈ glyphs, p.2.all isAtomic = true ∧ braceDepth anywhere 0 p.2 = some 0 ∧
        isAtomic p.1 = true ∧ p.1 ≠ '{' ∧ p.1 ≠ '}' := by decide
    obtain ⟨hatomic, hbraced, hc, hopen, hclose⟩ := hall _ hc
    rw [braceStep_of_ne hopen hclose (.inr hc)]
    exact braceDepth_mono (fun x hx _ => List.all_eq_true.mp hatomic x hx)
      (Braced.depth hbraced d)

theorem braceDepth_replaceGlyphs (d : Nat) (t : Text) :
    braceDepth isAtomic d (replaceGlyphs t) = braceDepth isAtomic d t := by
  induction t generalizing d with
  | nil => rfl
  | cons c t ih =>
      rw [replaceGlyphs_cons, braceDepth_append, braceDepth_glyph, braceDepth]
      congr 1
      exact funext ih

theorem Neat.replaceGlyphs {t : Text} (h : Neat t) : Neat (replaceGlyphs t) := by
  rw [Neat, braceDepth_replaceGlyphs]
  exact h

theorem hereditary_neat : Hereditary Neat where
  cut := by
    intro s t hseam h
    rw [Neat, braceDepth_append] at h
    obtain ⟨d, hs, ht⟩ := Option.bind_eq_some_iff.mp h
    have hd : d = 0 := by
      cases t with
      | nil => exact Option.some.inj ht
      | cons b t =>
          obtain ⟨e, hb, -⟩ := Option.bind_eq_some_iff.mp ht
          cases hlast : s.getLast? with
          | none =>
              obtain rfl := List.getLast?_eq_none_iff.mp hlast
              exact (Option.some.inj hs).symm
          | some c =>
              cases hc : isAtomic c with
              | true => exact (eq_zero_of_braceStep (hseam c hlast b rfl hc) hb).1
              | false =>
                  obtain ⟨s, rfl⟩ := List.getLast?_eq_some_iff.mp hlast
                  rw [braceDepth_append] at hs
                  obtain ⟨e, -, hstep⟩ := Option.bind_eq_some_iff.mp hs
                  obtain ⟨e', hstep, hend⟩ := Option.bind_eq_some_iff.mp hstep
                  rw [← Option.some.inj hend]
                  exact (eq_zero_of_braceStep hc hstep).2
    subst hd
    exact ⟨hs, ht⟩
  head := by
    intro c r hc h
    have hne : c ≠ '{' ∧ c ≠ '}' := by
      constructor <;> rintro rfl <;> revert hc <;> decide
    rw [Neat, braceDepth, braceStep_zero (by decide) (by decide), Option.bind_some, braceDepth,
      braceStep_zero hne.1 hne.2, Option.bind_some] at h
    exact h

end WorksheetTex.Tex
