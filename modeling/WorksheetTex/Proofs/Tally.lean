import WorksheetTex.Proofs.Hole
import WorksheetTex.Proofs.Sealed
import WorksheetTex.Tex.Spacing

namespace WorksheetTex.Paren

open Text Tex Form Vocabulary Evaluation

namespace Tallies

variable {opening closing : Char} {f : Nat → Text → Option Nat} (h : Tallies opening closing f)

include h

theorem cons_congr {s t : Text} (hst : ∀ d, f d s = f d t) (c : Char) (d : Nat) :
    f d (c :: s) = f d (c :: t) := by
  by_cases hopen : c = opening
  · rw [hopen, h.opens, h.opens, hst]
  · by_cases hclose : c = closing
    · subst hclose
      cases d with
      | zero => rw [h.stops, h.stops]
      | succ d => rw [h.closes, h.closes, hst]
    · rw [h.skips d s hopen hclose, h.skips d t hopen hclose, hst]

theorem append (d : Nat) (s t : Text) : f d (s ++ t) = (f d s).bind (f · t) := by
  induction s generalizing d with
  | nil => simp [h.nil]
  | cons c s ih =>
      rw [List.cons_append]
      by_cases hopen : c = opening
      · rw [hopen, h.opens, h.opens, ih]
      · by_cases hclose : c = closing
        · subst hclose
          cases d with
          | zero => rw [h.stops, h.stops, Option.bind_none]
          | succ d => rw [h.closes, h.closes, ih]
        · rw [h.skips d _ hopen hclose, h.skips d _ hopen hclose, ih]

theorem append_flat {s : Text} (hs : ∀ c ∈ s, c ≠ opening ∧ c ≠ closing) (d : Nat) (t : Text) :
    f d (s ++ t) = f d t := by
  induction s with
  | nil => rfl
  | cons c s ih =>
      obtain ⟨hopen, hclose⟩ := hs c (by simp)
      rw [List.cons_append, h.skips d _ hopen hclose]
      exact ih fun x hx => hs x (by simp [hx])

theorem append_closed {s : Text} (hs : ∀ d, f d s = some d) (d : Nat) (t : Text) :
    f d (s ++ t) = f d t := by
  rw [h.append, hs, Option.bind_some]

theorem add (hne : opening ≠ closing) {d e : Nat} {t : Text} (ht : f d t = some e) (k : Nat) :
    f (k + d) t = some (k + e) := by
  rw [h.eq_some_iff hne] at ht ⊢
  refine ⟨fun s hs => ?_, by omega⟩
  have := ht.1 s hs
  omega

theorem of_zero (hne : opening ≠ closing) {t : Text} (ht : f 0 t = some 0) (d : Nat) :
    f d t = some d :=
  h.add hne ht d

theorem fillSlots (hslot : '#' ≠ opening ∧ '#' ≠ closing) {t : Text} (ht : ∀ d, f d t = some d)
    (d : Nat) (s : Text) : f d (fillSlots s t) = f d s := by
  induction s generalizing d with
  | nil => rfl
  | cons c s ih =>
      have hstep : Vocabulary.fillSlots (c :: s) t =
        (if c = '#' then t else [c]) ++ Vocabulary.fillSlots s t := rfl
      rw [hstep]
      split
      · next hc =>
          subst hc
          rw [h.append_closed ht, ih, h.skips d s hslot.1 hslot.2]
      · exact h.cons_congr ih c d

theorem run (hspace : ' ' ≠ opening ∧ ' ' ≠ closing) {σ : Type} (p : Spacer σ) (s : σ) (d : Nat)
    (t : Text) : f d (p.run s t) = f d t := by
  induction t generalizing s d with
  | nil => rfl
  | cons c t ih =>
      rw [Spacer.run]
      split
      · rw [h.skips d _ hspace.1 hspace.2]
        exact h.cons_congr (ih _) c d
      · exact h.cons_congr (ih _) c d

theorem spaceCommands (hspace : ' ' ≠ opening ∧ ' ' ≠ closing) (d : Nat) (t : Text) :
    f d (spaceCommands t) = f d t := by
  rw [Tex.spaceCommands, h.run hspace, h.run hspace]

theorem collapseBlanks (hblank : isBlank opening = false ∧ isBlank closing = false) (d : Nat)
    (t : Text) : f d (collapseBlanks t) = f d t := by
  have hskip {c : Char} (hc : isBlank c = true) (d : Nat) (t : Text) : f d (c :: t) = f d t := by
    refine h.skips d t ?_ ?_
    · rintro rfl
      rw [hblank.1] at hc
      cases hc
    · rintro rfl
      rw [hblank.2] at hc
      cases hc
  induction t using words_induct generalizing d with
  | nil => rfl
  | blank c r hc ih =>
      rw [Text.collapseBlanks, words_blank hc, hskip hc]
      exact ih d
  | word w hw =>
      rw [Text.collapseBlanks, words_word hw]
      simp [joinWith]
  | cons w c r hw hc ih =>
      rw [Text.collapseBlanks, words_word_blank hw hc, h.append _ w]
      simp only [hskip hc, ← ih]
      cases hr : words r with
      | nil => simp [Text.collapseBlanks, hr, joinWith, h.nil]
      | cons v vs =>
          have hspace (e : Nat) (u : Text) : f e ([' '] ++ u) = f e u := hskip (by decide) e u
          rw [joinWith_cons (by simp), List.append_assoc, h.append, Text.collapseBlanks, hr]
          simp only [hspace]

section Expand

variable (hopen : IsBreak opening) (hclose : IsBreak closing)

include hopen hclose

theorem ends_mapM_segments {g : Segment Nat → Except Fault Text}
    (hkeep : ∀ c, g (.keep c) = .ok [c])
    (hhit : ∀ n, Ends (fun u => ∀ d, f d u = some d) (fun _ => True) (g (.hit n))) (t : Text) :
    Ends (fun ts => ∀ d, f d ts.flatten = f d t) (fun _ => True)
      ((segments referenceRule t).mapM g) := by
  induction hn : t.length using Nat.strongRecOn generalizing t with
  | ind n ih =>
      cases t with
      | nil => exact fun d => rfl
      | cons c t =>
          cases hrule : referenceRule [] (c :: t) with
          | none =>
              rw [segments_keep isLocal_referenceRule hrule, List.mapM_cons, hkeep]
              refine (ih t.length (by simp at hn; omega) t rfl).bind fun ts hts => .pure ?_
              exact h.cons_congr hts c
          | some answer =>
              obtain ⟨ds, r, hsr, hds, rfl⟩ := eq_of_referenceRule hrule
              have hform : c :: t = openMark :: (ds ++ [closeMark]) ++ r := by simp [hsr]
              have hlen : ds.length + 2 = (openMark :: (ds ++ [closeMark])).length := by simp
              have hshort : r.length < n := by
                have := congrArg List.length hsr
                simp at this hn
                omega
              rw [hform, hlen] at hrule
              have hflat := not_isBreak_of_referenceRule hrule
              rw [List.take_left] at hflat
              rw [hform, segments_hit isLocal_referenceRule (by simp) hrule, List.mapM_cons]
              refine (hhit _).bind fun u hu => ?_
              refine (ih r.length hshort r rfl).bind fun ts hts => .pure fun d => ?_
              rw [List.flatten_cons, h.append_closed hu, hts]
              refine (h.append_flat (fun b hb => ⟨?_, ?_⟩) d r).symm
              · rintro rfl
                exact hflat _ hb hopen
              · rintro rfl
                exact hflat _ hb hclose

theorem ends_expand {pieces : List Text} (hp : ∀ p ∈ pieces, ∀ d, f d p = some d) (fuel : Nat)
    (t : Text) : Ends (fun u => ∀ d, f d u = f d t) (fun _ => True) (expand pieces fuel t) := by
  induction fuel generalizing t with
  | zero => trivial
  | succ fuel ih =>
      refine (h.ends_mapM_segments hopen hclose (fun c => rfl) (fun n => ?_) t).bind
        fun ts hts => .pure hts
      dsimp only
      split
      · exact .ok h.nil
      · next piece hpiece =>
          refine (ih piece).mono fun u hu d => ?_
          rw [hu]
          exact hp piece (List.mem_of_getElem? hpiece) d

end Expand

end Tallies

end WorksheetTex.Paren
