import WorksheetTex.Tex.Spacing

namespace WorksheetTex.Tex

open Text

def closedCommands : List Text :=
  ["\\left(", "\\right)", "\\frac\x7b", "\\cdot "]

inductive Spaced : Text → Prop
  | nil : Spaced []
  | char {c : Char} {t : Text} : c ≠ '\\' → Spaced t → Spaced (c :: t)
  | command {w t : Text} : w ∈ closedCommands → Spaced t → Spaced (w ++ t)

namespace Spaced

variable {s t : Text}

theorem append (hs : Spaced s) (ht : Spaced t) : Spaced (s ++ t) := by
  induction hs with
  | nil => exact ht
  | char hc _ ih => exact .char hc ih
  | command hw _ ih =>
      rw [List.append_assoc]
      exact .command hw ih

theorem of_not_mem (h : '\\' ∉ t) : Spaced t := by
  induction t with
  | nil => exact .nil
  | cons c t ih =>
      rw [List.mem_cons, not_or] at h
      exact .char (Ne.symm h.1) (ih h.2)

theorem of_mem (h : t ∈ closedCommands) : Spaced t := by
  have := Spaced.command h .nil
  rwa [List.append_nil] at this

theorem joinWith {separator : Text} {ts : List Text} (hs : Spaced separator)
    (hts : ∀ t ∈ ts, Spaced t) : Spaced (joinWith separator ts) := by
  induction ts with
  | nil => exact .nil
  | cons t ts ih =>
      rw [List.forall_mem_cons] at hts
      cases ts with
      | nil => simpa [Text.joinWith] using hts.1
      | cons u ts =>
          have := (hts.1.append hs).append (ih hts.2)
          simpa [Text.joinWith] using this

end Spaced

namespace Spacer

variable {σ : Type} (p : Spacer σ)

theorem run_append (s : σ) (t u : Text) :
    p.run s (t ++ u) = p.run s t ++ p.run (t.foldl p.step s) u := by
  induction t generalizing s with
  | nil => rfl
  | cons c t ih =>
      rw [List.cons_append, run, run, ih, List.foldl_cons]
      split <;> rfl

theorem run_spaced (calm : σ → Prop)
    (hchar : ∀ s c, calm s → c ≠ '\\' → p.due s c = false ∧ calm (p.step s c))
    (hcommand : ∀ s w, calm s → w ∈ closedCommands → p.run s w = w ∧ calm (w.foldl p.step s))
    {t : Text} (ht : Spaced t) {s : σ} (hs : calm s) : p.run s t = t := by
  induction ht generalizing s with
  | nil => rfl
  | @char c t hc _ ih =>
      obtain ⟨hdue, hstep⟩ := hchar s c hs hc
      rw [run, hdue, ih hstep]
      rfl
  | @command w t hw _ ih =>
      obtain ⟨hrun, hfold⟩ := hcommand s w hs hw
      rw [run_append, hrun, ih hfold]

end Spacer

theorem isAlpha_of_mem_greekEndings {w : Text} (hw : w ∈ greekEndings) :
    ∀ c ∈ w, c.isAlpha = true := by
  have hall : greekEndings.all (·.all Char.isAlpha) = true := by decide
  exact List.all_eq_true.mp (List.all_eq_true.mp hall w hw)

theorem greekSpacer_run_spaced {t : Text} (ht : Spaced t) : greekSpacer.run none t = t := by
  refine greekSpacer.run_spaced (fun s => ∀ w, s = some w → ∃ c ∈ w, c.isAlpha = false)
    (fun s c hs hc => ?_) (fun s w _ hw => ?_) ht (fun _ h => nomatch h)
  · cases s with
    | none => exact ⟨Bool.and_false _, fun _ h => by simp [greekSpacer, hc] at h⟩
    | some w =>
        obtain ⟨d, hd, halpha⟩ := hs w rfl
        have hnot : greekEndings.contains w = false := by
          refine Bool.eq_false_iff.mpr fun hmem => ?_
          have := isAlpha_of_mem_greekEndings (List.contains_iff_mem.mp hmem) d hd
          rw [halpha] at this
          cases this
        refine ⟨?_, fun v hv => ?_⟩
        · exact (congrArg _ hnot).trans (Bool.and_false _)
        · obtain rfl : c :: w = v := by simpa [greekSpacer, hc] using hv
          exact ⟨d, by simp [hd], halpha⟩
  · simp only [closedCommands, List.mem_cons, List.not_mem_nil, or_false] at hw
    rcases hw with rfl | rfl | rfl | rfl <;>
      exact ⟨rfl, fun v hv => Option.some.inj hv ▸ ⟨_, List.mem_cons_self, rfl⟩⟩

theorem nameSpacer_run_spaced {t : Text} (ht : Spaced t) : nameSpacer.run .plain t = t := by
  have hcommands : ∀ w ∈ closedCommands,
      nameSpacer.run .plain w = w ∧ w.foldl nameSpacer.step .plain = .plain := by decide +kernel
  refine nameSpacer.run_spaced (· = .plain) (fun s c hs hc => ?_) (fun s w hs hw => ?_) ht rfl
  · subst hs
    exact ⟨rfl, if_neg hc⟩
  · subst hs
    exact hcommands w hw

theorem spaceCommands_of_spaced {t : Text} (ht : Spaced t) : spaceCommands t = t := by
  rw [spaceCommands, greekSpacer_run_spaced ht, nameSpacer_run_spaced ht]

end WorksheetTex.Tex
