import WorksheetTex.Proofs.Spacing

namespace WorksheetTex.Tex

open Text

namespace Spacer

variable {σ τ : Type}

def andThen (p : Spacer σ) (q : Spacer τ) : Spacer (σ × τ) where
  step s c := (p.step s.1 c, if p.due s.1 c then q.step (q.step s.2 ' ') c else q.step s.2 c)
  due s c := p.due s.1 c || q.due s.2 c

structure Parting (q : Spacer τ) : Prop where
  before (s : τ) : q.due s ' ' = false
  behind (s : τ) (c : Char) : q.due (q.step s ' ') c = false

theorem run_andThen (p : Spacer σ) {q : Spacer τ} (hq : q.Parting) (s : σ) (s' : τ) (t : Text) :
    q.run s' (p.run s t) = (p.andThen q).run (s, s') t := by
  induction t generalizing s s' with
  | nil => rfl
  | cons c t ih =>
      cases hp : p.due s c with
      | true =>
          have hbefore := hq.before s'
          have hbehind := hq.behind s' c
          simp [run, andThen, hp, hbefore, hbehind, ih]
      | false => simp [run, andThen, hp, ih]

theorem run_run {p : Spacer σ} {q : Spacer τ} {R : σ → τ → Prop}
    (keep : ∀ s s' c, R s s' → p.due s c = false →
      q.due s' c = false ∧ R (p.step s c) (q.step s' c))
    (part : ∀ s s' c, R s s' → p.due s c = true → q.due s' ' ' = false ∧
      q.due (q.step s' ' ') c = false ∧ R (p.step s c) (q.step (q.step s' ' ') c))
    {s : σ} {s' : τ} (h : R s s') (t : Text) : q.run s' (p.run s t) = p.run s t := by
  induction t generalizing s s' with
  | nil => rfl
  | cons c t ih =>
      rw [run]
      cases hp : p.due s c with
      | true =>
          obtain ⟨hbefore, hbehind, hnext⟩ := part s s' c h hp
          simp [run, hbefore, hbehind, ih hnext]
      | false =>
          obtain ⟨hdue, hnext⟩ := keep s s' c h hp
          simp [run, hdue, ih hnext]

end Spacer

theorem not_isAlphanumeric : isAlphanumeric ' ' = false ∧ isAlphanumeric '\\' = false := by
  decide +kernel

theorem due_nameSpacer {s : Mode} {c : Char} (h : nameSpacer.due s c = true) :
    ∃ w, s = .name w ∧ isLatin c = false ∧ isAlphanumeric c = true := by
  cases s with
  | plain => cases h
  | command => cases h
  | name w =>
      simp only [nameSpacer, Bool.and_eq_true, Bool.not_eq_true'] at h
      exact ⟨w, rfl, h.1.1.1, h.1.2⟩

theorem step_space (s : Mode) : nameSpacer.step s ' ' = .plain := by
  cases s <;> rfl

theorem parting_nameSpacer : nameSpacer.Parting where
  before s := by
    refine Bool.eq_false_iff.mpr fun h => ?_
    obtain ⟨_, _, _, halnum⟩ := due_nameSpacer h
    rw [not_isAlphanumeric.1] at halnum
    cases halnum
  behind s c := by
    rw [step_space]
    rfl

def PastGreek (s : Option Text) : Prop :=
  ∀ w ∈ s, ∀ e ∈ greekEndings, ¬ w <:+ e

theorem pastGreek_of_not_alpha {w : Text} {c : Char} (hc : c ∈ w) (h : c.isAlpha = false) :
    PastGreek (some w) := by
  intro v hv e he hsuffix
  obtain rfl := Option.some.inj hv
  have := isAlpha_of_mem_greekEndings he c (hsuffix.subset hc)
  rw [h] at this
  cases this

theorem pastGreek_of_mem {w : Text} (hw : w ∈ greekEndings) (c : Char) :
    PastGreek (some (c :: w)) := by
  have hall : ∀ w ∈ greekEndings, ∀ e ∈ greekEndings, w <:+ e → w = e := by decide
  intro v hv e he hsuffix
  obtain rfl := Option.some.inj hv
  have heq := hall w hw e he ((List.suffix_cons c w).trans hsuffix)
  have := hsuffix.length_le
  rw [heq, List.length_cons] at this
  omega

theorem PastGreek.due {s : Option Text} (h : PastGreek s) (c : Char) :
    greekSpacer.due s c = false := by
  cases s with
  | none => exact Bool.and_false _
  | some w =>
      have hnot : greekEndings.contains w = false := by
        refine Bool.eq_false_iff.mpr fun hmem => ?_
        exact h w rfl w (List.contains_iff_mem.mp hmem) (List.suffix_refl w)
      exact (congrArg _ hnot).trans (Bool.and_false _)

theorem PastGreek.map {s : Option Text} (h : PastGreek s) (c : Char) :
    PastGreek (s.map (c :: ·)) := by
  intro v hv e he hsuffix
  obtain ⟨w, hw, rfl⟩ := Option.map_eq_some_iff.mp hv
  exact h w hw e he ((List.suffix_cons c w).trans hsuffix)

theorem PastGreek.space (s : Option Text) : PastGreek (s.map (' ' :: ·)) := by
  cases s with
  | none => exact fun _ h => nomatch h
  | some w => exact pastGreek_of_not_alpha List.mem_cons_self rfl

def commandSpacer : Spacer (Option Text × Mode) :=
  greekSpacer.andThen nameSpacer

theorem spaceCommands_eq_run (t : Text) :
    spaceCommands t = commandSpacer.run (none, .plain) t :=
  greekSpacer.run_andThen parting_nameSpacer none .plain t

theorem commandSpacer_step_space (s : Option Text × Mode) :
    commandSpacer.step s ' ' = (s.1.map (' ' :: ·), .plain) := by
  have hmode : (if greekSpacer.due s.1 ' ' then nameSpacer.step (nameSpacer.step s.2 ' ') ' '
      else nameSpacer.step s.2 ' ') = .plain := by
    rw [step_space, step_space, ite_self]
  exact Prod.ext rfl hmode

theorem parting_commandSpacer : commandSpacer.Parting where
  before s := Bool.or_eq_false_iff.mpr ⟨rfl, parting_nameSpacer.before s.2⟩
  behind s c := by
    rw [commandSpacer_step_space]
    exact Bool.or_eq_false_iff.mpr ⟨(PastGreek.space s.1).due c, rfl⟩

def Alike (s s' : Option Text × Mode) : Prop :=
  s.2 = s'.2 ∧ (s.1 = s'.1 ∨ PastGreek s.1 ∧ PastGreek s'.1)

theorem Alike.keep {s s' : Option Text × Mode} {c : Char} (h : Alike s s')
    (hdue : commandSpacer.due s c = false) :
    commandSpacer.due s' c = false ∧ Alike (commandSpacer.step s c) (commandSpacer.step s' c) := by
  obtain ⟨g, m⟩ := s
  obtain ⟨g', m'⟩ := s'
  obtain ⟨rfl, hg⟩ : m = m' ∧ (g = g' ∨ PastGreek g ∧ PastGreek g') := h
  obtain ⟨hgreek, hname⟩ := Bool.or_eq_false_iff.mp hdue
  have hgreek' : greekSpacer.due g' c = false := by
    rcases hg with rfl | hg
    · exact hgreek
    · exact hg.2.due c
  refine ⟨Bool.or_eq_false_iff.mpr ⟨hgreek', hname⟩, ?_, ?_⟩
  · simp only [commandSpacer, Spacer.andThen, hgreek, hgreek']
  · rcases hg with rfl | hg
    · exact .inl rfl
    · by_cases hc : c = '\\'
      · exact .inl (by simp [commandSpacer, Spacer.andThen, greekSpacer, hc])
      · have hstep (g : Option Text) : greekSpacer.step g c = g.map (c :: ·) := if_neg hc
        refine .inr ?_
        simp only [commandSpacer, Spacer.andThen, hstep]
        exact ⟨hg.1.map c, hg.2.map c⟩

theorem commandSpacer_step_of_due {s : Option Text × Mode} {c : Char}
    (h : commandSpacer.due s c = true) :
    c ≠ '\\' ∧ PastGreek (s.1.map (c :: ·)) ∧
      commandSpacer.step s c = (s.1.map (c :: ·), .plain) := by
  obtain ⟨g, m⟩ := s
  have hplain (hc : c ≠ '\\') : nameSpacer.step .plain c = .plain := if_neg hc
  have hgreekStep (hc : c ≠ '\\') : greekSpacer.step g c = g.map (c :: ·) := if_neg hc
  cases hgreek : greekSpacer.due g c with
  | true =>
      obtain ⟨halnum, hmem⟩ := Bool.and_eq_true_iff.mp hgreek
      obtain ⟨w, rfl, hw⟩ : ∃ w, g = some w ∧ greekEndings.contains w = true := by
        cases g with
        | none => cases hmem
        | some w => exact ⟨w, rfl, hmem⟩
      have hc : c ≠ '\\' := by
        rintro rfl
        cases halnum
      refine ⟨hc, pastGreek_of_mem (List.contains_iff_mem.mp hw) c, ?_⟩
      simp only [commandSpacer, Spacer.andThen, hgreek, if_true, step_space, hplain hc,
        hgreekStep hc]
  | false =>
      have hname : nameSpacer.due m c = true := by
        simpa [commandSpacer, Spacer.andThen, hgreek] using h
      obtain ⟨w, rfl, hlatin, halnum⟩ := due_nameSpacer hname
      have hc : c ≠ '\\' := by
        rintro rfl
        rw [not_isAlphanumeric.2] at halnum
        cases halnum
      have hend : nameSpacer.step (.name w) c = .plain := by simp [nameSpacer, hlatin, hc]
      refine ⟨hc, fun v hv => ?_, ?_⟩
      · obtain ⟨u, -, rfl⟩ := Option.map_eq_some_iff.mp hv
        exact pastGreek_of_not_alpha List.mem_cons_self hlatin _ rfl
      · simp [commandSpacer, Spacer.andThen, hgreek, hend, hgreekStep hc]

theorem Alike.part {s s' : Option Text × Mode} {c : Char}
    (hdue : commandSpacer.due s c = true) :
    Alike (commandSpacer.step s c) (commandSpacer.step (commandSpacer.step s' ' ') c) := by
  obtain ⟨hc, hpast, hstep⟩ := commandSpacer_step_of_due hdue
  have hpast' := PastGreek.space s'.1
  have hstep' : commandSpacer.step (s'.1.map (' ' :: ·), .plain) c =
      ((s'.1.map (' ' :: ·)).map (c :: ·), .plain) := by
    simp [commandSpacer, Spacer.andThen, greekSpacer, nameSpacer, hc]
  rw [commandSpacer_step_space, hstep, hstep']
  exact ⟨rfl, .inr ⟨hpast, hpast'.map c⟩⟩

theorem spaceCommands_idem (t : Text) : spaceCommands (spaceCommands t) = spaceCommands t := by
  rw [spaceCommands_eq_run, spaceCommands_eq_run]
  exact Spacer.run_run (R := Alike) (fun s s' c h hdue => h.keep hdue)
    (fun s s' c _ hdue => ⟨parting_commandSpacer.before s', parting_commandSpacer.behind s' c,
      Alike.part hdue⟩) ⟨rfl, .inl rfl⟩ t

end WorksheetTex.Tex
