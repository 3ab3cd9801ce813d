import WorksheetTex.Proofs.Layer
import WorksheetTex.Proofs.SpacingTwice

namespace WorksheetTex.Text

def charUnits (c : Char) : List Nat :=
  if isWide c then
    [0xd800 + (c.toNat - 0x10000) / 0x400, 0xdc00 + (c.toNat - 0x10000) % 0x400]
  else [c.toNat]

def units (t : Text) : List Nat :=
  t.flatMap charUnits

def isSurrogate (u : Nat) : Bool :=
  decide (0xd800 ≤ u) && decide (u ≤ 0xdfff)

def unitIs (p : Char → Bool) (u : Nat) : Bool :=
  !isSurrogate u && p (Char.ofNat u)

theorem units_cons (c : Char) (t : Text) : units (c :: t) = charUnits c ++ units t := rfl

@[simp] theorem units_append (s t : Text) : units (s ++ t) = units s ++ units t :=
  List.flatMap_append

theorem charUnits_of_not_wide {c : Char} (h : isWide c = false) : charUnits c = [c.toNat] := by
  rw [charUnits, h]
  rfl

theorem unitIs_toNat (p : Char → Bool) (c : Char) : unitIs p c.toNat = p c := by
  have hvalid : isSurrogate c.toNat = false := by
    have : c.toNat < 0xd800 ∨ 0xdfff < c.toNat ∧ c.toNat < 0x110000 := c.valid
    simp only [isSurrogate, Bool.and_eq_false_iff, decide_eq_false_iff_not]
    omega
  rw [unitIs, hvalid, Char.ofNat_toNat]
  rfl

theorem isSurrogate_of_mem {c : Char} (h : isWide c = true) {u : Nat} (hu : u ∈ charUnits c) :
    isSurrogate u = true := by
  have hbound : c.toNat < 0xd800 ∨ 0xdfff < c.toNat ∧ c.toNat < 0x110000 := c.valid
  have hwide : 0x10000 ≤ c.toNat := of_decide_eq_true h
  rw [charUnits, if_pos h, List.mem_cons, List.mem_singleton] at hu
  simp only [isSurrogate, Bool.and_eq_true, decide_eq_true_eq]
  omega

end WorksheetTex.Text

namespace WorksheetTex.Tex

open Text

def EndsInCommand (us : List Nat) : Prop :=
  ∃ b w, us = b ++ '\\'.toNat :: w ∧ w ≠ [] ∧ w.all (unitIs isLatin) = true

def Spreads (us vs : List Nat) : Prop :=
  ∃ ps : List (List Nat), us = ps.flatten ∧ vs = [' '.toNat].intercalate ps ∧
    ps.IsChain fun p q => EndsInCommand p ∧ q.head?.any (unitIs isAlphanumeric) = true

def commandEnds : List Nat → List (List Nat × Option Nat)
  | [] => []
  | [_] => []
  | b :: u :: us =>
      if b = '\\'.toNat then
        if unitIs isLatin u then
          (u :: us.takeWhile (unitIs isLatin), (us.dropWhile (unitIs isLatin)).head?) ::
            commandEnds us
        else commandEnds us
      else commandEnds (u :: us)

section Class

theorem isAlphanumeric_of_isAlphanum {c : Char} (h : c.isAlphanum = true) :
    isWide c = false ∧ isAlphanumeric c = true := by
  have hall : ∀ n < 128, (Char.ofNat n).isAlphanum = true →
      isWide (Char.ofNat n) = false ∧ isAlphanumeric (Char.ofNat n) = true := by decide +kernel
  have hc := hall c.toNat (of_decide_eq_true (Vocabulary.isAscii_of_isAlphanum h))
  rw [Char.ofNat_toNat] at hc
  exact hc h

theorem not_isWide_of_isLatin {c : Char} (h : isLatin c = true) : isWide c = false :=
  (isAlphanumeric_of_isAlphanum (Bool.or_eq_true_iff.mpr (.inl h))).1

theorem all_units_of_isLatin {w : Text} (hw : w.all isLatin = true) :
    (units w).all (unitIs isLatin) = true := by
  induction w with
  | nil => rfl
  | cons c w ih =>
      rw [List.all_cons, Bool.and_eq_true] at hw
      rw [units_cons, charUnits_of_not_wide (not_isWide_of_isLatin hw.1), List.singleton_append,
        List.all_cons, unitIs_toNat, hw.1, ih hw.2]
      rfl

theorem endsInCommand_units {b w : Text} (hne : w ≠ []) (hw : w.all isLatin = true) :
    EndsInCommand (units (b ++ '\\' :: w)) := by
  refine ⟨units b, units w, ?_, ?_, all_units_of_isLatin hw⟩
  · rw [units_append]
    rfl
  · obtain ⟨c, w, rfl⟩ := List.exists_cons_of_ne_nil hne
    rw [List.all_cons, Bool.and_eq_true] at hw
    rw [units_cons, charUnits_of_not_wide (not_isWide_of_isLatin hw.1)]
    simp

end Class

section Pieces

theorem eq_of_step_command {m : Mode} {c : Char} (h : nameSpacer.step m c = .command) :
    c = '\\' := by
  refine Decidable.not_not.mp fun hc => ?_
  cases m with
  | plain => simp [nameSpacer, hc] at h
  | command => cases hlatin : isLatin c <;> simp [nameSpacer, hlatin] at h
  | name w => cases hlatin : isLatin c <;> simp [nameSpacer, hlatin, hc] at h

theorem of_step_name {m : Mode} {c : Char} {w : Text} (h : nameSpacer.step m c = .name w) :
    isLatin c = true ∧ (m = .command ∧ w = [c] ∨ ∃ v, m = .name v ∧ w = c :: v) := by
  have hslash {w : Text} : (if c = '\\' then Mode.command else .plain) ≠ .name w := by
    split <;> simp
  cases hlatin : isLatin c with
  | true =>
      refine ⟨rfl, ?_⟩
      cases m with
      | plain => exact absurd h hslash
      | command =>
          obtain rfl : [c] = w := by simpa [nameSpacer, hlatin] using h
          exact .inl ⟨rfl, rfl⟩
      | name v =>
          obtain rfl : c :: v = w := by simpa [nameSpacer, hlatin] using h
          exact .inr ⟨v, rfl, rfl⟩
  | false =>
      cases m with
      | plain => exact absurd h hslash
      | command => simp [nameSpacer, hlatin] at h
      | name v =>
          simp only [nameSpacer, hlatin, Bool.false_eq_true, if_false] at h
          exact absurd h hslash

structure Trails (held : Text) (s : Option Text × Mode) : Prop where
  greek : ∀ w, s.1 = some w → PastGreek (some w) ∨ ∃ b, held = b ++ '\\' :: w.reverse
  command : s.2 = .command → ∃ b, held = b ++ ['\\']
  name : ∀ w, s.2 = .name w →
    w ≠ [] ∧ w.all isLatin = true ∧ ∃ b, held = b ++ '\\' :: w.reverse

variable {held t : Text} {s : Option Text × Mode} {c : Char}

theorem Trails.nil : Trails [] (none, .plain) where
  greek _ h := nomatch h
  command h := nomatch h
  name _ h := nomatch h

theorem Trails.keep (h : Trails held s) (hdue : commandSpacer.due s c = false) :
    Trails (held ++ [c]) (commandSpacer.step s c) := by
  obtain ⟨g, m⟩ := s
  obtain ⟨hgreek, -⟩ := Bool.or_eq_false_iff.mp hdue
  have hstep : commandSpacer.step (g, m) c = (greekSpacer.step g c, nameSpacer.step m c) := by
    simp [commandSpacer, Spacer.andThen, hgreek]
  have hslash (hc : c = '\\') : ∃ b, held ++ [c] = b ++ ['\\'] := ⟨held, by rw [hc]⟩
  have hletter {w b : Text} (hb : held = b ++ '\\' :: w.reverse) :
      held ++ [c] = b ++ '\\' :: (c :: w).reverse := by simp [hb]
  rw [hstep]
  constructor
  · intro w hw
    by_cases hc : c = '\\'
    · obtain rfl : [] = w := by simpa [greekSpacer, hc] using hw
      exact .inr (hslash hc)
    · obtain ⟨v, rfl, rfl⟩ : ∃ v, g = some v ∧ c :: v = w := by
        simpa [greekSpacer, hc] using hw
      rcases h.greek v rfl with hpast | ⟨b, hb⟩
      · exact .inl (hpast.map c)
      · exact .inr ⟨b, hletter hb⟩
  · exact fun hm => hslash (eq_of_step_command hm)
  · intro w hw
    obtain ⟨hlatin, ⟨rfl, rfl⟩ | ⟨v, rfl, rfl⟩⟩ := of_step_name hw
    · obtain ⟨b, hb⟩ := h.command rfl
      exact ⟨by simp, by simp [hlatin], b, by simp [hb]⟩
    · obtain ⟨-, hv, b, hb⟩ := h.name v rfl
      exact ⟨by simp, by simp [hlatin, hv], b, hletter hb⟩

theorem Trails.part (hdue : commandSpacer.due s c = true) :
    Trails [c] (commandSpacer.step s c) := by
  obtain ⟨-, hpast, hstep⟩ := commandSpacer_step_of_due hdue
  rw [hstep]
  exact ⟨fun w hw => .inl (hw ▸ hpast), (nomatch ·), fun _ => (nomatch ·)⟩

theorem Trails.endsInCommand (h : Trails held s) (hdue : commandSpacer.due s c = true) :
    EndsInCommand (units held) ∧ isWide c = false ∧ isAlphanumeric c = true := by
  obtain ⟨g, m⟩ := s
  rcases Bool.or_eq_true_iff.mp hdue with hgreek | hname
  · obtain ⟨halnum, hmem⟩ := Bool.and_eq_true_iff.mp hgreek
    obtain ⟨w, rfl, hw⟩ := (Option.any_eq_true _ _).mp hmem
    have hw : w ∈ greekEndings := List.contains_iff_mem.mp hw
    have hne : ∀ w ∈ greekEndings, w ≠ [] := by decide
    rcases h.greek w rfl with hpast | ⟨b, rfl⟩
    · exact absurd (List.suffix_refl w) (hpast w rfl w hw)
    · refine ⟨endsInCommand_units (by simpa using hne w hw) ?_, isAlphanumeric_of_isAlphanum halnum⟩
      rw [List.all_reverse]
      exact List.all_eq_true.mpr (isAlpha_of_mem_greekEndings hw)
  · obtain ⟨w, rfl, -, halnum⟩ := due_nameSpacer hname
    obtain ⟨hne, hlatin, b, rfl⟩ := h.name w rfl
    refine ⟨endsInCommand_units (by simpa using hne) (by rwa [List.all_reverse]), ?_, halnum⟩
    simp only [nameSpacer, Bool.and_eq_true, Bool.not_eq_true'] at hname
    exact hname.1.1.2

theorem exists_pieces (h : Trails held s) (t : Text) :
    ∃ p ps, units (held ++ t) = (p :: ps).flatten ∧
      units (held ++ commandSpacer.run s t) = [' '.toNat].intercalate (p :: ps) ∧
      units held <+: p ∧
      (p :: ps).IsChain fun p q =>
        EndsInCommand p ∧ q.head?.any (unitIs isAlphanumeric) = true := by
  induction t generalizing held s with
  | nil => exact ⟨units held, [], by simp, by simp [Spacer.run], List.prefix_refl _, by simp⟩
  | cons c t ih =>
      cases hdue : commandSpacer.due s c with
      | false =>
          obtain ⟨p, ps, hflat, hjoin, hstart, hchain⟩ := ih (h.keep hdue)
          rw [List.append_assoc] at hflat hjoin
          refine ⟨p, ps, hflat, ?_, ?_, hchain⟩
          · rw [Spacer.run, hdue]
            exact hjoin
          · rw [units_append] at hstart
            exact (List.prefix_append _ _).trans hstart
      | true =>
          obtain ⟨hends, hwide, halnum⟩ := h.endsInCommand hdue
          obtain ⟨p, ps, hflat, hjoin, hstart, hchain⟩ := ih (Trails.part hdue)
          refine ⟨units held, p :: ps, ?_, ?_, List.prefix_refl _, ?_⟩
          · rw [List.flatten_cons, ← hflat, ← units_append]
            rfl
          · calc units (held ++ commandSpacer.run s (c :: t))
                = units held ++ ([' '.toNat] ++ units ([c] ++ commandSpacer.run _ t)) := by
                  rw [Spacer.run, hdue, units_append]
                  rfl
              _ = units held ++ ([' '.toNat] ++ [' '.toNat].intercalate (p :: ps)) := by rw [hjoin]
              _ = [' '.toNat].intercalate (units held :: p :: ps) := by simp [List.intercalate]
          · refine List.isChain_cons_cons.mpr ⟨⟨hends, ?_⟩, hchain⟩
            obtain ⟨r, rfl⟩ := hstart
            rw [units_cons, charUnits_of_not_wide hwide]
            simpa [unitIs_toNat] using halnum

theorem spreads_spaceCommands (t : Text) : Spreads (units t) (units (spaceCommands t)) := by
  obtain ⟨p, ps, hflat, hjoin, -, hchain⟩ := exists_pieces Trails.nil t
  rw [spaceCommands_eq_run]
  exact ⟨p :: ps, hflat, hjoin, hchain⟩

end Pieces

section Reading

def KeptApart (ends : List (List Nat × Option Nat)) : Prop :=
  ∀ w u, (w, some u) ∈ ends → w ∈ unspacedCommands.map units ∨ unitIs isAlphanumeric u = false

def KeptApartFrom : Mode → List Nat → Prop
  | .plain, us => KeptApart (commandEnds us)
  | .command, us => KeptApart (commandEnds ('\\'.toNat :: us))
  | .name w, us => KeptApart ((units w.reverse ++ us.takeWhile (unitIs isLatin),
      (us.dropWhile (unitIs isLatin)).head?) :: commandEnds us)

variable {c : Char} {us : List Nat}

theorem commandEnds_cons {u : Nat} (hu : u ≠ '\\'.toNat) (us : List Nat) :
    commandEnds (u :: us) = commandEnds us := by
  cases us with
  | nil => rfl
  | cons v us => rw [commandEnds, if_neg hu]

theorem commandEnds_symbol {u : Nat} (hu : unitIs isLatin u = false) (us : List Nat) :
    commandEnds ('\\'.toNat :: u :: us) = commandEnds us := by
  rw [commandEnds, if_pos rfl, hu]
  rfl

theorem of_isSurrogate {u : Nat} (h : isSurrogate u = true) :
    u ≠ '\\'.toNat ∧ ∀ p, unitIs p u = false := by
  refine ⟨?_, fun p => by rw [unitIs, h]; rfl⟩
  rintro rfl
  cases h

theorem charUnits_cases (c : Char) :
    (isWide c = false ∧ charUnits c = [c.toNat]) ∨
      isWide c = true ∧
        ∃ u v, charUnits c = [u, v] ∧ isSurrogate u = true ∧ isSurrogate v = true := by
  cases hwide : isWide c with
  | false => exact .inl ⟨rfl, charUnits_of_not_wide hwide⟩
  | true =>
      have hunits : charUnits c =
        [0xd800 + (c.toNat - 0x10000) / 0x400, 0xdc00 + (c.toNat - 0x10000) % 0x400] := if_pos hwide
      exact .inr ⟨rfl, _, _, hunits, isSurrogate_of_mem hwide (by simp [hunits]),
        isSurrogate_of_mem hwide (by simp [hunits])⟩

theorem commandEnds_charUnits (hc : c ≠ '\\') (us : List Nat) :
    commandEnds (charUnits c ++ us) = commandEnds us := by
  rcases charUnits_cases c with ⟨-, hunits⟩ | ⟨-, u, v, hunits, hu, hv⟩
  · rw [hunits]
    exact commandEnds_cons (fun h => hc (Char.toNat_inj.mp h)) us
  · rw [hunits, List.cons_append, List.singleton_append, commandEnds_cons (of_isSurrogate hu).1,
      commandEnds_cons (of_isSurrogate hv).1]

theorem commandEnds_slash_charUnits (hc : isLatin c = false) (us : List Nat) :
    commandEnds ('\\'.toNat :: (charUnits c ++ us)) = commandEnds us := by
  rcases charUnits_cases c with ⟨-, hunits⟩ | ⟨-, u, v, hunits, hu, hv⟩
  · rw [hunits, List.singleton_append, commandEnds_symbol (by rw [unitIs_toNat, hc])]
  · rw [hunits, List.cons_append, List.singleton_append,
      commandEnds_symbol ((of_isSurrogate hu).2 _), commandEnds_cons (of_isSurrogate hv).1]

theorem keptApart_charUnits (h : KeptApartFrom (if c = '\\' then .command else .plain) us) :
    KeptApart (commandEnds (charUnits c ++ us)) := by
  by_cases hc : c = '\\'
  · subst hc
    exact h
  · rw [if_neg hc] at h
    rw [commandEnds_charUnits hc]
    exact h

theorem exists_first_unit {w : Text} (hc : isLatin c = false)
    (hdue : nameSpacer.due (.name w) c = false) :
    ∃ u r, charUnits c = u :: r ∧ unitIs isLatin u = false ∧
      (units w.reverse ∈ unspacedCommands.map units ∨ unitIs isAlphanumeric u = false) := by
  rcases charUnits_cases c with ⟨hwide, hunits⟩ | ⟨-, u, v, hunits, hu, -⟩
  · refine ⟨c.toNat, [], hunits, by rw [unitIs_toNat, hc], ?_⟩
    simp only [nameSpacer, hc, hwide, Bool.not_false, Bool.true_and, Bool.and_eq_false_iff,
      Bool.not_eq_false'] at hdue
    rcases hdue with halnum | hmem
    · exact .inr (by rw [unitIs_toNat, halnum])
    · exact .inl (List.mem_map_of_mem (List.contains_iff_mem.mp hmem))
  · exact ⟨u, [v], hunits, (of_isSurrogate hu).2 _, .inr ((of_isSurrogate hu).2 _)⟩

theorem KeptApartFrom.step {m : Mode} (hdue : nameSpacer.due m c = false)
    (h : KeptApartFrom (nameSpacer.step m c) us) : KeptApartFrom m (charUnits c ++ us) := by
  cases m with
  | plain => exact keptApart_charUnits h
  | command =>
      cases hlatin : isLatin c with
      | true =>
          have hunits := charUnits_of_not_wide (not_isWide_of_isLatin hlatin)
          simp only [nameSpacer, hlatin, if_true, KeptApartFrom] at h
          rw [KeptApartFrom, hunits, List.singleton_append, commandEnds, if_pos rfl, unitIs_toNat,
            if_pos hlatin]
          simpa [units, hunits] using h
      | false =>
          simp only [nameSpacer, hlatin] at h
          rw [KeptApartFrom, commandEnds_slash_charUnits hlatin]
          exact h
  | name w =>
      cases hlatin : isLatin c with
      | true =>
          have hunits := charUnits_of_not_wide (not_isWide_of_isLatin hlatin)
          have hunit : unitIs isLatin c.toNat = true := by rw [unitIs_toNat, hlatin]
          have hslash : c ≠ '\\' := by
            rintro rfl
            cases hlatin
          simp only [nameSpacer, hlatin, if_true, KeptApartFrom, List.reverse_cons,
            units_append] at h
          rw [KeptApartFrom, commandEnds_charUnits hslash, hunits, List.singleton_append,
            List.takeWhile_cons_of_pos hunit, List.dropWhile_cons_of_pos hunit]
          simpa [units, hunits] using h
      | false =>
          simp only [nameSpacer, hlatin, Bool.false_eq_true, if_false] at h
          obtain ⟨u, r, hunits, hunit, hfree⟩ := exists_first_unit hlatin hdue
          intro v x hmem
          rcases List.mem_cons.mp hmem with heq | hmem
          · rw [hunits, List.cons_append, List.takeWhile_cons_of_neg (by simp [hunit]),
              List.dropWhile_cons_of_neg (by simp [hunit]), List.append_nil] at heq
            obtain ⟨rfl, hx⟩ := Prod.mk.inj heq
            obtain rfl := Option.some.inj hx
            exact hfree
          · exact keptApart_charUnits h v x hmem

theorem keptApartFrom_of_run {m : Mode} {t : Text} (h : nameSpacer.run m t = t) :
    KeptApartFrom m (units t) := by
  induction t generalizing m with
  | nil =>
      cases m with
      | plain => exact fun _ _ => (nomatch ·)
      | command => exact fun _ _ => (nomatch ·)
      | name w => simp [KeptApartFrom, KeptApart, units, commandEnds]
  | cons c t ih =>
      rw [Spacer.run] at h
      cases hdue : nameSpacer.due m c with
      | true =>
          rw [hdue, if_pos rfl] at h
          obtain ⟨rfl, -⟩ := List.cons.inj h
          rw [parting_nameSpacer.before] at hdue
          cases hdue
      | false =>
          rw [hdue, if_neg Bool.false_ne_true] at h
          exact .step hdue (ih (List.cons.inj h).2)

theorem nameSpacer_run_run (m : Mode) (t : Text) :
    nameSpacer.run m (nameSpacer.run m t) = nameSpacer.run m t := by
  refine Spacer.run_run (R := Eq) ?_ ?_ rfl t
  · rintro m _ c rfl hdue
    exact ⟨hdue, rfl⟩
  · rintro m _ c rfl hdue
    obtain ⟨w, rfl, hlatin, halnum⟩ := due_nameSpacer hdue
    have hc : c ≠ '\\' := by
      rintro rfl
      rw [not_isAlphanumeric.2] at halnum
      cases halnum
    refine ⟨parting_nameSpacer.before _, parting_nameSpacer.behind _ c, ?_⟩
    rw [step_space]
    simp [nameSpacer, hlatin, hc]

theorem keptApart_spaceCommands (t : Text) : KeptApart (commandEnds (units (spaceCommands t))) :=
  keptApartFrom_of_run (m := .plain) (nameSpacer_run_run .plain _)

end Reading

end WorksheetTex.Tex

namespace WorksheetTex

open Text Tex

theorem exists_of_typeset {v : OptionsValue} {x latex : Text} (h : typeset v x = .ok latex) :
    ∃ u, latex = spaceCommands u := by
  rw [typeset] at h
  cases hreport : report v x with
  | error y =>
      rw [hreport] at h
      cases h
  | ok r =>
      rw [hreport] at h
      obtain rfl := Except.ok.inj h
      obtain ⟨o, -, h⟩ := exists_of_bind_ok hreport
      obtain ⟨s, -, h⟩ := exists_of_bind_ok h
      obtain ⟨u, -, hu⟩ := Setting.exists_of_report h
      exact ⟨u, hu⟩

theorem spaceCommands_stable (s : Text) :
    Spreads (units s) (units (spaceCommands s)) ∧
      KeptApart (commandEnds (units (spaceCommands s))) ∧
      spaceCommands (spaceCommands s) = spaceCommands s ∧
      ∀ v x latex, typeset v x = .ok latex → spaceCommands latex = latex := by
  refine ⟨spreads_spaceCommands s, keptApart_spaceCommands s, spaceCommands_idem s, ?_⟩
  intro v x latex h
  obtain ⟨u, rfl⟩ := exists_of_typeset h
  exact spaceCommands_idem u

theorem spaceCommands_stable_area :
    typeset .absent "(* 2 πr)".toList = .ok "2 \\cdot \\pi r".toList ∧
      spaceCommands "2 \\cdot \\pi r".toList = "2 \\cdot \\pi r".toList := by
  have htypeset : typeset .absent "(* 2 πr)".toList = .ok "2 \\cdot \\pi r".toList := by
    decide +kernel
  exact ⟨htypeset, (spaceCommands_stable []).2.2.2 .absent _ _ htypeset⟩

example : spaceCommands "\\\\pib\\alphaé\\int2\\mu𝛼\\".toList =
    "\\\\pi b\\alpha é\\int2\\mu𝛼\\".toList := by decide +kernel

end WorksheetTex
