import WorksheetTex.Proofs.DepthLimit
import WorksheetTex.Proofs.Occurrence

namespace WorksheetTex.Evaluation

open Text Paren Vocabulary Form Tex

def openings (vs : List Text) (t : Text) : Nat :=
  (fill vs t).count '('

section Openings

variable {vs : List Text} {k : Nat} {s t : Text}

theorem openings_append (hs : Sealed openMark k s) (ht : Sealed openMark k t) :
    openings vs (s ++ t) = openings vs s + openings vs t := by
  rw [openings, fill_append (.inl rfl) hs ht, List.count_append]
  rfl

theorem openings_of_not_mem (h : openMark ∉ t) : openings vs t = t.count '(' := by
  rw [openings, fill_of_not_mem h]

theorem openings_flat (hmark : openMark ∉ t) (hopen : '(' ∉ t) : openings vs t = 0 := by
  rw [openings_of_not_mem hmark, List.count_eq_zero.mpr hopen]

theorem openings_reference (vs : List Text) (n : Nat) (t : Text) :
    openings vs (reference n ++ t) = (vs[n]?.getD []).count '(' + openings vs t := by
  rw [openings, fill_reference, List.count_append]
  rfl

theorem openings_cons {c : Char} (hc : c ≠ openMark) (ht : Sealed openMark k t) :
    openings vs (c :: t) = [c].count '(' + openings vs t := by
  have hmark : openMark ∉ [c] := by simpa using Ne.symm hc
  rw [← List.singleton_append, openings_append (.of_not_mem hmark) ht, openings_of_not_mem hmark]

theorem openings_skip {c : Char} (hmark : c ≠ openMark) (hopen : c ≠ '(')
    (ht : Sealed openMark k t) : openings vs (c :: t) = openings vs t := by
  rw [openings_cons hmark ht, List.count_eq_zero.mpr (by simpa using Ne.symm hopen), Nat.zero_add]

theorem openings_extend (ht : Sealed openMark vs.length t) (more : List Text) :
    openings (vs ++ more) t = openings vs t := by
  rw [openings, fill_extend (.inl rfl) ht]
  rfl

theorem openings_replaceGlyphs (ht : Sealed openMark k t) :
    openings vs (replaceGlyphs t) = openings vs t := by
  induction ht with
  | nil => rfl
  | @keep c t hc ht ih =>
      have hmark : openMark ∉ [c] := by simpa using Ne.symm hc
      have hglyph : openMark ∉ replaceGlyphs [c] := Sealed.not_mem_replaceGlyphs (.inl rfl) hmark
      rw [← List.singleton_append, replaceGlyphs_append,
        openings_append (.of_not_mem hglyph) (ht.replaceGlyphs (.inl rfl)),
        openings_append (.of_not_mem hmark) ht, ih, openings_of_not_mem hglyph,
        openings_of_not_mem hmark, count_replaceGlyphs]
  | @reference n t _ _ ih =>
      rw [replaceGlyphs_append, replaceGlyphs_reference, openings_reference, openings_reference, ih]

theorem openings_balanceFrom (ht : Sealed openMark k t) (depth : Nat) :
    openings vs (balanceFrom depth t) = openings vs t := by
  induction ht generalizing depth with
  | nil => exact openings_flat (by simp [balanceFrom, openMark]) (by simp [balanceFrom])
  | @keep c t hc ht ih =>
      have hkeep (d : Nat) : openings vs (c :: balanceFrom d t) = openings vs (c :: t) := by
        rw [openings_cons hc (ht.balanceFrom (.inl rfl) d), openings_cons hc ht, ih]
      rcases paren_cases c with rfl | rfl | hp
      · exact hkeep (depth + 1)
      · cases depth with
        | zero => exact (ih 0).trans (openings_skip hc (by decide) ht).symm
        | succ depth => exact hkeep depth
      · have hstep : balanceFrom depth (c :: t) = c :: balanceFrom depth t := by
          simp [balanceFrom, ne_of_not_paren hp]
        rw [hstep]
        exact hkeep depth
  | @reference n t _ _ ih =>
      rw [balanceFrom_append (depthFrom_flat (not_isParen_of_mem_reference n) depth),
        openings_reference, openings_reference, ih]

theorem not_mem_ascii (h : t.all isAscii = true) : openMark ∉ t :=
  (Sealed.ascii (k := 0) (.inl rfl) h).not_mem

theorem openings_enclose (before after : Text) (ht : Sealed openMark k t)
    (hbefore : before.all isAscii = true) (hafter : after.all isAscii = true)
    (hopen : '(' ∉ before ++ after) : openings vs (before ++ (t ++ after)) = openings vs t := by
  rw [List.mem_append, not_or] at hopen
  have hsealed : Sealed openMark k after := .of_not_mem (not_mem_ascii hafter)
  rw [openings_append (.of_not_mem (not_mem_ascii hbefore)) (ht.append hsealed),
    openings_append ht hsealed, openings_flat (not_mem_ascii hbefore) hopen.1,
    openings_flat (not_mem_ascii hafter) hopen.2, Nat.zero_add, Nat.add_zero]

theorem openings_group (ht : Sealed openMark k t) : openings vs (group t) = openings vs t :=
  openings_enclose ['{'] ['}'] ht rfl rfl (by decide)

theorem openings_upright (ht : Sealed openMark k t) : openings vs (upright t) = openings vs t :=
  openings_enclose "\\mathrm\x7b" ['}'] ht rfl rfl (by decide)

theorem openings_operatorName (ht : Sealed openMark k t) :
    openings vs (operatorName t) = openings vs t :=
  openings_enclose "\\operatorname\x7b" ['}'] ht rfl rfl (by decide)

def total (vs : List Text) : List Text → Nat
  | [] => 0
  | t :: ts => openings vs t + total vs ts

theorem openings_joinWith {separator : Text} (hs : separator.all isLiteral = true) {ts : List Text}
    (hts : ∀ t ∈ ts, Sealed openMark k t) : openings vs (joinWith separator ts) = total vs ts := by
  have hsealed : Sealed openMark k separator := (Sealed.composes (.inl rfl) k).literal hs
  have hflat : openings vs separator = 0 := by
    refine openings_flat (not_mem_ascii (List.all_eq_true.mpr fun c hc => ?_)) fun hopen => ?_
    · have := List.all_eq_true.mp hs c hc
      simp only [isLiteral, Bool.and_eq_true] at this
      exact this.1.1.1
    · exact absurd (List.all_eq_true.mp hs _ hopen) (by decide)
  induction ts with
  | nil => rfl
  | cons t ts ih =>
      have ht := hts t List.mem_cons_self
      have hrest := fun u hu => hts u (List.mem_cons_of_mem t hu)
      cases ts with
      | nil => simp [joinWith, total]
      | cons u ts =>
          have hjoin : Sealed openMark k (joinWith separator (u :: ts)) :=
            (Sealed.composes (.inl rfl) k).joinWith hs hrest
          rw [joinWith_cons (List.cons_ne_nil u ts), openings_append (ht.append hsealed) hjoin,
            openings_append ht hsealed, hflat, Nat.add_zero, ih hrest]
          rfl

theorem ne_of_isBlank {c : Char} (hc : isBlank c = true) : c ≠ openMark ∧ c ≠ '(' := by
  constructor <;> rintro rfl <;> revert hc <;> decide

theorem total_words (ht : Sealed openMark k t) : total vs (words t) = openings vs t := by
  induction t using words_induct with
  | nil => rfl
  | blank c r hc ih =>
      have hr := (Sealed.hereditary (.inl rfl) k).tail (not_isAtomic_of_isBlank hc) ht
      rw [words_blank hc, ih hr, openings_skip (ne_of_isBlank hc).1 (ne_of_isBlank hc).2 hr]
  | word w hw => simp [words_word hw, total]
  | cons w c r hw hc ih =>
      obtain ⟨hword, hr⟩ := (Sealed.hereditary (.inl rfl) k).around (not_isAtomic_of_isBlank hc) ht
      rw [words_word_blank hw hc, openings_append hword (.keep (ne_of_isBlank hc).1 hr),
        openings_skip (ne_of_isBlank hc).1 (ne_of_isBlank hc).2 hr, ← ih hr]
      rfl

theorem total_replaceGlyphs {ts : List Text} (hts : ∀ t ∈ ts, Sealed openMark k t) :
    total vs (ts.map replaceGlyphs) = total vs ts := by
  induction ts with
  | nil => rfl
  | cons t ts ih =>
      rw [List.forall_mem_cons] at hts
      rw [List.map_cons, total, total, openings_replaceGlyphs hts.1, ih hts.2]

theorem openings_render {op : Operator} {ts : List Text} (hts : ∀ t ∈ ts, Sealed openMark k t)
    {p : Text} (h : op.render ts = some p) : openings vs p ≤ total vs ts := by
  have hjoin {separator : Text} (hs : separator.all isLiteral = true)
      (h : joinWith separator ts = p) : openings vs p ≤ total vs ts := by
    rw [← h, openings_joinWith hs hts]
  rcases ts with _ | ⟨a, _ | ⟨b, ts⟩⟩
  · cases op <;> cases h
  · have ha := hts a List.mem_cons_self
    cases op with
    | plus => exact hjoin rfl (Option.some.inj h)
    | minus =>
        obtain rfl := Option.some.inj h
        rw [openings_skip (by decide) (by decide) ha]
        exact Nat.le_add_right _ _
    | times => exact hjoin rfl (Option.some.inj h)
    | divide => cases h
    | power => cases h
  · have ha := hts a List.mem_cons_self
    have hb := hts b (List.mem_cons_of_mem a List.mem_cons_self)
    have hpair : openings vs a + openings vs b ≤ total vs (a :: b :: ts) := by
      simp only [total]
      omega
    have hgroup {t : Text} (ht : Sealed openMark k t) : Sealed openMark k (group t) :=
      (Sealed.composes (.inl rfl) k).group ht
    cases op with
    | plus => exact hjoin rfl (Option.some.inj h)
    | minus => exact hjoin rfl (Option.some.inj h)
    | times => exact hjoin rfl (Option.some.inj h)
    | divide =>
        obtain rfl := Option.some.inj h
        have hfrac : openings vs ("\\frac".toList ++ group a) = openings vs a := by
          rw [openings_append (.ascii (.inl rfl) rfl) (hgroup ha), openings_group ha,
            openings_flat (not_mem_ascii rfl) (by decide), Nat.zero_add]
        rw [frac, openings_append (.append (.ascii (.inl rfl) rfl) (hgroup ha)) (hgroup hb), hfrac,
          openings_group hb]
        exact hpair
    | power =>
        obtain rfl := Option.some.inj h
        have hbase : Sealed openMark k (if a = ['e'] then a else group a) ∧
            openings vs (if a = ['e'] then a else group a) = openings vs a := by
          split
          · exact ⟨ha, rfl⟩
          · exact ⟨hgroup ha, openings_group ha⟩
        rw [sup, openings_append hbase.1 (.keep (by decide) (hgroup hb)), hbase.2,
          openings_skip (by decide) (by decide) (hgroup hb), openings_group hb]
        exact hpair

theorem openings_fillSlots (hs : Sealed openMark k s) (ht : Sealed openMark k t) :
    openings vs (fillSlots s t) = openings vs s + s.count '#' * openings vs t := by
  induction hs with
  | nil => simp [fillSlots]
  | @keep c s hc hs ih =>
      have hstep : fillSlots (c :: s) t = (if c = '#' then t else [c]) ++ fillSlots s t := rfl
      have hfilled := hs.fillSlots ht
      rw [hstep]
      split
      · next hslot =>
          subst hslot
          rw [openings_append ht hfilled, ih, openings_skip hc (by decide) hs, List.count_cons_self,
            Nat.add_mul]
          omega
      · next hslot =>
          rw [List.singleton_append, openings_cons hc hfilled, ih, openings_cons hc hs,
            List.count_cons_of_ne hslot]
          omega
  | @reference n s _ _ ih =>
      have hslot : '#' ∉ reference n := not_mem_reference ⟨by decide, by decide, by decide⟩ n
      rw [fillSlots_append, fillSlots_of_not_mem hslot, openings_reference, openings_reference, ih,
        List.count_append, List.count_eq_zero.mpr hslot, Nat.zero_add, Nat.add_assoc]

theorem openings_applyTemplate (hs : Sealed openMark k s) (hslots : s.count '#' ≤ 1)
    (ht : Sealed openMark k t) :
    openings vs (applyTemplate s t) ≤ openings vs s + openings vs t + 1 := by
  rw [applyTemplate]
  split
  · have := Nat.mul_le_mul_right (openings vs t) hslots
    rw [openings_fillSlots hs ht]
    omega
  · have hparens : openings vs "(".toList = 1 ∧ openings vs ")".toList = 0 := by
      constructor <;> exact openings_of_not_mem (not_mem_ascii rfl)
    have hopen : Sealed openMark k "(".toList := .ascii (.inl rfl) rfl
    have hclose : Sealed openMark k ")".toList := .ascii (.inl rfl) rfl
    have hform : openings vs (s ++ "(" ++ t ++ ")") = openings vs s + 1 + openings vs t := by
      rw [openings_append ((hs.append hopen).append ht) hclose,
        openings_append (hs.append hopen) ht, openings_append hs hopen, hparens.1, hparens.2,
        Nat.add_zero]
    rw [hform]
    omega

end Openings

def IsSlim (lex : Lexicon) : Prop :=
  lex.All fun v => openMark ∉ v ∧ '(' ∉ v ∧ v.count '#' ≤ 1

theorem isSlim_default : IsSlim (.ofDeclarations {}) :=
  Lexicon.all_ofDeclarations (by decide +kernel) (by simp)

theorem IsSlim.avoids {lex : Lexicon} (h : IsSlim lex) : Avoids lex openMark :=
  Lexicon.All.mono h fun _ hv => hv.1

section Pieces

variable {lex : Lexicon} (hlex : IsSlim lex) {vs : List Text} {k : Nat} {name : Text}

include hlex

theorem openings_labelPiece (kind : Text) (hname : Sealed openMark k name) :
    openings vs (labelPiece lex kind name) ≤ openings vs name := by
  have hreplaced := hname.replaceGlyphs (.inl rfl)
  have hopenings : openings vs (replaceGlyphs name) = openings vs name :=
    openings_replaceGlyphs hname
  have hvalues : lex.All fun v => openings vs v ≤ openings vs name :=
    Lexicon.All.mono hlex fun v hv => by rw [openings_flat hv.1 hv.2.1]; exact Nat.zero_le _
  rw [labelPiece]
  cases LabelKind.ofName? kind with
  | none => exact Nat.le_of_eq hopenings
  | some kind =>
      refine hvalues.label (Nat.le_of_eq hopenings) ?_ ?_ kind
      · rw [openings_upright hreplaced, hopenings]
      · rw [openings_operatorName hreplaced, hopenings]

theorem sealed_items {body : Text} (hbody : Sealed openMark k body) {items : List Text}
    (hitems : ItemsOf body items) : ∀ w ∈ items.map replaceGlyphs, Sealed openMark k w :=
  inherits_items (inherits_sealed (.inl rfl) hlex.avoids k) (fun _ => .replaceGlyphs (.inl rfl))
    hbody hitems

omit hlex in
theorem total_items {body : Text} (hbody : Sealed openMark k body) {items : List Text}
    (hitems : ItemsOf body items) : total vs (items.map replaceGlyphs) ≤ openings vs body := by
  rcases hitems with rfl | rfl
  · have hwords := (Sealed.hereditary (.inl rfl) k).words hbody
    exact Nat.le_of_eq ((total_replaceGlyphs hwords).trans (total_words hbody))
  · exact Nat.zero_le _

theorem openings_applyPiece (hname : Sealed openMark k name) (hslot : '#' ∉ name) {body : Text}
    (hbody : Sealed openMark k body) {items : List Text} (hitems : ItemsOf body items) :
    openings vs (applyPiece lex name items) ≤ openings vs name + openings vs body + 1 := by
  have hvalues : lex.All fun v =>
      Sealed openMark k v ∧ openings vs v ≤ openings vs name ∧ v.count '#' ≤ 1 :=
    Lexicon.All.mono hlex fun v hv => by
      refine ⟨.of_not_mem hv.1, ?_, hv.2.2⟩
      rw [openings_flat hv.1 hv.2.1]
      exact Nat.zero_le _
  obtain ⟨hfunction, hopenings, hslots⟩ :=
    hvalues.function ⟨hname, Nat.le_refl _, by simp [List.count_eq_zero.mpr hslot]⟩
  have hsealed := sealed_items hlex hbody hitems
  have hargument : openings vs (joinWith ", " (items.map replaceGlyphs)) ≤ openings vs body :=
    (openings_joinWith rfl hsealed).trans_le (total_items hbody hitems)
  have hjoin : Sealed openMark k (joinWith ", " (items.map replaceGlyphs)) :=
    (Sealed.composes (.inl rfl) k).joinWith rfl hsealed
  calc openings vs (applyPiece lex name items)
      ≤ openings vs (lex.function name) +
          openings vs (joinWith ", " (items.map replaceGlyphs)) + 1 :=
        openings_applyTemplate hfunction hslots hjoin
    _ ≤ openings vs name + openings vs body + 1 := by omega

end Pieces

structure Lightens (rule : Rule Text) : Prop where
  rewrites (k : Nat) : Rewrites (Sealed openMark k) (Sealed openMark k) rule
  lighter {k : Nat} (vs : List Text) {s r p : Text} : Sealed openMark k (s ++ r) → '#' ∉ s →
    rule [] (s ++ r) = some (s.length, p) →
      Sealed openMark k s ∧ openings vs p < openings vs s

theorem eq_of_consumed {s r u rest : Text} (h : s ++ r = u ++ rest)
    (hlen : s.length = (s ++ r).length - rest.length) : s = u ∧ r = rest := by
  refine List.append_inj h ?_
  rw [hlen, h, List.length_append, Nat.add_sub_cancel]

section Rules

variable {k : Nat} (vs : List Text) {s t : Text}

theorem openings_across {b : Text} (hb : allBlank b = true) (hs : Sealed openMark k s)
    (ht : Sealed openMark k t) :
    Sealed openMark k (b ++ t) ∧ openings vs (s ++ (b ++ t)) = openings vs s + openings vs t := by
  have hmark : openMark ∉ b := fun hmem => (ne_of_isBlank (List.all_eq_true.mp hb _ hmem)).1 rfl
  have hopen : '(' ∉ b := fun hmem => (ne_of_isBlank (List.all_eq_true.mp hb _ hmem)).2 rfl
  have hblank : Sealed openMark k b := .of_not_mem hmark
  refine ⟨hblank.append ht, ?_⟩
  rw [openings_append hs (hblank.append ht), openings_append hblank ht, openings_flat hmark hopen,
    Nat.zero_add]

theorem openings_closed (hs : Sealed openMark k s) :
    Sealed openMark k (s ++ [')']) ∧ openings vs (s ++ [')']) = openings vs s := by
  have hclose : Sealed openMark k [')'] := .keep (by decide) .nil
  have hflat : openings vs [')'] = 0 := openings_flat (by decide) (by decide)
  exact ⟨hs.append hclose, by rw [openings_append hs hclose, hflat, Nat.add_zero]⟩

theorem openings_open (hs : Sealed openMark k s) : openings vs ('(' :: s) = 1 + openings vs s :=
  openings_cons (by decide) hs

theorem lightens_operatorRule {lex : Lexicon} (hlex : IsSlim lex) : Lightens operatorRule where
  rewrites k := rewrites_operatorRule (inherits_sealed (.inl rfl) hlex.avoids k)
    fun _ => .replaceGlyphs (.inl rfl)
  lighter := by
    intro k vs s r p hsealed _ h
    have hI : Hereditary (Sealed openMark k) := Sealed.hereditary (.inl rfl) k
    obtain ⟨rest, hscan, hlen⟩ := Scan.eq_of_rule h
    obtain ⟨op, c, body, items, hc, -, heq, hitems, hp⟩ := eq_of_operatorScan hscan
    have hshape : s ++ r = '(' :: op.symbol :: c :: (body ++ [')']) ++ rest :=
      heq.trans (by simp)
    obtain ⟨rfl, rfl⟩ := eq_of_consumed hshape hlen
    have hsymbol : op.symbol ≠ openMark ∧ op.symbol ≠ '(' := by cases op <;> decide
    have hblank := ne_of_isBlank hc
    have hopened : Sealed openMark k (body ++ [')'] ++ r) :=
      hI.tail (not_isAtomic_of_isBlank hc) (hI.head (isHead_symbol op) hsealed)
    rw [List.append_assoc] at hopened
    obtain ⟨hbody, -⟩ := hI.around not_isAtomic_parens.2 hopened
    obtain ⟨hclosed, hopenings⟩ := openings_closed vs hbody
    have hitem : Sealed openMark k (op.symbol :: c :: (body ++ [')'])) :=
      .keep hsymbol.1 (.keep hblank.1 hclosed)
    have hform : openings vs ('(' :: op.symbol :: c :: (body ++ [')'])) = 1 + openings vs body := by
      rw [openings_open vs hitem, openings_skip hsymbol.1 hsymbol.2 (.keep hblank.1 hclosed),
        openings_skip hblank.1 hblank.2 hclosed, hopenings]
    refine ⟨.keep (by decide) hitem, ?_⟩
    calc openings vs p
        ≤ total vs (items.map replaceGlyphs) :=
          openings_render (sealed_items hlex hbody hitems) hp
      _ ≤ openings vs body := total_items hbody hitems
      _ < openings vs ('(' :: op.symbol :: c :: (body ++ [')'])) := by omega

variable {lex : Lexicon} (hlex : IsSlim lex)

include hlex

theorem lightens_labelRule : Lightens (labelRule lex) where
  rewrites k := rewrites_labelRule (inherits_sealed (.inl rfl) hlex.avoids k)
    fun _ => .replaceGlyphs (.inl rfl)
  lighter := by
    intro k vs s r p hsealed _ h
    have hI : Hereditary (Sealed openMark k) := Sealed.hereditary (.inl rfl) k
    obtain ⟨rest, hscan, hlen⟩ := Scan.eq_of_rule h
    obtain ⟨b, kind, b', name, hb', hne', -, heq, rfl⟩ := eq_of_labelScan hscan
    have hshape : s ++ r =
        '(' :: ("@LABEL".toList ++ b ++ kind) ++ (b' ++ (name ++ [')'])) ++ rest :=
      heq.trans (by simp)
    obtain ⟨rfl, rfl⟩ := eq_of_consumed hshape hlen
    rw [List.append_assoc, List.append_assoc b', List.append_assoc name] at hsealed
    obtain ⟨hhead, htail⟩ := hI.across hb' hne' hsealed
    obtain ⟨hname, -⟩ := hI.around not_isAtomic_parens.2 htail
    obtain ⟨hclosed, hopenings⟩ := openings_closed vs hname
    obtain ⟨hafter, hform⟩ := openings_across vs hb' hhead hclosed
    have hopen := openings_open vs (hI.tail not_isAtomic_parens.1 hhead)
    have hpiece : openings vs (labelPiece lex kind name) ≤ openings vs name :=
      openings_labelPiece hlex kind hname
    exact ⟨hhead.append hafter, by omega⟩

theorem lightens_applyRule : Lightens (applyRule lex) where
  rewrites k := rewrites_applyRule (inherits_sealed (.inl rfl) hlex.avoids k)
    fun _ => .replaceGlyphs (.inl rfl)
  lighter := by
    intro k vs s r p hsealed hslot h
    have hI : Hereditary (Sealed openMark k) := Sealed.hereditary (.inl rfl) k
    obtain ⟨rest, hscan, hlen⟩ := Scan.eq_of_rule h
    obtain ⟨b, name, b', c, body, items, hb, hb', hc, -, heq, hitems, rfl⟩ := eq_of_applyScan hscan
    have hshape : s ++ r = "(@APPLY".toList ++ (b ++ (name ++
        (b' ++ ("(@ARGS".toList ++ ([c] ++ (body ++ [')'] ++ [')'])))))) ++ rest :=
      heq.trans (by simp)
    obtain ⟨rfl, rfl⟩ := eq_of_consumed hshape hlen
    have hslot : '#' ∉ name := fun hmem => hslot (by simp [hmem])
    simp only [List.append_assoc] at hsealed
    obtain ⟨hhead, hfirst⟩ := hI.across hb.1 hb.2 hsealed
    obtain ⟨hname, hlast⟩ := hI.across hb'.1 hb'.2 hfirst
    obtain ⟨-, hitem⟩ := hI.around (not_isAtomic_of_isBlank hc) hlast
    obtain ⟨hbody, -⟩ := hI.around not_isAtomic_parens.2 hitem
    have hblank : allBlank [c] = true := by simp [allBlank, hc]
    have hheads : openings vs "(@APPLY".toList = 1 ∧ openings vs "(@ARGS".toList = 1 := by
      constructor <;> exact openings_of_not_mem (not_mem_ascii rfl)
    have harguments : Sealed openMark k "(@ARGS".toList := .ascii (.inl rfl) rfl
    obtain ⟨hclosed, hopenings⟩ := openings_closed vs hbody
    obtain ⟨hclosed', hopenings'⟩ := openings_closed vs hclosed
    obtain ⟨hafter, hinner⟩ := openings_across vs hblank harguments hclosed'
    obtain ⟨hafter', hmiddle⟩ :=
      openings_across vs hb'.1 hname (harguments.append hafter)
    obtain ⟨hfirst', houter⟩ := openings_across vs hb.1 hhead (hname.append hafter')
    have hpiece :
        openings vs (applyPiece lex name items) ≤ openings vs name + openings vs body + 1 :=
      openings_applyPiece hlex hname hslot hbody hitems
    exact ⟨hhead.append hfirst', by omega⟩

end Rules

theorem exists_values_append (pieces more : List Text) :
    ∃ vs, values (pieces ++ more) = values pieces ++ vs := by
  induction more using List.reverseRecOn with
  | nil => exact ⟨[], by simp⟩
  | append_singleton more p ih =>
      obtain ⟨vs, hvs⟩ := ih
      refine ⟨vs ++ [fill (values (pieces ++ more)) p], ?_⟩
      rw [← List.append_assoc, values_concat, hvs, List.append_assoc]

def Lighter (pieces : List Text) (t : Text) (result : Text × List Text) : Prop :=
  result = (t, pieces) ∨ ∃ u more, result = (u, pieces ++ more) ∧
    openings (values (pieces ++ more)) u < openings (values pieces) t

theorem Lighter.le {pieces : List Text} {t : Text} {result : Text × List Text}
    (h : Lighter pieces t result) : ∃ more, result.2 = pieces ++ more ∧
      openings (values (pieces ++ more)) result.1 ≤ openings (values pieces) t := by
  rcases h with rfl | ⟨u, more, rfl, hlt⟩
  · exact ⟨[], (List.append_nil pieces).symm, by rw [List.append_nil]⟩
  · exact ⟨more, rfl, Nat.le_of_lt hlt⟩

theorem Lightens.sweep {rule : Rule Text} (hrule : Lightens rule) {k : Nat} {pieces : List Text}
    {t : Text} (ht : Sealed openMark k t) (hslot : '#' ∉ t) (hp : Ordered openMark pieces)
    (hk : k ≤ pieces.length) : Lighter pieces t (sweep rule pieces t) := by
  revert pieces hslot
  refine (hrule.rewrites k).induct_sealed (motive := fun t => ∀ {pieces : List Text}, '#' ∉ t →
    Ordered openMark pieces → k ≤ pieces.length →
      Lighter pieces t (Evaluation.sweep rule pieces t)) ?nil ?keep ?hit ?reference ht
  case nil =>
    intro pieces _ _ _
    exact .inl rfl
  case keep =>
    intro c t hc hnone ht ih pieces hslot hp hk
    have hvalid := (sweep_valid (hrule.rewrites k) ht hp hk).1.text
    rw [sweep_keep (hrule.rewrites k).toAtForms hnone]
    rcases ih (fun hmem => hslot (List.mem_cons_of_mem c hmem)) hp hk with h | ⟨u, more, h, hlt⟩
    · rw [h]
      exact .inl rfl
    · rw [h] at hvalid ⊢
      refine .inr ⟨c :: u, more, rfl, ?_⟩
      rw [openings_cons hc hvalid, openings_cons hc ht]
      exact Nat.add_lt_add_left hlt _
  case hit =>
    intro s t p hs hhit hpiece hwhole ht ih pieces hslot hp hk
    rw [List.mem_append, not_or] at hslot
    obtain ⟨hform, hlt⟩ := hrule.lighter (values pieces) hwhole hslot.1 hhit
    obtain ⟨more, hmore, hle⟩ := (ih hslot.2 (hp.concat (hpiece.mono hk))
      (hk.trans (by simp))).le
    obtain ⟨vs, hvs⟩ := exists_values_append (pieces ++ [p]) more
    have hvalue : (values (pieces ++ [p] ++ more))[pieces.length]?.getD [] =
        fill (values pieces) p := by
      have hlen := length_values pieces
      rw [hvs, values_concat, List.append_assoc, List.getElem?_append_right (Nat.le_of_eq hlen),
        hlen, Nat.sub_self]
      rfl
    have hextend : openings (values (pieces ++ [p])) t = openings (values pieces) t := by
      rw [values_concat]
      exact openings_extend (ht.mono (by rwa [length_values])) _
    rw [sweep_hit (hrule.rewrites k).toAtForms hs hhit]
    have happend : pieces ++ [p] ++ more = pieces ++ p :: more := by simp
    refine .inr ⟨reference pieces.length ++ (Evaluation.sweep rule (pieces ++ [p]) t).1, p :: more,
      by rw [hmore, happend], ?_⟩
    rw [← happend, openings_reference, hvalue, openings_append hform ht]
    exact Nat.add_lt_add_of_lt_of_le hlt (hle.trans_eq hextend)
  case reference =>
    intro n t hn ht ih pieces hslot hp hk
    rw [List.mem_append, not_or] at hslot
    rw [sweep_flat (hrule.rewrites k).toAtForms (not_mem_reference isBreak_paren.1 n)]
    rcases ih hslot.2 hp hk with h | ⟨u, more, h, hlt⟩
    · rw [h]
      exact .inl rfl
    · rw [h]
      refine .inr ⟨reference n ++ u, more, rfl, ?_⟩
      obtain ⟨vs, hvs⟩ := exists_values_append pieces more
      have hvalue : (values (pieces ++ more))[n]? = (values pieces)[n]? := by
        rw [hvs, List.getElem?_append_left (by rw [length_values]; omega)]
      rw [openings_reference, openings_reference, hvalue]
      exact Nat.add_lt_add_left hlt _

namespace State

def openings (s : State) : Nat :=
  Evaluation.openings (values s.pieces) s.text

variable {lex : Lexicon} (hlex : IsSlim lex) {s : State}

structure Plain (s : State) : Prop where
  valid : s.Valid openMark
  slot : '#' ∉ s.text

def Drops (s s' : State) : Prop :=
  s' = s ∨ s'.openings < s.openings

theorem Drops.le {s' : State} (h : s.Drops s') : s'.openings ≤ s.openings := by
  rcases h with rfl | h
  · exact Nat.le_refl _
  · exact Nat.le_of_lt h

theorem Drops.trans {s' s'' : State} (h : s.Drops s') (h' : s'.Drops s'') : s.Drops s'' := by
  rcases h with rfl | h
  · exact h'
  · exact .inr (Nat.lt_of_le_of_lt h'.le h)

theorem Plain.apply {rule : Rule Text} (hrule : Lightens rule) (hs : s.Plain) :
    (s.apply rule).Plain ∧ s.Drops (s.apply rule) := by
  have hbreak : IsBreak '#' := ⟨by decide, by decide, by decide⟩
  refine ⟨⟨hs.valid.apply hrule.rewrites, fun hmem => hs.slot ?_⟩, ?_⟩
  · exact mem_of_keep_mem (mem_of_mem_stow hbreak hmem)
  · have hlighter := hrule.sweep hs.valid.text hs.slot hs.valid.ordered (Nat.le_refl _)
    change Lighter s.pieces s.text (stow s.pieces (segments rule s.text)) at hlighter
    rcases hlighter with h | ⟨u, more, h, hlt⟩
    · exact .inl (by rw [State.apply, h])
    · exact .inr (by rw [State.apply, h]; exact hlt)

include hlex

theorem Plain.round (hs : s.Plain) : (s.round lex).Plain ∧ s.Drops (s.round lex) := by
  obtain ⟨hlabel, hdrop⟩ := hs.apply (lightens_labelRule hlex)
  obtain ⟨happly, hdrop'⟩ := hlabel.apply (lightens_applyRule hlex)
  obtain ⟨hoperator, hdrop''⟩ := happly.apply (lightens_operatorRule hlex)
  exact ⟨hoperator, (hdrop.trans hdrop').trans hdrop''⟩

theorem Plain.settle (hs : s.Plain) : (s.settle lex).Plain ∧ s.Drops (s.settle lex) := by
  refine settleWithin_induct (S := fun s' => s'.Plain ∧ s.Drops s') ?_ ⟨hs, .inl rfl⟩ _
  rintro s' ⟨hplain, hdrop⟩
  obtain ⟨hround, hdrop'⟩ := hplain.round hlex
  exact ⟨hround, hdrop.trans hdrop'⟩

end State

section Tags

variable {k : Nat} (vs : List Text) {t : Text}

theorem openings_dropTags (ht : Sealed openMark k t) :
    openings vs (dropTags t) ≤ openings vs t ∧ ∀ c w, isTagCapital c = true →
      occursIn ('(' :: '@' :: c :: w) t = true → openings vs (dropTags t) < openings vs t := by
  refine (rewrites_bareTagRule_sealed (.inl rfl) k).induct_sealed
    (motive := fun t => openings vs (dropTags t) ≤ openings vs t ∧ ∀ c w, isTagCapital c = true →
      occursIn ('(' :: '@' :: c :: w) t = true → openings vs (dropTags t) < openings vs t)
    ?nil ?keep ?hit ?reference ht
  case nil => exact ⟨Nat.le_refl _, fun c w _ h => nomatch h⟩
  case keep =>
    intro d t hd hnone ht ih
    have hdropped := ht.dropTags (.inl rfl)
    rw [dropTags_keep hnone, openings_cons hd hdropped, openings_cons hd ht]
    refine ⟨Nat.add_le_add_left ih.1 _, fun c w hc h => Nat.add_lt_add_left (ih.2 c w hc ?_) _⟩
    rw [occursIn, Bool.or_eq_true] at h
    refine h.resolve_left fun hstart => ?_
    obtain ⟨r, hr⟩ := List.isPrefixOf_iff_prefix.mp hstart
    rw [← hr] at hnone
    simp [bareTagRule, Scan.rule, bareTagScan, dropPrefix?, takeRun?, hc] at hnone
  case hit =>
    intro s t p hs hhit _ _ ht ih
    obtain ⟨rest, hscan, hlen⟩ := Scan.eq_of_rule hhit
    obtain ⟨w, b, hw, hb, heq, rfl⟩ := eq_of_bareTagScan hscan
    obtain ⟨rfl, rfl⟩ := eq_of_consumed heq hlen
    have hmark : openMark ∉ "(@".toList ++ w ++ b := by
      intro hmem
      rcases List.mem_append.mp hmem with hmem | hmem
      · rcases List.mem_append.mp hmem with hmem | hmem
        · exact absurd hmem (by decide)
        · exact absurd (hw _ hmem) (by decide)
      · exact absurd (List.all_eq_true.mp hb _ hmem) (by decide)
    have hform : 1 ≤ openings vs ("(@".toList ++ w ++ b) := by
      rw [openings_of_not_mem hmark]
      exact List.count_pos_iff.mpr (by simp)
    have hlt : openings vs (dropTags ("(@".toList ++ w ++ b ++ t)) <
        openings vs ("(@".toList ++ w ++ b ++ t) := by
      have hle := ih.1
      rw [dropTags_hit hs hhit, openings_append (.of_not_mem hmark) ht]
      omega
    exact ⟨Nat.le_of_lt hlt, fun _ _ _ _ => hlt⟩
  case reference =>
    intro n t hn ht ih
    have hflat : '(' ∉ reference n := not_mem_reference isBreak_paren.1 n
    rw [dropTags_flat hflat, openings_reference, openings_reference]
    refine ⟨Nat.add_le_add_left ih.1 _, fun c w hc h => Nat.add_lt_add_left (ih.2 c w hc ?_) _⟩
    rwa [occursIn_flat hflat] at h

end Tags

theorem occursIn_balanceFrom {w : Text} (hw : w.all (!isParen ·) = true) (d : Nat) {t : Text}
    (h : occursIn ('(' :: w) t = true) : occursIn ('(' :: w) (balanceFrom d t) = true := by
  have hflat : ∀ c ∈ w, isParen c = false := by simpa using List.all_eq_true.mp hw
  induction t generalizing d with
  | nil => cases h
  | cons c t ih =>
      have hlater (k : Nat) (ht : occursIn ('(' :: w) t = true) :
          occursIn ('(' :: w) (c :: balanceFrom k t) = true := by
        rw [occursIn, ih k ht, Bool.or_true]
      rw [occursIn, Bool.or_eq_true] at h
      rcases h with h | h
      · obtain ⟨r, hr⟩ := List.isPrefixOf_iff_prefix.mp h
        obtain ⟨rfl, rfl⟩ := List.cons.inj hr
        have hstep : balanceFrom d ('(' :: (w ++ r)) = '(' :: (w ++ balanceFrom (d + 1) r) := by
          rw [← balanceFrom_append (depthFrom_flat hflat (d + 1))]
          simp [balanceFrom]
        change occursIn ('(' :: w) (balanceFrom d ('(' :: (w ++ r))) = true
        rw [hstep, occursIn_iff]
        exact (List.prefix_append ('(' :: w) _).isInfix
      · rcases paren_cases c with rfl | rfl | hc
        · exact hlater (d + 1) h
        · cases d with
          | zero => exact ih 0 h
          | succ d => exact hlater d h
        · have hstep : balanceFrom d (c :: t) = c :: balanceFrom d t := by
            simp [balanceFrom, ne_of_not_paren hc]
          rw [hstep]
          exact hlater d h

theorem State.Plain.dropTags {s s' : State} (hs : s.Plain)
    (hs' : s' = { s with text := balance (dropTags s.text) }) :
    s'.Plain ∧ s'.openings ≤ s.openings ∧ ∀ c w, isTagCapital c = true →
      occursIn ('(' :: '@' :: c :: w) s.text = true → s'.openings < s.openings := by
  subst hs'
  have hdropped := hs.valid.text.dropTags (.inl rfl)
  have hopenings : State.openings { s with text := balance (Evaluation.dropTags s.text) } =
      Evaluation.openings (values s.pieces) (Evaluation.dropTags s.text) :=
    openings_balanceFrom hdropped 0
  obtain ⟨hle, hlt⟩ := openings_dropTags (values s.pieces) hs.valid.text
  rw [hopenings]
  refine ⟨⟨⟨hs.valid.ordered, hdropped.balanceFrom (.inl rfl) 0⟩, fun hmem => hs.slot ?_⟩, hle, hlt⟩
  exact mem_of_mem_dropTags (mem_of_mem_balanceFrom (by decide) hmem)

theorem count_collapse_lt {lex : Lexicon} (hlex : IsSlim lex) {e u : Text} (hmark : openMark ∉ e)
    (hslot : '#' ∉ e) (htag : occursIn "(@LABEL" e = true ∨ occursIn "(@APPLY" e = true)
    (h : collapse lex e = .ok u) : u.count '(' < e.count '(' := by
  let s : State := ⟨balance e, []⟩
  have hsealed : Sealed openMark 0 e := .of_not_mem hmark
  have hs : s.Plain := by
    refine ⟨⟨ordered_nil, hsealed.balanceFrom (.inl rfl) 0⟩, fun hmem => hslot ?_⟩
    exact mem_of_mem_balanceFrom (by decide) hmem
  have hstart : s.openings = e.count '(' :=
    (openings_balanceFrom hsealed 0).trans (openings_of_not_mem hmark)
  obtain ⟨hsettled, hdrop⟩ := hs.settle hlex
  obtain ⟨hplain, hle, htags⟩ := hsettled.dropTags rfl
  have hagain :
      State.openings { s.settle lex with text := balance (dropTags (s.settle lex).text) } <
      s.openings := by
    rcases hdrop with heq | hlt
    · rw [heq] at htags hle ⊢
      rcases htag with htag | htag
      · exact htags 'L' "ABEL".toList rfl (occursIn_balanceFrom rfl 0 htag)
      · exact htags 'A' "PPLY".toList rfl (occursIn_balanceFrom rfl 0 htag)
    · exact Nat.lt_of_le_of_lt hle hlt
  have hend : (collapsed lex e).openings < e.count '(' := by
    rw [← hstart]
    exact Nat.lt_of_le_of_lt (hplain.settle hlex).2.le hagain
  rw [collapse_eq_fill (.inl rfl) hlex.avoids hmark] at h
  rw [← Except.ok.inj h, count_collapseBlanks (by decide)]
  exact hend

end WorksheetTex.Evaluation
