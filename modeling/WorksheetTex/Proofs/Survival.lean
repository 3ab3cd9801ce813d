import WorksheetTex.Proofs.Layer
import WorksheetTex.Proofs.Occurrence

namespace WorksheetTex

open Text Tex Paren Vocabulary Form Evaluation

theorem composes_not_mem {c : Char} (hc : isAscii c = false) : Composes (c ∉ ·) where
  assembles := by
    refine assembles_of_ascii (fun hs ht => by simp [hs, ht]) fun ht hmem => ?_
    have := List.all_eq_true.mp ht c hmem
    rw [hc] at this
    cases this
  slots := by
    intro s t hs ht hmem
    obtain ⟨d, hd, hmem⟩ := List.mem_flatMap.mp hmem
    split at hmem
    · exact ht hmem
    · exact hs (List.mem_singleton.mp hmem ▸ hd)

namespace Vocabulary

def IsGlyph (g : Char) : Prop :=
  g ∈ glyphs.map Prod.fst

instance : DecidablePred IsGlyph :=
  fun _ => inferInstanceAs (Decidable (_ ∈ _))

structure Lexicon.Lacks (lex : Lexicon) (g : Char) : Prop where
  values : lex.All (g ∉ ·)
  function {name : Text} : g ∈ name → lex.function name = name

namespace IsGlyph

variable {g : Char} (hg : IsGlyph g)

include hg

theorem not_ascii : isAscii g = false := by
  obtain ⟨p, hp, rfl⟩ := List.mem_map.mp hg
  exact (ascii_of_mem_glyphs hp).1

theorem ne_ascii {c : Char} (hc : isAscii c = true) : g ≠ c := by
  rintro rfl
  rw [hg.not_ascii] at hc
  cases hc

theorem isBreak : IsBreak g := by
  have hmarks : ¬ IsGlyph openMark ∧ ¬ IsGlyph closeMark := by decide
  refine ⟨fun h => hmarks.1 (h ▸ hg), fun h => hmarks.2 (h ▸ hg), ?_⟩
  exact Bool.eq_false_iff.mpr fun hdigit => hg.ne_ascii (isAtomic_of_isDigit hdigit).2 rfl

theorem not_blank : isBlank g = false := by
  have hall : (glyphs.map Prod.fst).all (!isBlank ·) = true := by decide
  simpa using List.all_eq_true.mp hall g hg

theorem not_mem_replaceGlyphs (t : Text) : g ∉ replaceGlyphs t := by
  intro hmem
  obtain ⟨c, -, hc⟩ := mem_replaceGlyphs hmem
  have hstable := glyph_of_mem_glyph hc
  have hall : (glyphs.map Prod.fst).all (fun x => glyph x != [x]) = true := by decide
  simpa [hstable] using List.all_eq_true.mp hall g hg

theorem exists_mem_lowerFrom (before : Text) {t : Text} (h : g ∈ t) :
    ∃ c ∈ lowerFrom before t, isAscii c = false := by
  induction t generalizing before with
  | nil => cases h
  | cons d t ih =>
      rw [lowerFrom]
      rcases List.mem_cons.mp h with rfl | h
      · have hall : (glyphs.map Prod.fst).all
            (fun x => (mapCase lowerSeveral lowerRuns x).any (!isAscii ·)) = true := by
          decide +kernel
        obtain ⟨c, hc, hascii⟩ := List.any_eq_true.mp (List.all_eq_true.mp hall g hg)
        split
        · split
          · exact ⟨'ς', List.mem_cons_self, by decide⟩
          · exact ⟨'σ', List.mem_cons_self, by decide⟩
        · exact ⟨c, List.mem_append_left _ hc, by simpa using hascii⟩
      · obtain ⟨c, hc, hascii⟩ := ih (d :: before) h
        exact ⟨c, List.mem_append_right _ hc, hascii⟩

theorem lacks_default : (Lexicon.ofDeclarations {}).Lacks g where
  values := by
    have hascii : (Lexicon.ofDeclarations {}).All fun t => t.all isAscii = true :=
      Lexicon.all_ofDeclarations (by decide +kernel) (by simp)
    exact hascii.mono fun t ht hmem => hg.ne_ascii (List.all_eq_true.mp ht g hmem) rfl
  function := by
    intro name hname
    have hunknown {key : Text} {c : Char} (hc : c ∈ key) (hascii : isAscii c = false) :
        defaultFunctions.lookup key = none := by
      refine List.lookup_eq_none_iff.mpr fun e he => bne_iff_ne.mpr ?_
      rintro rfl
      have hall : defaultFunctions.all (·.1.all isAscii) = true := by decide
      have := List.all_eq_true.mp (List.all_eq_true.mp hall e he) c hc
      rw [hascii] at this
      cases this
    obtain ⟨c, hc, hascii⟩ := hg.exists_mem_lowerFrom [] hname
    have hlower : defaultFunctions.lookup (lower name) = none := hunknown hc hascii
    change ((defaultFunctions.lookup name).or (defaultFunctions.lookup (lower name))).getD _ = _
    rw [hunknown hname hg.not_ascii, hlower]
    rfl

end IsGlyph

end Vocabulary

namespace Evaluation

def Leaves (lex : Lexicon) (g : Char) (e : Text) : Prop :=
  g ∈ (collapsed lex e).text ∨ ∃ name items, g ∈ name ∧
    Reaches (collapsed lex e).pieces (collapsed lex e).text (applyPiece lex name items)

structure State.Traces (lex : Lexicon) (g : Char) (e : Text) (s : State) : Prop where
  text : g ∈ s.text → g ∈ e
  pieces : ∀ p ∈ s.pieces, g ∈ p →
    g ∈ e ∧ ∃ name items, g ∈ name ∧ p = applyPiece lex name items

section Glyph

variable {lex : Lexicon} {g : Char} (hg : IsGlyph g)

include hg

theorem mem_collapse_iff {e u : Text} (h : collapse lex e = .ok u) :
    g ∈ u ↔ ∃ q, Reaches (collapsed lex e).pieces (collapsed lex e).text q ∧ g ∈ q := by
  obtain ⟨v, hv, h⟩ := exists_of_bind_ok h
  obtain rfl := Except.ok.inj h
  rw [mem_collapseBlanks_iff hg.not_blank]
  exact mem_expand_iff hg.isBreak hv

theorem mem_applyPiece {name : Text} (hfunction : lex.function name = name)
    (hname : g ∈ name) (items : List Text) : g ∈ applyPiece lex name items := by
  rw [applyPiece, hfunction, applyTemplate]
  split
  · refine List.mem_flatMap.mpr ⟨g, hname, ?_⟩
    rw [if_neg (hg.ne_ascii rfl)]
    exact List.mem_singleton_self g
  · simp [hname]

theorem State.Traces.apply {e : Text} {s : State} (hs : s.Traces lex g e) {rule : Rule Text}
    (hrule : ∀ before t n p, rule before t = some (n, p) → g ∈ p →
      ∃ name items, g ∈ name ∧ name ⊆ t ∧ p = applyPiece lex name items) :
    (s.apply rule).Traces lex g e where
  text hmem := hs.text (mem_of_keep_mem (mem_of_mem_stow hg.isBreak hmem))
  pieces := by
    intro p hp hmem
    rcases mem_or_hit_of_mem_stow hp with hp | hp
    · exact hs.pieces p hp hmem
    · obtain ⟨before, t, n, hsuffix, hhit⟩ := exists_of_hit_mem hp
      obtain ⟨name, items, hname, hsub, rfl⟩ := hrule before t n p hhit hmem
      exact ⟨hs.text (hsuffix.subset (hsub hname)), name, items, hname, rfl⟩

variable (hlex : lex.Lacks g)

include hlex

theorem State.Traces.round {e : Text} {s : State} (hs : s.Traces lex g e) :
    (s.round lex).Traces lex g e := by
  have hcomposes := composes_not_mem hg.not_ascii
  have hitems (items : List Text) : ∀ w ∈ items.map replaceGlyphs, g ∉ w := by
    intro w hw
    obtain ⟨v, -, rfl⟩ := List.mem_map.mp hw
    exact hg.not_mem_replaceGlyphs v
  have hlabel : (s.apply (labelRule lex)).Traces lex g e := by
    refine hs.apply hg fun before t n p hrule hmem => absurd hmem ?_
    obtain ⟨_, hscan, -⟩ := Scan.eq_of_rule hrule
    obtain ⟨_, kind, _, name, _, _, _, _, rfl⟩ := eq_of_labelScan hscan
    have hname := hg.not_mem_replaceGlyphs name
    rw [labelPiece]
    cases LabelKind.ofName? kind with
    | none => exact hname
    | some kind =>
        exact hlex.values.label hname (hcomposes.upright hname) (hcomposes.operatorName hname) kind
  have happly : ((s.apply (labelRule lex)).apply (applyRule lex)).Traces lex g e := by
    refine hlabel.apply hg fun before t n p hrule hmem => ?_
    obtain ⟨rest, hscan, -⟩ := Scan.eq_of_rule hrule
    obtain ⟨b, name, b', c, body, items, _, _, _, _, rfl, _, rfl⟩ := eq_of_applyScan hscan
    refine ⟨name, items, Decidable.not_not.mp fun hname => ?_, fun x hx => by simp [hx], rfl⟩
    exact hcomposes.applyTemplate (hlex.values.function hname)
      (hcomposes.joinWith rfl (hitems items)) hmem
  refine happly.apply hg fun before t n p hrule hmem => absurd hmem ?_
  obtain ⟨_, hscan, -⟩ := Scan.eq_of_rule hrule
  obtain ⟨_, _, _, items, _, _, _, _, hrender⟩ := eq_of_operatorScan hscan
  exact hcomposes.render (hitems items) hrender

theorem traces_collapsed (e : Text) : (collapsed lex e).Traces lex g e := by
  have hclose : g ≠ ')' := hg.ne_ascii rfl
  refine collapsed_induct ⟨mem_of_mem_balanceFrom hclose, by simp⟩
    (fun s hs => hs.round hg hlex) fun s hs => ⟨fun hmem => ?_, hs.pieces⟩
  exact hs.text (mem_of_mem_dropTags (mem_of_mem_balanceFrom hclose hmem))

theorem mem_of_mem_collapse {e u : Text} (h : collapse lex e = .ok u) (hmem : g ∈ u) : g ∈ e := by
  have htraces := traces_collapsed hg hlex e
  obtain ⟨q, hreach, hmem⟩ := (mem_collapse_iff hg h).mp hmem
  rcases hreach.eq_or_mem with rfl | hq
  · exact htraces.text hmem
  · exact (htraces.pieces q hq hmem).1

theorem mem_collapse_iff_leaves {e u : Text} (h : collapse lex e = .ok u) :
    g ∈ u ↔ Leaves lex g e := by
  rw [mem_collapse_iff hg h]
  constructor
  · rintro ⟨q, hreach, hmem⟩
    rcases hreach.eq_or_mem with rfl | hq
    · exact .inl hmem
    · obtain ⟨-, name, items, hname, rfl⟩ := (traces_collapsed hg hlex e).pieces q hq hmem
      exact .inr ⟨name, items, hname, hreach⟩
  · rintro (htext | ⟨name, items, hname, hreach⟩)
    · exact ⟨_, .self _, htext⟩
    · exact ⟨_, hreach, mem_applyPiece hg (hlex.function hname) hname items⟩

end Glyph

end Evaluation

namespace Form.Operator

variable {α β : Type}

def shown : Operator → List α → List α
  | .divide, a :: b :: _ => [a, b]
  | .power, a :: b :: _ => [a, b]
  | .divide, _ => []
  | .power, _ => []
  | _, as => as

theorem forall₂_shown {R : α → β → Prop} {as : List α} {bs : List β} (op : Operator)
    (h : List.Forall₂ R as bs) : List.Forall₂ R (op.shown as) (op.shown bs) := by
  cases h with
  | nil => cases op <;> exact .nil
  | cons ha has =>
      cases has with
      | nil => cases op <;> first | exact .cons ha .nil | exact .nil
      | cons hb hbs =>
          cases op <;> first | exact .cons ha (.cons hb hbs) | exact .cons ha (.cons hb .nil)

theorem mem_render_iff {g : Char} (hg : isAscii g = false) (op : Operator) (ts : List Text) :
    g ∈ (op.render ts).getD [] ↔ ∃ t ∈ op.shown ts, g ∈ t := by
  have hne {c : Char} (hc : isAscii c = true) : g ≠ c := by
    rintro rfl
    rw [hg] at hc
    cases hc
  have hjoin {separator : Text} (hs : separator.all isAscii = true) (ts : List Text) :
      g ∈ joinWith separator ts ↔ ∃ t ∈ ts, g ∈ t :=
    mem_joinWith_iff fun hmem => hne (List.all_eq_true.mp hs g hmem) rfl
  have hgroup (t : Text) : g ∈ group t ↔ g ∈ t := by
    simp [group, hne (c := '{') rfl, hne (c := '}') rfl]
  rcases ts with _ | ⟨a, _ | ⟨b, ts⟩⟩
  · cases op <;> simp [render, shown]
  · have hminus : g ≠ '-' := hne rfl
    cases op <;> simp [render, shown, joinWith, hminus]
  · cases op with
    | plus => exact hjoin rfl _
    | minus => exact hjoin rfl _
    | times => exact hjoin rfl _
    | divide =>
        have hfrac : g ∉ "\\frac".toList := fun hmem => hne (List.all_eq_true.mp rfl g hmem) rfl
        change g ∈ "\\frac".toList ++ group a ++ group b ↔ _
        rw [List.mem_append, List.mem_append, hgroup, hgroup, or_iff_right hfrac]
        simp [shown]
    | power =>
        have hbase : (g ∈ if a = ['e'] then a else group a) ↔ g ∈ a := by
          split
          · rfl
          · exact hgroup a
        change (g ∈ (if a = ['e'] then a else group a) ++ sup b) ↔ _
        rw [List.mem_append, hbase, sup, List.mem_cons, hgroup]
        simp [shown, hne (c := '^') rfl]

end Form.Operator

namespace Layer

variable {lex : Lexicon} {t : Text}

inductive Survives (lex : Lexicon) (g : Char) : Text → Prop
  | collapsed {t u : Text} : isEvaluation (trim t) = true → read lex t = .ok (.done u) →
      Leaves lex g (trim t) → Survives lex g t
  | operand {t a : Text} {op : Operator} {as : List Text} : read lex t = .ok (.arithmetic op as) →
      a ∈ op.shown as → Survives lex g a → Survives lex g t

theorem collapse_of_read {u : Text} (heval : isEvaluation (trim t) = true)
    (h : read lex t = .ok (.done u)) : collapse lex (trim t) = .ok u := by
  obtain ⟨op, hop⟩ := operator?_of_isEvaluation heval
  have hne : (trim t).isEmpty = false := by
    cases ht : trim t with
    | nil => simp [ht, operator?] at hop
    | cons => rfl
  simp only [read, hne, heval, readEvaluation, hop, Bool.false_eq_true, if_false, if_true] at h
  split at h
  · cases h
  · obtain ⟨v, hv, h⟩ := exists_of_bind_ok h
    split at h
    · cases h
    · obtain rfl := Layer.done.inj (Except.ok.inj h)
      exact hv

theorem survives_done_iff {g : Char} (hg : IsGlyph g) (hlex : lex.Lacks g) {u : Text}
    (h : read lex t = .ok (.done u)) : Survives lex g t ↔ g ∈ u := by
  constructor
  · intro hsurvives
    cases hsurvives with
    | collapsed heval _ hleaves =>
        exact (mem_collapse_iff_leaves hg hlex (collapse_of_read heval h)).mpr hleaves
    | operand h' _ _ => cases h.symm.trans h'
  · intro hmem
    rcases read_cases h with hu | ⟨_, _, hu⟩ | ⟨v, heval, hcollapse, hu⟩ | ⟨_, _, hu⟩
    · obtain rfl := Layer.done.inj hu
      cases hmem
    · cases hu
    · obtain rfl := Layer.done.inj hu
      exact .collapsed heval h ((mem_collapse_iff_leaves hg hlex hcollapse).mp hmem)
    · cases hu

theorem survives_arithmetic_iff {g : Char} {op : Operator} {as : List Text}
    (h : read lex t = .ok (.arithmetic op as)) :
    Survives lex g t ↔ ∃ a ∈ op.shown as, Survives lex g a := by
  constructor
  · intro hsurvives
    cases hsurvives with
    | collapsed _ h' _ => cases h.symm.trans h'
    | operand h' ha hsurvives =>
        obtain ⟨rfl, rfl⟩ := Layer.arithmetic.inj (Except.ok.inj (h.symm.trans h'))
        exact ⟨_, ha, hsurvives⟩
  · rintro ⟨a, ha, hsurvives⟩
    exact .operand h ha hsurvives

theorem not_survives_tagged {g : Char} {form : Form Text} (h : read lex t = .ok (.tagged form)) :
    ¬ Survives lex g t := by
  intro hsurvives
  cases hsurvives with
  | collapsed _ h' _ => cases h.symm.trans h'
  | operand h' _ _ => cases h.symm.trans h'

end Layer

namespace Setting

variable (s : Setting) {g : Char} (hg : IsGlyph g) (hlex : s.lexicon.Lacks g)

include hg hlex

theorem inherits_absent : Inherits s.lexicon (g ∉ ·) (g ∉ ·) where
  hereditary := hereditary_not_mem g
  composes := composes_not_mem hg.not_ascii
  written := id
  lexicon := hlex.values

theorem ends_typesetWithin_absent (n : Nat) {t : Text} (ht : g ∉ t) :
    Ends (g ∉ ·) (fun _ => True) (s.typesetWithin n t) := by
  have hspace : g ≠ ' ' := hg.ne_ascii rfl
  refine s.ends_typesetWithin (I := fun _ => (g ∉ ·)) (composes_not_mem hg.not_ascii) hlex.values
    (fun t ht => (mem_spaceCommands_iff hspace).not.mpr ht) (fun _ _ => trivial)
    (fun n t ht => ?_) ht
  have he : g ∉ trim t := (hereditary_not_mem g).trim ht
  have hopen {u : Text} (hu : g ∉ u) (c : Char) (r : Text) (hur : u = '(' :: c :: r)
      (hc : isHead c = true) : g ∉ r := (hereditary_not_mem g).head hc (hur ▸ hu)
  exact Layer.ends_read (s.inherits_absent hg hlex) trivial trivial (hopen he)
    (hopen (hg.not_mem_replaceGlyphs _)) (hg.not_mem_replaceGlyphs _)
    (fun u hu hmem => he (mem_of_mem_collapse hg hlex hu hmem)) fun _ _ => trivial

theorem ends_tagged_absent (n : Nat) {e : Text} {form : Form Text}
    (h : Form.read s.lexicon (replaceGlyphs e) = .ok form) :
    Ends (fun filled => g ∉ filled.layout s.lexicon) (fun _ => True)
      ((Layer.tagged form).traverse (s.typesetWithin n)) := by
  have hspace : g ≠ ' ' := hg.ne_ascii rfl
  have hread : Ends (Form.All (g ∉ ·) (g ∉ ·)) (fun _ => True)
      (Form.read s.lexicon (replaceGlyphs e)) :=
    (s.inherits_absent hg hlex).read trivial trivial
      (fun c r hcr hc => (hereditary_not_mem g).head hc (hcr ▸ hg.not_mem_replaceGlyphs e))
      (hg.not_mem_replaceGlyphs e)
  rw [h] at hread
  have hform : (Layer.tagged form).All (g ∉ ·) (g ∉ ·) := hread
  refine (Layer.ends_traverse (fun a ha => s.ends_typesetWithin_absent hg hlex n ha)
    hform).mono fun filled hfilled => ?_
  exact Layer.layout_all (composes_not_mem hg.not_ascii) hlex.values
    (fun t ht => (mem_spaceCommands_iff hspace).not.mpr ht) hfilled

theorem mem_typesetWithin_iff {n : Nat} {t r : Text} (h : s.typesetWithin n t = .ok r) :
    g ∈ r ↔ Layer.Survives s.lexicon g t := by
  induction n generalizing t r with
  | zero => cases h
  | succ n ih =>
      obtain ⟨layer, hread, h⟩ := exists_of_bind_ok h
      obtain ⟨filled, hfilled, h⟩ := exists_of_bind_ok h
      obtain rfl := Except.ok.inj h
      cases layer with
      | done u =>
          obtain rfl := Except.ok.inj hfilled
          exact (Layer.survives_done_iff hg hlex hread).symm
      | arithmetic op as =>
          obtain ⟨bs, hbs, hfilled⟩ := exists_of_bind_ok hfilled
          obtain rfl := Except.ok.inj hfilled
          rw [traverseList_eq_mapM] at hbs
          have hshown : List.Forall₂ (fun a b => g ∈ b ↔ Layer.Survives s.lexicon g a)
              (op.shown as) (op.shown bs) :=
            op.forall₂_shown ((forall₂_of_mapM hbs).imp fun _ _ hb => ih hb)
          rw [Layer.survives_arithmetic_iff hread]
          exact (op.mem_render_iff hg.not_ascii bs).trans (exists_mem_iff_of_forall₂ hshown)
      | tagged form =>
          rcases Layer.read_cases hread with hf | ⟨_, _, hf⟩ | ⟨_, _, _, hf⟩ | ⟨_, hform, hf⟩
          · cases hf
          · cases hf
          · cases hf
          · obtain rfl := Layer.tagged.inj hf
            have habsent := s.ends_tagged_absent hg hlex n hform
            rw [hfilled] at habsent
            exact iff_of_false habsent (Layer.not_survives_tagged hread)

end Setting

theorem glyph_mem_typeset_iff (o : Options) {t latex : Text}
    (h : typeset (.record
      { o with units := .missing, constants := .missing, functions := .missing }) t = .ok latex)
    {g : Char} (hg : IsGlyph g) : g ∈ latex ↔ Layer.Survives (.ofDeclarations {}) g t := by
  obtain ⟨u, hu, rfl⟩ := exists_of_typeset_default h
  rw [mem_spaceCommands_iff (hg.ne_ascii rfl)]
  exact Setting.mem_typesetWithin_iff ⟨.ofDeclarations {}, o.limit⟩ hg hg.lacks_default hu

theorem glyph_mem_typeset_trailing :
    ∃ latex, typeset (.record {}) "(* 2 (+ (@LABEL VARIABLE x) β)α)".toList = .ok latex ∧
      Layer.Survives (.ofDeclarations {}) 'α' "(* 2 (+ (@LABEL VARIABLE x) β)α)".toList ∧
      ¬ Layer.Survives (.ofDeclarations {}) 'β' "(* 2 (+ (@LABEL VARIABLE x) β)α)".toList := by
  have htypeset : typeset (.record {}) "(* 2 (+ (@LABEL VARIABLE x) β)α)".toList =
      .ok "2 \\cdot x + \\beta α".toList := by decide +kernel
  refine ⟨_, htypeset, (glyph_mem_typeset_iff {} htypeset (by decide)).mp (by decide), ?_⟩
  exact (glyph_mem_typeset_iff {} htypeset (by decide)).not.mp (by decide)

theorem glyph_mem_typeset_application :
    typeset (.record {}) "(+ (@APPLY φ (@ARGS x)) 1".toList = .ok "φ(x) + 1".toList ∧
      typeset (.record {}) "(+ (@LABEL VARIABLE x) 1) α".toList = .ok "x + 1 α".toList ∧
      IsGlyph 'φ' ∧ IsGlyph 'α' := by
  decide +kernel

end WorksheetTex
