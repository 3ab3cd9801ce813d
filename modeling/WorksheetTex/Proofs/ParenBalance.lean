import WorksheetTex.Proofs.Apart
import WorksheetTex.Proofs.Diagnosis
import WorksheetTex.Proofs.Layer
import WorksheetTex.Proofs.Sweep

namespace WorksheetTex

open Text Tex Paren Vocabulary Form Evaluation

theorem composes_balanced : Composes Balanced where
  assembles := by
    refine ⟨.append, fun {t} ht => balanced_flat fun c hc => ?_, fun {t} _ h => ?_, .enclose⟩
    · have hliteral := List.all_eq_true.mp ht c hc
      simp only [isLiteral, Bool.and_eq_true, Bool.not_eq_true'] at hliteral
      exact hliteral.2
    · have hopen : Balanced ['{'] := rfl
      have hclose : Balanced ['}'] := rfl
      exact hopen.append (h.append hclose)
  slots hs ht := (tallies_depthFrom.fillSlots (by decide) ht.depthFrom 0 _).trans hs

namespace Evaluation

structure TakesClosed (rule : Rule Text) : Prop extends AtForms rule where
  hit {n : Nat} {t p : Text} : rule [] t = some (n, p) →
    ∃ s r, t = s ++ r ∧ s ≠ [] ∧ n = s.length ∧ Balanced s ∧ Balanced p

section Rules

variable {lex : Lexicon}

theorem balanced_replaceGlyphs_flat {t : Text} (h : ∀ c ∈ t, isParen c = false) :
    Balanced (replaceGlyphs t) :=
  (depthFrom_replaceGlyphs 0 t).trans (balanced_flat h)

theorem balanced_items {items : List Text} {body : Text} (hbody : ∀ c ∈ body, isParen c = false)
    (hitems : ItemsOf body items) :
    ∀ w ∈ items.map replaceGlyphs, Balanced w := by
  intro v hv
  obtain ⟨w, hw, rfl⟩ := List.mem_map.mp hv
  refine balanced_replaceGlyphs_flat fun c hc => ?_
  rcases hitems.eq_nil_or_mem hw with rfl | hw
  · cases hc
  · refine hbody c (Decidable.not_not.mp fun hnot => ?_)
    exact (hereditary_not_mem c).words hnot w hw hc

theorem takesClosed_labelRule (hlex : lex.All Balanced) : TakesClosed (labelRule lex) where
  toAtForms := atForms_labelRule lex
  hit := by
    intro n t p h
    obtain ⟨rest, hscan, rfl⟩ := Scan.eq_of_rule h
    obtain ⟨b, kind, b', name, -, -, hflat, rfl, rfl⟩ := eq_of_labelScan hscan
    refine ⟨'(' :: ("@LABEL".toList ++ (b ++ kind ++ b' ++ name) ++ [')']), rest, by simp, by simp,
      by simp; omega, Balanced.enclose ?_, ?_⟩
    · exact Balanced.append rfl (balanced_flat hflat)
    · have hname : Balanced (replaceGlyphs name) :=
        balanced_replaceGlyphs_flat fun c hc => hflat c (by simp [hc])
      rw [labelPiece]
      cases LabelKind.ofName? kind with
      | none => exact hname
      | some kind =>
          exact hlex.label hname (composes_balanced.upright hname)
            (composes_balanced.operatorName hname) kind

theorem takesClosed_applyRule (hlex : lex.All Balanced) : TakesClosed (applyRule lex) where
  toAtForms := atForms_applyRule lex
  hit := by
    intro n t p h
    obtain ⟨rest, hscan, rfl⟩ := Scan.eq_of_rule h
    obtain ⟨b, name, b', c, body, items, -, -, -, ⟨hflat, hbody⟩, rfl, hitems, rfl⟩ :=
      eq_of_applyScan hscan
    refine ⟨'(' :: ("@APPLY".toList ++ (b ++ name ++ b') ++
      '(' :: ("@ARGS".toList ++ (c :: body) ++ [')']) ++ [')']), rest, by simp, by simp,
      by simp; omega, Balanced.enclose ?_, ?_⟩
    · exact Balanced.append (Balanced.append rfl (balanced_flat hflat))
        (Balanced.enclose (Balanced.append rfl (balanced_flat hbody)))
    · have hname : Balanced name := balanced_flat fun c hc => hflat c (by simp [hc])
      have hitems := balanced_items (fun x hx => hbody x (by simp [hx])) hitems
      exact composes_balanced.applyTemplate (hlex.function hname)
        (composes_balanced.joinWith rfl hitems)

theorem takesClosed_operatorRule : TakesClosed operatorRule where
  toAtForms := atForms_operatorRule
  hit := by
    intro n t p h
    obtain ⟨rest, hscan, rfl⟩ := Scan.eq_of_rule h
    obtain ⟨op, c, body, items, -, hbody, rfl, hitems, hp⟩ := eq_of_operatorScan hscan
    refine ⟨'(' :: (op.symbol :: (c :: body) ++ [')']), rest, by simp, by simp, by simp; omega,
      Balanced.enclose ?_, ?_⟩
    · refine balanced_flat fun x hx => ?_
      rcases List.mem_cons.mp hx with rfl | hx
      · exact not_isParen_of_isHead (isHead_symbol op)
      · exact hbody x hx
    · exact composes_balanced.render (balanced_items (fun x hx => hbody x (by simp [hx])) hitems) hp

end Rules

theorem TakesClosed.sweep {rule : Rule Text} (hrule : TakesClosed rule) {pieces : List Text}
    (hp : ∀ p ∈ pieces, Balanced p) (t : Text) :
    (∀ d, depthFrom d (sweep rule pieces t).1 = depthFrom d t) ∧
      ∀ p ∈ (sweep rule pieces t).2, Balanced p := by
  induction hn : t.length using Nat.strongRecOn generalizing t pieces with
  | ind n ih =>
      cases t with
      | nil => exact ⟨fun d => rfl, hp⟩
      | cons c t =>
          cases hhit : rule [] (c :: t) with
          | none =>
              obtain ⟨hdepth, hpieces⟩ := ih t.length (by simp at hn; omega) hp t rfl
              rw [sweep_keep hrule.toAtForms hhit]
              exact ⟨tallies_depthFrom.cons_congr hdepth c, hpieces⟩
          | some answer =>
              obtain ⟨k, p⟩ := answer
              obtain ⟨s, r, hsr, hs, rfl, hclosed, hpiece⟩ := hrule.hit hhit
              have hshort : r.length < n := by
                have := congrArg List.length hsr
                have := List.length_pos_iff.mpr hs
                rw [List.length_append] at *
                omega
              have hlonger : ∀ q ∈ pieces ++ [p], Balanced q := by
                intro q hq
                rcases List.mem_append.mp hq with hq | hq
                · exact hp q hq
                · exact List.mem_singleton.mp hq ▸ hpiece
              have hreference : ∀ x ∈ reference pieces.length, x ≠ '(' ∧ x ≠ ')' := by
                intro x hx
                constructor
                · rintro rfl
                  exact not_mem_reference isBreak_paren.1 _ hx
                · rintro rfl
                  exact not_mem_reference isBreak_paren.2 _ hx
              obtain ⟨hdepth, hpieces⟩ := ih r.length hshort hlonger r rfl
              rw [hsr] at hhit ⊢
              rw [sweep_hit hrule.toAtForms hs hhit]
              refine ⟨fun d => ?_, hpieces⟩
              rw [tallies_depthFrom.append_flat hreference, hdepth,
                tallies_depthFrom.append_closed hclosed.depthFrom]

structure State.Closed (s : State) : Prop where
  text : Balanced s.text
  pieces : ∀ p ∈ s.pieces, Balanced p

theorem State.Closed.apply {s : State} (hs : s.Closed) {rule : Rule Text}
    (hrule : TakesClosed rule) : (s.apply rule).Closed := by
  obtain ⟨hdepth, hpieces⟩ := hrule.sweep hs.pieces s.text
  exact ⟨(hdepth 0).trans hs.text, hpieces⟩

theorem closed_collapsed {lex : Lexicon} (hlex : lex.All Balanced) (e : Text) :
    (collapsed lex e).Closed := by
  refine collapsed_induct ⟨balanced_balance e, by simp⟩ (fun s hs => ?_) fun s hs =>
    ⟨balanced_balance _, hs.pieces⟩
  exact ((hs.apply (takesClosed_labelRule hlex)).apply (takesClosed_applyRule hlex)).apply
    takesClosed_operatorRule

theorem balanced_collapse {lex : Lexicon} (hlex : lex.All Balanced) {e u : Text}
    (h : collapse lex e = .ok u) : Balanced u := by
  have hclosed := closed_collapsed hlex e
  have hexpand := tallies_depthFrom.ends_expand isBreak_paren.1 isBreak_paren.2
    (fun p hp => (hclosed.pieces p hp).depthFrom) ((collapsed lex e).pieces.length + 1)
    (collapsed lex e).text
  obtain ⟨v, hv, h⟩ := exists_of_bind_ok h
  obtain rfl := Except.ok.inj h
  change expandAll (collapsed lex e).pieces (collapsed lex e).text = .ok v at hv
  rw [← expandAll, hv] at hexpand
  rw [Paren.Balanced, tallies_depthFrom.collapseBlanks (by decide), hexpand]
  exact hclosed.text

end Evaluation

namespace Layer

theorem read_trim (lex : Lexicon) (t : Text) : read lex (trim t) = read lex t := by
  rw [read, read, trim_trim]

variable {lex : Lexicon} (hlex : lex.All Balanced)

include hlex

theorem conveys_parted : Conveys lex Parted Balanced where
  composes := composes_balanced
  written h := h.balanced
  lexicon := hlex
  arguments h := h.arguments
  operands h := h.operands

theorem ends_read_parted {e : Text} (he : Parted e) :
    Ends (Layer.All Parted Balanced) (fun _ => True) (read lex e) := by
  have htrim := he.trimmed
  unfold read
  simp only [htrim]
  split
  · exact .ok rfl
  · split
    · next heval =>
        obtain ⟨op, hop⟩ := operator?_of_isEvaluation heval
        obtain ⟨r, rfl⟩ := exists_of_operator? hop
        have hoperands := he.operands
        obtain ⟨w, hw, rfl, hapart⟩ := he.exists_body (isHead_symbol op)
        rw [readEvaluation, hop]
        dsimp only
        split
        · refine .ok fun p hp => ?_
          rw [split_trim, List.drop_succ_cons, List.drop_succ_cons, List.drop_zero,
            List.dropLast_concat] at hp
          exact hapart.part hw hp
        · cases hcollapse : collapse lex ('(' :: op.symbol :: (w ++ [')'])) with
          | error x => trivial
          | ok u => exact .ite (.ok hoperands) (.ok (balanced_collapse hlex hcollapse))
    · split
      · next op hop =>
          obtain ⟨r, rfl⟩ := exists_of_operator? hop
          exact .ok he.operands
      · have hreplaced := he.replaceGlyphs
        refine ((conveys_parted hlex).read trivial trivial ?_ ?_ hreplaced.balanced).map
          fun _ hform => hform
        · intro r hr
          rw [hr] at hreplaced ⊢
          exact hreplaced.readEquality
        · intro r hr
          rw [hr] at hreplaced ⊢
          exact hreplaced.arguments

end Layer

namespace Setting

theorem typesetWithin_trim (s : Setting) (n : Nat) (t : Text) :
    s.typesetWithin n (trim t) = s.typesetWithin n t := by
  cases n with
  | zero => rfl
  | succ n => rw [typesetWithin, typesetWithin, Layer.read_trim]

theorem ends_typesetWithin_parted (s : Setting) (hlex : s.lexicon.All Balanced) (n : Nat)
    {t : Text} (ht : Parted t) : Ends Balanced (fun _ => True) (s.typesetWithin n t) :=
  s.ends_typesetWithin (I := fun _ => Parted) composes_balanced hlex
    (fun t h => (tallies_depthFrom.spaceCommands (by decide) 0 t).trans h) (fun _ _ => trivial)
    (fun _ _ ht => Layer.ends_read_parted hlex ht) ht

end Setting

theorem balanced_default : (Lexicon.ofDeclarations {}).All Balanced :=
  Lexicon.all_ofDeclarations (by decide +kernel) (by simp)

theorem typeset_parensMatch (o : Options) {t latex : Text} (ht : ParensMatch t)
    (hforms : SetApart (trim t))
    (h : typeset (.record
      { o with units := .missing, constants := .missing, functions := .missing }) t = .ok latex) :
    ParensMatch latex := by
  obtain ⟨u, hu, rfl⟩ := exists_of_typeset_default h
  have hparted : Parted (trim t) := ⟨hforms, (balanced_iff.mpr ht).trim, trim_trim t⟩
  have hends := Setting.ends_typesetWithin_parted ⟨.ofDeclarations {}, o.limit⟩ balanced_default
    o.limit.levels hparted
  rw [Setting.typesetWithin_trim] at hends
  rw [Setting.typeset] at hu
  rw [hu] at hends
  refine balanced_iff.mp ?_
  exact (tallies_depthFrom.spaceCommands (by decide) 0 u).trans hends

theorem typeset_parensMatch_nested :
    ∃ latex, typeset (.record {})
        " (= f(x) (/ (@LABEL VARIABLE α) g(+ y 1)))".toList = .ok latex ∧
      '(' ∈ latex ∧ ParensMatch latex := by
  have htypeset : typeset (.record {}) " (= f(x) (/ (@LABEL VARIABLE α) g(+ y 1)))".toList =
      .ok "f(x) = \\frac\x7b\\alpha\x7d\x7bg(+ y 1)\x7d".toList := by decide +kernel
  have hmatch : ParensMatch " (= f(x) (/ (@LABEL VARIABLE α) g(+ y 1)))".toList :=
    balanced_iff.mp (by decide)
  exact ⟨_, htypeset, by decide, typeset_parensMatch {} hmatch (by decide +kernel) htypeset⟩

theorem typeset_parens_broken :
    (typeset (.record {}) "(+ a b) (c)".toList = .ok "a + b) (c".toList ∧
        Balanced "(+ a b) (c)".toList ∧ ¬ Balanced "a + b) (c".toList) ∧
      (typeset (.record {}) "(+ a (* b c)d)".toList = .ok "a + b \\cdot c)d".toList ∧
        Balanced "(+ a (* b c)d)".toList ∧ ¬ Balanced "a + b \\cdot c)d".toList) ∧
      typeset (.record {}) "(= a (+ b c) d)".toList = .ok "a = b + c) d".toList ∧
        Balanced "(= a (+ b c) d)".toList ∧ ¬ Balanced "a = b + c) d".toList := by
  decide +kernel

end WorksheetTex
