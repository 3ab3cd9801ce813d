import WorksheetTex.Proofs.Rounds
import WorksheetTex.Proofs.ParenBalance
import WorksheetTex.Proofs.Shrinking
import WorksheetTex.Session

namespace WorksheetTex

open Text Paren Vocabulary Form Evaluation

namespace Evaluation

section Marks

variable {m : Char} (hm : m = openMark ∨ m = closeMark)

include hm

theorem not_mem_fill {vs : List Text} {k : Nat} {t : Text} (hvs : ∀ v ∈ vs, m ∉ v)
    (ht : Sealed m k t) : m ∉ fill vs t := by
  induction ht with
  | nil => simp [fill, segments, segmentsFrom]
  | @keep c t hc ht ih =>
      rw [fill_keep hm hc ht]
      simpa using ⟨Ne.symm hc, ih⟩
  | @reference n t _ _ ih =>
      rw [fill_reference, List.mem_append, not_or]
      refine ⟨fun hmem => ?_, ih⟩
      cases hv : vs[n]? with
      | none => simp [hv] at hmem
      | some v => exact hvs v (List.mem_of_getElem? hv) (by simpa [hv] using hmem)

theorem not_mem_values {pieces : List Text} (h : Ordered m pieces) :
    ∀ v ∈ values pieces, m ∉ v := by
  induction pieces using List.reverseRecOn with
  | nil => simp [values]
  | append_singleton ps p ih =>
      obtain ⟨hps, hp⟩ := h.of_concat
      rw [values_concat]
      intro v hv
      rcases List.mem_append.mp hv with hv | hv
      · exact ih hps v hv
      · rw [List.mem_singleton.mp hv]
        exact not_mem_fill hm (ih hps) hp

theorem not_mem_collapse {lex : Lexicon} (hlex : Avoids lex m) {e u : Text} (he : m ∉ e)
    (h : collapse lex e = .ok u) : m ∉ u := by
  have hblank : isBlank m = false := by rcases hm with rfl | rfl <;> decide
  have hvalid := valid_collapsed hm hlex he
  rw [collapse_eq_fill hm hlex he] at h
  rw [← Except.ok.inj h, mem_collapseBlanks_iff hblank]
  exact not_mem_fill hm (not_mem_values hm hvalid.ordered) hvalid.text

end Marks

end Evaluation

namespace Form

theorem readConstant_of_not_mem (lex : Lexicon) {t : Text} (h : '(' ∉ t) :
    readConstant lex t = .plain (lex.label .constant t) := by
  have hplain : startsWith t "(@ID" = false := by
    refine Bool.eq_false_iff.mpr fun hstart => h ?_
    obtain ⟨r, hr⟩ := List.isPrefixOf_iff_prefix.mp hstart
    exact hr ▸ List.mem_cons_self
  rw [readConstant, Lexicon.label]
  cases lex.constants.find? t with
  | none =>
      dsimp only
      rw [hplain]
      rfl
  | some known => rfl

theorem readLabel_of_not_mem (lex : Lexicon) (kind : Text) {t : Text} (h : '(' ∉ t) :
    readLabel lex kind t = (LabelKind.ofName? kind).map fun k => .plain (lex.label k t) := by
  rw [readLabel]
  cases LabelKind.ofName? kind with
  | none => rfl
  | some k =>
      cases k with
      | constant => exact congrArg some (readConstant_of_not_mem lex h)
      | _ => rfl

end Form

namespace Session

theorem answer_label (s : Session) (kind : Text) {name : Text} (h : '(' ∉ name) :
    s.answer (.label kind name) =
      (.ok ((LabelKind.ofName? kind).map (s.setting.lexicon.label · name)), s) := by
  rw [answer, Counted.answer, readLabel_of_not_mem _ _ h]
  cases LabelKind.ofName? kind <;> rfl

theorem answer_collapse (s : Session) (e : Text) :
    s.answer (.collapse e) = (some <$> collapse s.setting.lexicon e, s) := by
  rw [answer, Counted.answer]
  cases collapse s.setting.lexicon e <;> rfl

end Session

namespace Evaluation

theorem collapse_default_ok {e : Text} (hopen : openMark ∉ e) (hclose : closeMark ∉ e) :
    ∃ u, collapse (.ofDeclarations {}) e = .ok u ∧ ParensMatch u ∧ openMark ∉ u ∧
      closeMark ∉ u := by
  have hcollapse := collapse_eq_fill (.inl rfl) (avoids_default (.inl rfl)) hopen
  exact ⟨_, hcollapse, balanced_iff.mp (balanced_collapse balanced_default hcollapse),
    not_mem_collapse (.inl rfl) (avoids_default (.inl rfl)) hopen hcollapse,
    not_mem_collapse (.inr rfl) (avoids_default (.inr rfl)) hclose hcollapse⟩

theorem not_mem_open_replaceGlyphs {t : Text} (h : '(' ∉ t) : '(' ∉ replaceGlyphs t := by
  rw [← List.count_eq_zero, count_replaceGlyphs]
  exact List.count_eq_zero.mpr h

theorem collapse_total :
    (∀ (lex : Lexicon) (s : State), (s.round lex).text ≠ s.text →
        (s.round lex).text.count '(' < s.text.count '(') ∧
      (∀ (lex : Lexicon) (s s' : State), State.Settles lex s s' ↔ s' = s.settle lex) ∧
      (∀ (s : Session) (kind name : Text), '(' ∉ name →
        ∃ o, s.answer (.label kind (replaceGlyphs name)) = (.ok o, s) ∧
          labelPiece s.setting.lexicon kind name = o.getD (replaceGlyphs name)) ∧
      ∀ (limit : Limit) (depth : Nat) (e : Text), openMark ∉ e → closeMark ∉ e →
        ∃ u, Session.answer ⟨⟨.ofDeclarations {}, limit⟩, depth⟩ (.collapse e) =
            (.ok (some u), ⟨⟨.ofDeclarations {}, limit⟩, depth⟩) ∧
          ParensMatch u ∧ openMark ∉ u ∧ closeMark ∉ u := by
  refine ⟨fun lex s => (State.descends_round lex s).count_lt, fun _ _ _ => State.settles_iff,
    fun s kind name h => ?_, fun limit depth e hopen hclose => ?_⟩
  · exact ⟨_, s.answer_label kind (not_mem_open_replaceGlyphs h), rfl⟩
  · obtain ⟨u, hu, hresult⟩ := collapse_default_ok hopen hclose
    refine ⟨u, ?_, hresult⟩
    rw [Session.answer_collapse, hu]
    rfl

theorem collapse_total_clipped :
    (State.round (.ofDeclarations {}) ⟨"(+ a (* b c))".toList, []⟩).text.count '(' < 2 ∧
      (∃ o, Session.answer ⟨⟨.ofDeclarations {}, .unset⟩, 0⟩ (.label "constant" "\\mu_0") =
        (.ok o, ⟨⟨.ofDeclarations {}, .unset⟩, 0⟩)) ∧
      ∃ u, Session.answer ⟨⟨.ofDeclarations {}, .unset⟩, 0⟩
          (.collapse "(+ (@LABEL CONSTANT g)) (@APPLY ## (@ARGS (@FOO x") =
            (.ok (some u), ⟨⟨.ofDeclarations {}, .unset⟩, 0⟩) ∧ ParensMatch u := by
  obtain ⟨hround, -, hlabel, hcollapse⟩ := collapse_total
  obtain ⟨o, ho, -⟩ := hlabel ⟨⟨.ofDeclarations {}, .unset⟩, 0⟩ "constant" "μ_0" (by decide)
  obtain ⟨u, hu, hmatch, -⟩ :=
    hcollapse .unset 0 "(+ (@LABEL CONSTANT g)) (@APPLY ## (@ARGS (@FOO x" (by decide) (by decide)
  exact ⟨hround _ _ (by decide +kernel), ⟨o, ho⟩, u, hu, hmatch⟩

end Evaluation

namespace Layer

def IsStructural (e : Text) : Prop :=
  isWhole e = true ∧ 2 ≤ (spacedOperands e).length

instance (e : Text) : Decidable (IsStructural e) :=
  inferInstanceAs (Decidable (_ ∧ _))

theorem IsStructural.accepts {e : Text} (h : IsStructural e) (op : Operator) :
    op.accepts (spacedOperands e).length = true := by
  have htwo := h.2
  cases op <;> simp [Operator.accepts] <;> omega

theorem readEvaluation_default {e : Text} (he : isEvaluation e = true) (hslot : '#' ∉ e)
    (hmark : openMark ∉ e) :
    ∃ op u, operator? e = some op ∧ collapse (.ofDeclarations {}) e = .ok u ∧ u ≠ e ∧
      readEvaluation (.ofDeclarations {}) e =
        .ok (if IsStructural e then .arithmetic op (spacedOperands e) else .done u) := by
  obtain ⟨op, hop⟩ := operator?_of_isEvaluation he
  obtain ⟨u, hu⟩ : ∃ u, collapse (.ofDeclarations {}) e = .ok u :=
    ⟨_, collapse_eq_fill (.inl rfl) (avoids_default (.inl rfl)) hmark⟩
  have htag : occursIn "(@LABEL" e = true ∨ occursIn "(@APPLY" e = true := by
    rw [isEvaluation, Bool.and_eq_true, Bool.or_eq_true] at he
    exact he.2
  have hne : u ≠ e := by
    rintro rfl
    exact Nat.lt_irrefl _ (count_collapse_lt isSlim_default hmark hslot htag hu)
  refine ⟨op, u, hop, hu, hne, ?_⟩
  rw [readEvaluation_of_operator? _ hop, hu, Except.map, if_neg hne]
  exact (apply_ite Except.ok _ _ _).symm

end Layer

theorem Setting.evaluate_rebuilds (limit : Limit) {e : Text} (he : Layer.isEvaluation e = true)
    (hslot : '#' ∉ e) (hmark : openMark ∉ e) :
    ∃ op u, operator? e = some op ∧ collapse (.ofDeclarations {}) e = .ok u ∧ u ≠ e ∧
      (Layer.IsStructural e → op.accepts (Layer.spacedOperands e).length = true) ∧
      Setting.evaluate ⟨.ofDeclarations {}, limit⟩ e =
        (if Layer.IsStructural e then
          Setting.finish ⟨.ofDeclarations {}, limit⟩ (.arithmetic op (Layer.spacedOperands e))
        else .ok u) ∧
      ∀ t, trim t = e → Layer.read (.ofDeclarations {}) t =
        .ok (if Layer.IsStructural e then .arithmetic op (Layer.spacedOperands e)
          else .done u) := by
  obtain ⟨op, u, hop, hu, hne, hread⟩ := Layer.readEvaluation_default he hslot hmark
  refine ⟨op, u, hop, hu, hne, fun h => h.accepts op, ?_, fun t ht => ?_⟩
  · rw [Setting.evaluate, hread]
    split
    · rfl
    · rfl
  · have hempty : e.isEmpty = false := by
      obtain ⟨r, rfl⟩ := exists_of_operator? hop
      rfl
    rw [Layer.read]
    simp only [ht, hempty, he]
    exact hread

theorem Setting.evaluate_rebuilds_clipped :
    ∃ u, Setting.evaluate ⟨.ofDeclarations {}, .unset⟩
        "(/ (@APPLY sin (@ARGS x)) (@LABEL UNIT s".toList = .ok u ∧
      u ≠ "(/ (@APPLY sin (@ARGS x)) (@LABEL UNIT s".toList := by
  obtain ⟨op, u, -, -, hne, -, heval, -⟩ := Setting.evaluate_rebuilds .unset
    (e := "(/ (@APPLY sin (@ARGS x)) (@LABEL UNIT s".toList) (by decide) (by decide) (by decide)
  rw [if_neg (by decide)] at heval
  exact ⟨u, heval, hne⟩

end WorksheetTex
