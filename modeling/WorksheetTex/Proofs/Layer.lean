import WorksheetTex.Conversion
import WorksheetTex.Proofs.WholeForm
import WorksheetTex.Proofs.Hole
import WorksheetTex.Proofs.Typesetting

namespace WorksheetTex

open Text Tex Vocabulary Form Evaluation

namespace Layer

variable {α β : Type}

def All (I : α → Prop) (P : Text → Prop) : Layer α → Prop
  | .done t => P t
  | .arithmetic _ as => ∀ a ∈ as, I a
  | .tagged form => form.All I P

theorem ends_traverse {I : α → Prop} {Q : β → Prop} {P : Text → Prop} {fault : Fault → Prop}
    {f : α → Except Fault β} (hf : ∀ a, I a → Ends Q fault (f a)) {layer : Layer α}
    (h : layer.All I P) : Ends (Layer.All Q P) fault (layer.traverse f) := by
  cases layer with
  | done t => exact .pure h
  | arithmetic op as => exact (ends_traverseList hf h).bind fun _ hbs => .pure hbs
  | tagged form => exact (Form.ends_traverse hf h).bind fun _ hform => .pure hform

section Read

variable {lex : Lexicon} {I P : Text → Prop} (h : Inherits lex I P) {fault : Fault → Prop}

include h

theorem ends_readEvaluation {e : Text} {op : Operator} (hop : operator? e = some op)
    (hopen : ∀ c r, e = '(' :: c :: r → isHead c = true → I r)
    (hok : ∀ u, collapse lex e = .ok u → P u) (herror : ∀ x, collapse lex e = .error x → fault x) :
    Ends (Layer.All I P) fault (readEvaluation lex e) := by
  obtain ⟨r, rfl⟩ := exists_of_operator? hop
  have hr : I r := hopen _ r rfl (isHead_symbol op)
  rw [readEvaluation, hop]
  dsimp only
  split
  · next hwhole =>
      rw [Bool.and_eq_true] at hwhole
      obtain ⟨body, hbody⟩ := exists_body hop hwhole.1
      obtain rfl : r = body ++ [')'] := (List.cons.inj (List.cons.inj hbody).2).2
      have hdrop : (('(' :: op.symbol :: (body ++ [')'])).drop 2).dropLast = body := by simp
      rw [hdrop]
      refine .ok (h.hereditary.split (h.hereditary.trim ?_))
      exact (h.hereditary.cut (seam_of_head (by simp [not_isAtomic_parens.2])) hr).1
  · cases hcollapse : collapse lex ('(' :: op.symbol :: r) with
    | error x => exact herror x hcollapse
    | ok u => exact .ite (.ok (h.hereditary.operands hr)) (.ok (hok u hcollapse))

theorem ends_read (hlong : fault .textTooLong) (hinfinite : fault .countInfinite) {t : Text}
    (hopen : ∀ c r, trim t = '(' :: c :: r → isHead c = true → I r)
    (htagged : ∀ c r, replaceGlyphs (trim t) = '(' :: c :: r → isHead c = true → I r)
    (hplain : P (replaceGlyphs (trim t)))
    (hok : ∀ u, collapse lex (trim t) = .ok u → P u)
    (herror : ∀ x, collapse lex (trim t) = .error x → fault x) :
    Ends (Layer.All I P) fault (read lex t) := by
  unfold read
  simp only
  split
  · exact .ok (h.composes.literal rfl)
  · split
    · next heval =>
        obtain ⟨op, hop⟩ := operator?_of_isEvaluation heval
        exact ends_readEvaluation h hop hopen hok herror
    · split
      · next op hop =>
          obtain ⟨r, hr⟩ := exists_of_operator? hop
          rw [hr]
          exact .ok (h.hereditary.operands (hopen _ r hr (isHead_symbol op)))
      · exact (h.read hlong hinfinite htagged hplain).map fun _ hform => hform

end Read

theorem read_cases {lex : Lexicon} {t : Text} {layer : Layer Text} (h : read lex t = .ok layer) :
    layer = .done [] ∨ (∃ op as, layer = .arithmetic op as) ∨
      (∃ u, isEvaluation (trim t) = true ∧ collapse lex (trim t) = .ok u ∧ layer = .done u) ∨
      ∃ form, Form.read lex (replaceGlyphs (trim t)) = .ok form ∧ layer = .tagged form := by
  unfold read at h
  simp only at h
  split at h
  · exact .inl (Except.ok.inj h).symm
  · split at h
    · next heval =>
        obtain ⟨op, hop⟩ := operator?_of_isEvaluation heval
        rw [readEvaluation, hop] at h
        dsimp only at h
        split at h
        · exact .inr (.inl ⟨op, _, (Except.ok.inj h).symm⟩)
        · obtain ⟨u, hu, h⟩ := exists_of_bind_ok h
          split at h
          · exact .inr (.inl ⟨op, _, (Except.ok.inj h).symm⟩)
          · exact .inr (.inr (.inl ⟨u, heval, hu, (Except.ok.inj h).symm⟩))
    · split at h
      · next op _ => exact .inr (.inl ⟨op, _, (Except.ok.inj h).symm⟩)
      · cases hform : Form.read lex (replaceGlyphs (trim t)) with
        | error x =>
            rw [hform] at h
            cases h
        | ok form =>
            rw [hform] at h
            exact .inr (.inr (.inr ⟨form, rfl, (Except.ok.inj h).symm⟩))

theorem layout_all {lex : Lexicon} {P : Text → Prop} (hP : Composes P) (hlex : lex.All P)
    (hspace : ∀ t, P t → P (spaceCommands t)) {layer : Layer Text} (h : layer.All P P) :
    P (layer.layout lex) := by
  cases layer with
  | done t => exact h
  | arithmetic op ts => exact hP.render_getD h
  | tagged form => exact hspace _ (Form.layout_all hP hlex h)

end Layer

namespace Setting

theorem ends_typesetWithin (s : Setting) {I : Nat → Text → Prop} {P : Text → Prop}
    {fault : Fault → Prop} (hP : Composes P) (hlex : s.lexicon.All P)
    (hspace : ∀ t, P t → P (spaceCommands t))
    (zero : ∀ t, I 0 t → fault (.tooDeep s.limit))
    (step : ∀ n t, I (n + 1) t → Ends (Layer.All (I n) P) fault (Layer.read s.lexicon t))
    {n : Nat} {t : Text} (ht : I n t) : Ends P fault (s.typesetWithin n t) := by
  induction n generalizing t with
  | zero => exact zero t ht
  | succ n ih =>
      refine (step n t ht).bind fun layer hlayer => ?_
      refine (Layer.ends_traverse (fun a ha => ih ha) hlayer).bind fun filled hfilled => ?_
      exact .pure (Layer.layout_all hP hlex hspace hfilled)

theorem exists_of_report {s : Setting} {strict : Bool} {t : Text} {r : Report}
    (h : s.report strict t = .ok r) : ∃ u, s.typeset t = .ok u ∧ r.latex = spaceCommands u := by
  obtain ⟨u, hu, h⟩ := exists_of_bind_ok h
  refine ⟨u, hu, ?_⟩
  cases hcause : Paren.imbalance? t with
  | none =>
      rw [hcause] at h
      obtain rfl := Except.ok.inj h
      rfl
  | some cause =>
      rw [hcause] at h
      cases strict with
      | true => cases h
      | false =>
          obtain rfl := Except.ok.inj h
          rfl

end Setting

theorem exists_of_typeset_default {o : Options} {t latex : Text}
    (h : typeset (.record
      { o with units := .missing, constants := .missing, functions := .missing }) t = .ok latex) :
    ∃ u, Setting.typeset ⟨.ofDeclarations {}, o.limit⟩ t = .ok u ∧ latex = spaceCommands u := by
  replace h : (Setting.report ⟨.ofDeclarations {}, o.limit⟩ o.isStrict t).map (·.latex) =
    .ok latex := h
  cases hreport : Setting.report ⟨.ofDeclarations {}, o.limit⟩ o.isStrict t with
  | error x =>
      rw [hreport] at h
      cases h
  | ok r =>
      rw [hreport] at h
      obtain rfl := Except.ok.inj h
      exact Setting.exists_of_report hreport

end WorksheetTex
