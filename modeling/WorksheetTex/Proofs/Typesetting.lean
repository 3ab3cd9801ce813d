import WorksheetTex.Proofs.Reading

namespace WorksheetTex

open Text Tex Paren Vocabulary Form Evaluation

namespace Layer

variable {lex : Lexicon} {x : Text}

theorem exists_of_isEvaluation (h : isEvaluation x = true) :
    ∃ (op : Operator) (r : Text), op ≠ .power ∧ x = '(' :: op.symbol :: r := by
  have hany : ["(/", "(*", "(+", "(-"].any (fun w : String => w.toList.isPrefixOf x) = true := by
    rw [isEvaluation, Bool.and_eq_true] at h
    exact h.1
  obtain ⟨w, hw, hp⟩ := List.any_eq_true.mp hany
  obtain ⟨r, rfl⟩ := List.isPrefixOf_iff_prefix.mp hp
  simp only [List.mem_cons, List.not_mem_nil, or_false] at hw
  rcases hw with rfl | rfl | rfl | rfl
  · exact ⟨.divide, r, by decide, rfl⟩
  · exact ⟨.times, r, by decide, rfl⟩
  · exact ⟨.plus, r, by decide, rfl⟩
  · exact ⟨.minus, r, by decide, rfl⟩

theorem operator?_of_isEvaluation (h : isEvaluation x = true) : ∃ op, operator? x = some op := by
  obtain ⟨op, r, _, rfl⟩ := exists_of_isEvaluation h
  exact ⟨op, Operator.ofChar?_symbol op⟩

theorem read_of_operator?_none (hne : x ≠ []) (htrim : trim x = x) (hop : operator? x = none) :
    Layer.read lex x = (Form.read lex (replaceGlyphs x)).map .tagged := by
  have heval : isEvaluation x = false := by
    refine Bool.eq_false_iff.mpr fun h => ?_
    obtain ⟨op, hsome⟩ := operator?_of_isEvaluation h
    rw [hop] at hsome
    cases hsome
  simp [Layer.read, htrim, hne, heval, hop]

theorem split_of_spelled {op : Operator} {es : List Sexp}
    (h : Sexp.Spelled Sexp.Variant ((Shape.operation op).sexp es) x) :
    operator? x = some op ∧ isWhole x = true ∧
      split .atGaps (trim ((x.drop 2).dropLast)) = operands x := by
  cases h with
  | @form _ _ ts body hitems hspread =>
      have hi := Sexp.items_of_spelled hitems
      have hsymbol : Balanced [op.symbol] := by cases op <;> rfl
      have hwhole := isWhole_enclose (hsymbol.append (hspread.balanced hi))
      have hdrop : (('(' :: op.symbol :: (body ++ [')'])).drop 2).dropLast = body := by simp
      refine ⟨Operator.ofChar?_symbol op, hwhole, ?_⟩
      change split .atGaps (trim (('(' :: op.symbol :: (body ++ [')'])).drop 2).dropLast) =
        operands ('(' :: ([op.symbol] ++ (body ++ [')'])))
      rw [hdrop, split_trim, hspread.split _ hi, hspread.operands hi]

theorem read_operation (lex : Lexicon) {op : Operator} {es : List Sexp} (hlen : 2 ≤ es.length)
    (h : Sexp.Spelled Sexp.Variant ((Shape.operation op).sexp es) x) :
    Layer.read lex x = .ok (.arithmetic op (operands x)) := by
  have hne : x.isEmpty = false := by simpa using h.item.ne_nil
  have htrim := h.item.trim
  obtain ⟨hop, hwhole, hsplit⟩ := split_of_spelled h
  obtain ⟨ts, hts, hspelled⟩ := operands_of_spelled (fun _ _ h => h) h
  have htwo : 2 ≤ (operands x).length := hts ▸ hspelled.length_eq ▸ hlen
  cases heval : isEvaluation x with
  | true => simp [Layer.read, htrim, hne, heval, readEvaluation, hop, hwhole, hsplit, htwo]
  | false => simp [Layer.read, htrim, hne, heval, hop]

theorem traverse_operands {f : Text → Except Fault Text} {spells : Atom → Text → Prop}
    {set : Tree → Text} {op : Operator} {children : List Tree}
    (hspells : ∀ a t, spells a t → Sexp.Variant a t) (hf : SetsAll f set spells children)
    (h : Sexp.Spelled spells ((Shape.operation op).sexp (children.map Tree.sexp)) x) :
    (Layer.arithmetic op (operands x)).traverse f = .ok (.arithmetic op (children.map set)) := by
  obtain ⟨ts, hts, hspelled⟩ := operands_of_spelled hspells h
  rw [hts, Layer.traverse, traverseList_ok (hf.forall₂ hspelled)]
  rfl

end Layer

namespace Reads

variable {f : Text → Except Fault Text} {lex : Lexicon} {y : Text} {children : List Tree}

theorem plain {c : Char} (hc : c ≠ '(') (r : Text) : Reads f lex (c :: r) (c :: r) := by
  refine ⟨.plain (c :: r), .plain (c :: r), ?_, rfl, rfl⟩
  have htag : tag? (c :: r) = none := by
    unfold tag? tagName?
    split <;> simp_all
  rw [Form.read, htag]

theorem atom (a : Atom) : Reads f lex a.text a.text := by
  obtain ⟨c, r, hc, hp⟩ := a.exists_cons
  rw [hc]
  exact plain hp r

theorem node {shape : Shape} (hadmits : shape.Admits children)
    (hshape : ∀ op, shape ≠ .operation op)
    (hf : SetsAll f (Tree.latex lex) Sexp.Replaced children)
    (hin : ∀ t ∈ children, ∀ op ts, t = .node (.operation op) ts →
      SetsAll f (Tree.latex lex) Sexp.Replaced ts ∧ 2 ≤ ts.length)
    (h : Sexp.Spelled Sexp.Replaced (shape.sexp (children.map Tree.sexp)) y) :
    Reads f lex y (shape.template lex (children.map (Tree.latex lex))) := by
  cases shape with
  | operation op => exact absurd rfl (hshape op)
  | integral =>
      match children, hadmits with
      | [_, _, _, _], _ => exact integral hf h
  | derivative ordered =>
      cases ordered with
      | false =>
          match children, hadmits with
          | [_, _], _ => exact derivative_unordered hf h
      | true =>
          match children, hadmits with
          | [_, _, _], hn => exact derivative_ordered hn hf h
  | root ordered =>
      cases ordered with
      | false =>
          match children, hadmits with
          | [_], _ => exact root_unordered hf h
      | true =>
          match children, hadmits with
          | [_, _], hn => exact root_ordered hn hf h
  | series s start =>
      cases start with
      | related =>
          match children, hadmits with
          | [_, _, _, _], _ => exact series_related hf h
      | given =>
          match children, hadmits with
          | [_, _, _, _], hi => exact series_given hi hf h
      | silent =>
          match children, hadmits with
          | [_, _, _], hi => exact series_silent hi hf h
  | application g => exact application hf h
  | relation r =>
      match children, hadmits with
      | [_, _], _ => exact relation hf h
  | connective c =>
      match children, hadmits with
      | _ :: _ :: _, _ => exact connective hf h
  | negation =>
      match children, hadmits with
      | [_], _ => exact negation hf h
  | opposite =>
      match children, hadmits with
      | [_], _ => exact opposite hf h
  | parens =>
      match children, hadmits with
      | [_], _ => exact parens hf h
  | matrix r c => exact matrix hadmits.1 hadmits.2 hf h
  | equation =>
      match children, hadmits with
      | [_, b], _ => exact equation hf (hin b (by simp)) h
  | equality =>
      match children, hadmits with
      | [_, _], _ => exact equality hf h

end Reads

namespace Setting

variable {s : Setting} {n : Nat} {x : Text}

theorem typesetWithin_of_reads {layout : Text} (hne : x ≠ []) (htrim : trim x = x)
    (hop : operator? x = none)
    (h : Reads (s.typesetWithin n) s.lexicon (replaceGlyphs x) layout) :
    s.typesetWithin (n + 1) x = .ok (spaceCommands layout) := by
  obtain ⟨form, filled, hread, hfill, rfl⟩ := h
  have hlayer : (Layer.tagged form).traverse (s.typesetWithin n) = .ok (.tagged filled) := by
    rw [Layer.traverse, hfill]
    rfl
  rw [typesetWithin, Layer.read_of_operator?_none hne htrim hop, hread]
  change ((Layer.tagged form).traverse (s.typesetWithin n) >>= _) = _
  rw [hlayer]
  rfl

theorem typesetWithin_operation {op : Operator} {children : List Tree} (hlen : 2 ≤ children.length)
    (hf : SetsAll (s.typesetWithin n) (Tree.latex s.lexicon) Sexp.Variant children)
    (h : Sexp.Spelled Sexp.Variant ((Shape.operation op).sexp (children.map Tree.sexp)) x) :
    s.typesetWithin (n + 1) x =
      .ok ((Shape.operation op).latex s.lexicon (children.map (Tree.latex s.lexicon))) := by
  rw [typesetWithin, Layer.read_operation s.lexicon (by rwa [List.length_map]) h, ok_bind,
    Layer.traverse_operands (fun _ _ h => h) hf h]
  rfl

theorem typesetWithin_tree (t : Tree) (ht : t.WellFormed) (hn : t.height ≤ n)
    (h : Sexp.Spelled Sexp.Variant t.sexp x) :
    s.typesetWithin n x = .ok (t.latex s.lexicon) := by
  induction n generalizing t x with
  | zero => cases t <;> simp [Tree.height, Tree.fold] at hn
  | succ n ih =>
      have hop := operator?_of_spelled h
      cases ht with
      | atom a =>
          cases h with
          | atom ha =>
              obtain ⟨b, rfl⟩ := ha.exists_atom
              have hb : replaceGlyphs b.text = a.replaced.text := by
                rcases ha with ha | ha <;> simp [ha, Atom.replaced]
              refine typesetWithin_of_reads b.ne_nil (Item.atom b).trim hop ?_
              rw [hb]
              exact Reads.atom a.replaced
      | label kind name =>
          have hf :
              SetsAll (s.typesetWithin n) (Tree.latex s.lexicon) Sexp.Replaced [.atom name] := by
            intro t ht x hx
            obtain rfl := List.mem_singleton.mp ht
            exact ih _ (.atom name) (by simp [Tree.height, Tree.fold] at hn ⊢; omega) hx.variant
          exact typesetWithin_of_reads h.item.ne_nil h.item.trim hop (Reads.label hf h.replaced)
      | @node shape children hadmits hchildren =>
          have hlevel (u : Tree) (hu : u ∈ children) : u.height ≤ n := by
            have := Tree.height_lt_of_mem shape hu
            omega
          have hf : SetsAll (s.typesetWithin n) (Tree.latex s.lexicon) Sexp.Variant children :=
            fun u hu x hx => ih u (hchildren u hu) (hlevel u hu) hx
          rw [Tree.sexp_node] at h
          rw [Tree.latex_node]
          rcases Classical.em (∃ op, shape = .operation op) with ⟨op, rfl⟩ | hshape
          · exact typesetWithin_operation hadmits hf h
          · replace hshape : ∀ op, shape ≠ .operation op := not_exists.mp hshape
            have hin (u : Tree) (hu : u ∈ children) (op : Operator) (ts : List Tree)
                (hts : u = .node (.operation op) ts) :
                SetsAll (s.typesetWithin n) (Tree.latex s.lexicon) Sexp.Replaced ts ∧
                  2 ≤ ts.length := by
              subst hts
              cases hchildren _ hu with
              | node hlen hts =>
                  refine ⟨fun v hv x hx => ih v (hts v hv) ?_ hx.variant, hlen⟩
                  have := Tree.height_lt_of_mem (.operation op) hv
                  have := hlevel _ hu
                  omega
            have hreads := Reads.node hadmits hshape (fun u hu x hx => hf u hu x hx.variant) hin
              h.replaced
            have hlatex : shape.latex s.lexicon (children.map (Tree.latex s.lexicon)) =
                spaceCommands (shape.template s.lexicon (children.map (Tree.latex s.lexicon))) := by
              cases shape with
              | operation op => exact absurd rfl (hshape op)
              | _ => rfl
            have hnone : operator? x = none := by
              rw [hop]
              cases shape with
              | operation op => exact absurd rfl (hshape op)
              | _ => rfl
            rw [hlatex]
            exact typesetWithin_of_reads h.item.ne_nil h.item.trim hnone hreads

theorem typeset_written (s : Setting) (t : Tree) (ht : t.WellFormed)
    (hn : t.height ≤ s.limit.levels) {x : Text} (hx : t.sexp.Written x) :
    s.typeset x = .ok (t.latex s.lexicon) :=
  typesetWithin_tree t ht hn hx.spelled

theorem typeset_written_root :
    Setting.typeset ⟨.ofDeclarations {}, .ofNat 3⟩ "(@NTHROOT\t3  (+ α \n x))" =
      .ok "\\sqrt[3]\x7b\\alpha + x\x7d".toList := by
  let three : Atom := .ofText "3" rfl
  let alpha : Atom := .ofText "α" rfl
  let x : Atom := .ofText "x" rfl
  let sum : Tree := .node (.operation .plus) [.atom alpha, .atom x]
  have hsum : sum.WellFormed := .node (Nat.le_refl 2) (by simp [Tree.WellFormed.atom])
  have hroot : (Tree.node (.root true) [.atom three, sum]).WellFormed :=
    .node (fun h => absurd (Tree.atom.inj h) (by decide)) (by simp [Tree.WellFormed.atom, hsum])
  have hx : sum.sexp.Written "(+ α \n x)" :=
    @Sexp.Spelled.form _ _ _ ["α", "x"] " α \n x" (.cons (.atom rfl) (.cons (.atom rfl) .nil))
      (@Spread.cons " " "α" " \n x" _ (by decide) (@Spread.cons " \n " "x" [] _ (by decide) .nil))
  have hy : (Tree.node (.root true) [.atom three, sum]).sexp.Written "(@NTHROOT\t3  (+ α \n x))" :=
    @Sexp.Spelled.form _ _ _ ["3", "(+ α \n x)"] "\t3  (+ α \n x)"
      (.cons (.atom rfl) (.cons hx .nil))
      (@Spread.cons "\t" "3" "  (+ α \n x)" _ (by decide)
        (@Spread.cons "  " "(+ α \n x)" [] _ (by decide) .nil))
  have hlatex : (Tree.node (.root true) [.atom three, sum]).latex (.ofDeclarations {}) =
      "\\sqrt[3]\x7b\\alpha + x\x7d".toList := by
    decide +kernel
  rw [typeset_written ⟨.ofDeclarations {}, .ofNat 3⟩ _ hroot (by decide) hy, hlatex]

end Setting

end WorksheetTex
