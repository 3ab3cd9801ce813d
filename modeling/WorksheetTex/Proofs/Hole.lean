import WorksheetTex.Proofs.Assembly
import WorksheetTex.Proofs.Lexicon
import WorksheetTex.Proofs.Seam
import WorksheetTex.Typesetting

namespace WorksheetTex

open Text Tex Vocabulary Form

variable {α β : Type}

def Ends (post : α → Prop) (fault : Fault → Prop) : Except Fault α → Prop
  | .ok a => post a
  | .error x => fault x

abbrev FailsOnly (fault : Fault → Prop) : Except Fault α → Prop :=
  Ends (fun _ => True) fault

namespace Ends

variable {post : α → Prop} {post' : β → Prop} {fault : Fault → Prop} {x : Except Fault α}

theorem ok {a : α} (h : post a) : Ends post fault (.ok a) := h

theorem pure {a : α} (h : post a) : Ends post fault (pure a) := h

theorem bind {g : α → Except Fault β} (h : Ends post fault x)
    (hg : ∀ a, post a → Ends post' fault (g a)) : Ends post' fault (x >>= g) := by
  cases x with
  | ok a => exact hg a h
  | error y => exact h

theorem map {g : α → β} (h : Ends post fault x) (hg : ∀ a, post a → post' (g a)) :
    Ends post' fault (x.map g) := by
  cases x with
  | ok a => exact hg a h
  | error y => exact h

theorem ite {y : Except Fault α} {P : Prop} [Decidable P] (hx : Ends post fault x)
    (hy : Ends post fault y) : Ends post fault (if P then x else y) := by
  split
  · exact hx
  · exact hy

theorem mono {post' : α → Prop} (h : Ends post fault x) (hp : ∀ a, post a → post' a) :
    Ends post' fault x := by
  cases x with
  | ok a => exact hp a h
  | error y => exact h

theorem mapM {f : β → Except Fault α} {bs : List β} (h : ∀ b ∈ bs, Ends post fault (f b)) :
    Ends (fun as => ∀ a ∈ as, post a) fault (bs.mapM f) := by
  induction bs with
  | nil => exact .pure (by simp)
  | cons b bs ih =>
      rw [List.mapM_cons]
      refine (h b (by simp)).bind fun a ha => ?_
      refine (ih fun c hc => h c (by simp [hc])).bind fun as has => ?_
      exact .pure (List.forall_mem_cons.mpr ⟨ha, has⟩)

end Ends

theorem exists_of_bind_ok {x : Except Fault α} {g : α → Except Fault β} {b : β}
    (h : x >>= g = .ok b) : ∃ a, x = .ok a ∧ g a = .ok b := by
  cases x with
  | ok a => exact ⟨a, rfl, h⟩
  | error y => cases h

namespace Form

def UnitExpr.All (I : α → Prop) (P : Text → Prop) : UnitExpr α → Prop
  | .written t => P t
  | .embedded a => I a
  | .quotient u v => u.All I P ∧ v.All I P
  | .power u a => u.All I P ∧ I a
  | .product u v => u.All I P ∧ v.All I P

def Callee.All (I : α → Prop) (P : Text → Prop) : Callee α → Prop
  | .known t => P t
  | .computed a => I a

def All (I : α → Prop) (P : Text → Prop) : Form α → Prop
  | .plain t => P t
  | .nested a => I a
  | .integral l u b v => I l ∧ I u ∧ I b ∧ I v
  | .derivative v o b => I v ∧ (∀ a ∈ o, I a) ∧ I b
  | .partialDerivative v o b => I v ∧ (∀ a ∈ o, I a) ∧ I b
  | .limit v p _ b => I v ∧ I p ∧ ∀ a ∈ b, I a
  | .primed a _ => I a
  | .root o r => (∀ a ∈ o, I a) ∧ I r
  | .series _ i a u b => (∀ x ∈ i, I x) ∧ (∀ x ∈ a, I x) ∧ I u ∧ I b
  | .application c none => c.All I P
  | .application c (some as) => c.All I P ∧ ∀ a ∈ as, I a
  | .sequence as => ∀ a ∈ as, I a
  | .relation _ a b => I a ∧ I b
  | .connective _ as => ∀ a ∈ as, I a
  | .negation a => I a
  | .opposite a => I a
  | .quantity a u => (∀ x ∈ a, I x) ∧ u.All I P
  | .parenthesized a => I a
  | .constant n i => P n ∧ I i
  | .matrix _ _ as => ∀ a ∈ as, I a
  | .evaluation a b => I a ∧ ∀ x ∈ b, I x
  | .equation a _ bs b => I a ∧ (∀ x ∈ bs, I x) ∧ ∀ x ∈ b, I x
  | .subscript a => I a
  | .identifier n i => P n ∧ I i

section Traverse

variable {I : α → Prop} {Q : β → Prop} {P : Text → Prop} {fault : Fault → Prop}
  {f : α → Except Fault β} (hf : ∀ a, I a → Ends Q fault (f a))

include hf

theorem ends_traverseOption {o : Option α} (h : ∀ a ∈ o, I a) :
    Ends (fun o => ∀ b ∈ o, Q b) fault (traverseOption f o) := by
  cases o with
  | none => exact .pure (by simp)
  | some a => exact (hf a (h a rfl)).bind fun b hb => .pure (by simpa using hb)

theorem ends_traverseList {as : List α} (h : ∀ a ∈ as, I a) :
    Ends (fun bs => ∀ b ∈ bs, Q b) fault (traverseList f as) := by
  induction as with
  | nil => exact .pure (by simp)
  | cons a as ih =>
      refine (hf a (h a (by simp))).bind fun b hb => ?_
      refine (ih fun c hc => h c (by simp [hc])).bind fun bs hbs => ?_
      exact .pure (List.forall_mem_cons.mpr ⟨hb, hbs⟩)

theorem Callee.ends_traverse {c : Callee α} (h : c.All I P) :
    Ends (Callee.All Q P) fault (c.traverse f) := by
  cases c with
  | known t => exact .pure h
  | computed a => exact (hf a h).bind fun _ hb => .pure hb

theorem UnitExpr.ends_traverse {u : UnitExpr α} (h : u.All I P) :
    Ends (UnitExpr.All Q P) fault (u.traverse f) := by
  induction u with
  | written t => exact .pure h
  | embedded a => exact (hf a h).bind fun _ hb => .pure hb
  | quotient u v hu hv => exact (hu h.1).bind fun _ hu => (hv h.2).bind fun _ hv => .pure ⟨hu, hv⟩
  | power u a hu => exact (hu h.1).bind fun _ hu => (hf a h.2).bind fun _ hb => .pure ⟨hu, hb⟩
  | product u v hu hv => exact (hu h.1).bind fun _ hu => (hv h.2).bind fun _ hv => .pure ⟨hu, hv⟩

theorem ends_traverse {form : Form α} (h : form.All I P) :
    Ends (Form.All Q P) fault (form.traverse f) := by
  have option {o : Option α} (ho : ∀ a ∈ o, I a) := ends_traverseOption hf ho
  have list {as : List α} (has : ∀ a ∈ as, I a) := ends_traverseList hf has
  cases form with
  | plain t => exact .pure h
  | nested a => exact (hf a h).bind fun _ hb => .pure hb
  | integral l u b v =>
      obtain ⟨hl, hu, hb, hv⟩ := h
      exact (hf l hl).bind fun _ hl => (hf u hu).bind fun _ hu => (hf b hb).bind fun _ hb =>
        (hf v hv).bind fun _ hv => .pure ⟨hl, hu, hb, hv⟩
  | derivative v o b =>
      obtain ⟨hv, ho, hb⟩ := h
      exact (hf v hv).bind fun _ hv => (option ho).bind fun _ ho => (hf b hb).bind fun _ hb =>
        .pure ⟨hv, ho, hb⟩
  | partialDerivative v o b =>
      obtain ⟨hv, ho, hb⟩ := h
      exact (hf v hv).bind fun _ hv => (option ho).bind fun _ ho => (hf b hb).bind fun _ hb =>
        .pure ⟨hv, ho, hb⟩
  | limit v p side b =>
      obtain ⟨hv, hp, hb⟩ := h
      exact (hf v hv).bind fun _ hv => (hf p hp).bind fun _ hp => (option hb).bind fun _ hb =>
        .pure ⟨hv, hp, hb⟩
  | primed a n => exact (hf a h).bind fun _ hb => .pure hb
  | root o r =>
      obtain ⟨ho, hr⟩ := h
      exact (option ho).bind fun _ ho => (hf r hr).bind fun _ hr => .pure ⟨ho, hr⟩
  | series s i a u b =>
      obtain ⟨hi, ha, hu, hb⟩ := h
      exact (option hi).bind fun _ hi => (option ha).bind fun _ ha => (hf u hu).bind fun _ hu =>
        (hf b hb).bind fun _ hb => .pure ⟨hi, ha, hu, hb⟩
  | application c as =>
      cases as with
      | none => exact (Callee.ends_traverse hf h).bind fun _ hc => .pure hc
      | some as =>
          obtain ⟨hc, has⟩ := h
          exact (Callee.ends_traverse hf hc).bind fun _ hc => (list has).bind fun _ has =>
            .pure ⟨hc, has⟩
  | sequence as => exact (list h).bind fun _ hbs => .pure hbs
  | relation r a b =>
      exact (hf a h.1).bind fun _ ha => (hf b h.2).bind fun _ hb => .pure ⟨ha, hb⟩
  | connective c as => exact (list h).bind fun _ hbs => .pure hbs
  | negation a => exact (hf a h).bind fun _ hb => .pure hb
  | opposite a => exact (hf a h).bind fun _ hb => .pure hb
  | quantity a u =>
      obtain ⟨ha, hu⟩ := h
      exact (option ha).bind fun _ ha => (UnitExpr.ends_traverse hf hu).bind fun _ hu =>
        .pure ⟨ha, hu⟩
  | parenthesized a => exact (hf a h).bind fun _ hb => .pure hb
  | constant n i => exact (hf i h.2).bind fun _ hb => .pure ⟨h.1, hb⟩
  | matrix r c as => exact (list h).bind fun _ hbs => .pure hbs
  | evaluation a b =>
      exact (hf a h.1).bind fun _ ha => (option h.2).bind fun _ hb => .pure ⟨ha, hb⟩
  | equation a op bs b =>
      obtain ⟨ha, hbs, hb⟩ := h
      exact (hf a ha).bind fun _ ha => (list hbs).bind fun _ hbs => (option hb).bind fun _ hb =>
        .pure ⟨ha, hbs, hb⟩
  | subscript a => exact (hf a h).bind fun _ hb => .pure hb
  | identifier n i => exact (hf i h.2).bind fun _ hb => .pure ⟨h.1, hb⟩

end Traverse

section Layout

variable {P : Text → Prop} (hP : Composes P) {lex : Lexicon}

include hP

theorem layout_differential {sign gap var body : Text} {order : Option Text} (hs : P sign)
    (hg : P gap) (hv : P var) (ho : ∀ n ∈ order, P n) (hb : P body) :
    P (differential sign gap var order body) := by
  have hspace : P " " := hP.literal rfl
  cases order with
  | none => exact hP.append (hP.append (hP.frac hs (hP.append (hP.append hs hg) hv)) hspace) hb
  | some n =>
      have hn := hP.sup (ho n rfl)
      exact hP.append (hP.append (hP.frac (hP.append hs hn)
        (hP.append (hP.append (hP.append hs hg) hv) hn)) hspace) hb

omit hP in
theorem mem_of_mem_writtenOrder {silent : List Text} {order : Option Text} {n : Text}
    (h : n ∈ writtenOrder silent order) : n ∈ order :=
  (Option.mem_filter_iff.mp h).1

theorem layout_matrix (rows columns : Nat) {elements : List Text} (h : ∀ t ∈ elements, P t) :
    P (matrixLayout rows columns elements) := by
  have hrows : ∀ row ∈ matrixRows columns rows elements, ∀ t ∈ row, P t := by
    induction rows generalizing elements with
    | zero => simp [matrixRows]
    | succ rows ih =>
        refine List.forall_mem_cons.mpr
          ⟨fun t ht => ?_, ih fun t ht => h t (List.mem_of_mem_drop ht)⟩
        rcases List.mem_append.mp ht with ht | ht
        · exact h t (List.mem_of_mem_take ht)
        · rw [List.eq_of_mem_replicate ht]
          exact hP.literal rfl
  have hlines : ∀ line ∈ (matrixRows columns rows elements).map (joinWith " & "), P line := by
    intro line hline
    obtain ⟨row, hrow, rfl⟩ := List.mem_map.mp hline
    exact hP.joinWith rfl (hrows row hrow)
  exact hP.environment (hP.literal rfl)
    (hP.append (hP.append (hP.literal rfl) (hP.joinWith rfl hlines)) (hP.literal rfl))

theorem layout_unit {u : UnitExpr Text} (h : u.All P P) : P u.layout := by
  induction u with
  | written t => exact h
  | embedded t => exact h
  | quotient u v hu hv => exact hP.frac (hu h.1) (hv h.2)
  | power u t hu => exact hP.append (hu h.1) (hP.sup h.2)
  | product u v hu hv => exact hP.append (hP.append (hu h.1) (hP.literal rfl)) (hv h.2)

theorem layout_withUnit {value unit : Text} (hv : P value) (hu : P unit) :
    P (withUnit value unit) := by
  unfold withUnit
  split
  · exact hv
  · split
    · exact hP.append hv hu
    · exact hP.append (hP.append hv (hP.literal rfl)) hu

theorem layout_opposite {t : Text} (h : P t) : P (oppositeLayout t) := by
  have hsign : P ['-'] := hP.literal rfl
  unfold oppositeLayout
  split
  · exact hP.append hsign (hP.sized h)
  · exact hP.append hsign h

theorem layout_indexedConstant (hlex : lex.All P) {name index : Text} (hn : P name)
    (hi : P index) : P (lex.indexedConstant name index) :=
  Lexicon.of_getD (fun _ hv => Lexicon.of_find? (fun e he => hlex e (by simp [he])) hv)
    (hP.append hn (hP.sub hi))

theorem layout_all (hlex : lex.All P) {form : Form Text} (h : form.All P P) :
    P (form.layout lex) := by
  have hspace : P " " := hP.literal rfl
  cases form with
  | plain t => exact h
  | nested t => exact h
  | integral l u b v =>
      obtain ⟨hl, hu, hb, hv⟩ := h
      exact hP.append (hP.append (hP.append (hP.append (hP.append (hP.append (hP.literal rfl)
        (hP.sub hl)) (hP.sup hu)) hspace) hb) (hP.literal rfl)) hv
  | derivative v o b =>
      obtain ⟨hv, ho, hb⟩ := h
      exact layout_differential hP (hP.upright (hP.literal rfl)) (hP.literal rfl) hv
        (fun n hn => ho n (mem_of_mem_writtenOrder hn)) hb
  | partialDerivative v o b =>
      obtain ⟨hv, ho, hb⟩ := h
      exact layout_differential hP (hP.literal rfl) (hP.literal rfl) hv
        (fun n hn => ho n (mem_of_mem_writtenOrder hn)) hb
  | limit v p side b =>
      obtain ⟨hv, hp, hb⟩ := h
      have hside : P side.mark := by
        cases side with
        | both => exact hP.literal rfl
        | left => exact hP.sup (hP.literal rfl)
        | right => exact hP.sup (hP.literal rfl)
      exact hP.append (hP.append (hP.append (hP.literal rfl) (hP.sub (hP.append (hP.append
        (hP.append hv (hP.literal rfl)) hp) hside))) hspace) (Lexicon.of_getD hb hv)
  | primed t n =>
      exact hP.append h (hP.literal (by simp [isLiteral, isAscii, isParen]))
  | root o r =>
      obtain ⟨ho, hr⟩ := h
      delta layout
      dsimp only
      split
      · exact hP.append (hP.literal rfl) (hP.group hr)
      · next n hn =>
          have hn : P n := ho n (mem_of_mem_writtenOrder hn)
          exact hP.append (hP.append (hP.append (hP.literal rfl) hn) (hP.literal rfl)) (hP.group hr)
  | series s i a u b =>
      obtain ⟨hi, ha, hu, hb⟩ := h
      have hcommand : P s.command := by cases s <;> exact hP.literal rfl
      have hi : P (i.getD "i") := Lexicon.of_getD hi (hP.literal rfl)
      have ha : P (a.getD "1") := Lexicon.of_getD ha (hP.literal rfl)
      exact hP.append (hP.append (hP.append (hP.append hcommand (hP.sub (hP.append (hP.append hi
        (hP.literal rfl)) ha))) (hP.sup hu)) hspace) hb
  | application c as =>
      have htemplate (hc : c.All P P) : P c.template := by cases c <;> exact hc
      cases as with
      | none => exact hP.slots (htemplate h) (hP.literal rfl)
      | some ts => exact hP.applyTemplate (htemplate h.1) (hP.joinWith rfl h.2)
  | sequence ts => exact hP.joinWith rfl h
  | relation r a b =>
      have hsign : P r.sign := by cases r <;> exact hP.literal rfl
      exact hP.append (hP.append (hP.append (hP.append h.1 hspace) hsign) hspace) h.2
  | connective c ts =>
      have hsign : (" " ++ c.sign ++ " " : Text).all isLiteral = true := by cases c <;> rfl
      exact hP.joinWith hsign h
  | negation t => exact hP.append (hP.literal rfl) h
  | opposite t => exact layout_opposite hP h
  | quantity v u =>
      exact layout_withUnit hP (Lexicon.of_getD h.1 (hP.literal rfl)) (layout_unit hP h.2)
  | parenthesized t => exact hP.sized h
  | constant n i => exact layout_indexedConstant hP hlex h.1 h.2
  | matrix r c ts => exact layout_matrix hP r c h
  | evaluation a b =>
      have hb : P (b.getD []) := Lexicon.of_getD h.2 (hP.literal rfl)
      delta layout
      dsimp only
      split
      · exact h.1
      · next hne =>
          exact hP.append (hP.append h.1 (hP.literal rfl)) hb
  | equation a op ts b =>
      obtain ⟨ha, hts, hb⟩ := h
      exact hP.append (hP.append ha (hP.literal rfl)) (Lexicon.of_getD hb (hP.render_getD hts))
  | subscript t => exact hP.group h
  | identifier n i => exact hP.append h.1 (hP.sub h.2)

end Layout

namespace Conveys

variable {lex : Lexicon} {I P : Text → Prop} (h : Conveys lex I P) {args : List Text}

theorem of_given {o : Text} (ho : I o) : ∀ a ∈ given o, I a := by
  intro a ha
  rw [given] at ha
  split at ha
  · cases ha
  · exact Option.some.inj ha ▸ ho

theorem of_head? (hargs : ∀ a ∈ args, I a) : ∀ a ∈ args.head?, I a :=
  fun a ha => hargs a (List.mem_of_mem_head? ha)

include h

theorem plain {t : Text} (ht : I t) : (Form.plain t).All I P :=
  h.written ht

theorem literal {t : Text} (ht : t.all isLiteral = true) : (Form.plain t).All I P :=
  h.composes.literal ht

theorem arguments_of_startsWith {a w : Text} (ha : I a)
    (hs : startsWith a ('(' :: '@' :: w) = true) : ∀ p ∈ Form.arguments a, I p := by
  obtain ⟨r, rfl⟩ := List.isPrefixOf_iff_prefix.mp hs
  exact h.arguments ha

theorem unwrapped {a w : Text} (ha : I a) :
    ∀ i ∈ (if startsWith a ('(' :: '@' :: w) then (Form.arguments a).head? else some a), I i := by
  intro i hi
  split at hi
  · next hs => exact of_head? (h.arguments_of_startsWith ha hs) i hi
  · exact Option.some.inj hi ▸ ha

theorem readPartialDerivative (hargs : ∀ a ∈ args, I a) :
    (readPartialDerivative args).All I P := by
  unfold Form.readPartialDerivative
  split
  · next v o b r =>
      have hr : ∀ a ∈ r, I a := fun a ha => hargs a (by simp [ha])
      refine ⟨hargs v (by simp), fun a ha => ?_, hargs b (by simp)⟩
      rcases Option.or_eq_some_iff.mp ha with ha | ⟨_, ha⟩
      · exact of_given (hargs o (by simp)) a ha
      · exact of_head? hr a ha
  · exact h.literal rfl

theorem readLimit (hargs : ∀ a ∈ args, I a) : (readLimit args).All I P := by
  unfold Form.readLimit
  split
  · next v p b r =>
      have hv := hargs v (by simp)
      have hp := hargs p (by simp)
      have hr : ∀ a ∈ r.head?, I a := of_head? fun a ha => hargs a (by simp [ha])
      split
      · exact ⟨hv, hp, hr⟩
      · split
        · exact ⟨hv, hp, hr⟩
        · exact ⟨hv, hp, by simpa using hargs b (by simp)⟩
  · exact h.literal rfl

theorem readPrime {fault : Fault → Prop} (hlong : fault .textTooLong)
    (hinfinite : fault .countInfinite) (hargs : ∀ a ∈ args, I a) :
    Ends (Form.All I P) fault (readPrime args) := by
  unfold Form.readPrime
  split
  · exact .ok (h.literal rfl)
  · exact .ok (hargs _ (by simp))
  · next a n r =>
      have hcount : FailsOnly fault (primeCount n) := by
        unfold primeCount
        generalize ((Nat.pow 2 1024 - Nat.pow 2 970 : Nat) : Int) = bound
        cases Numeral.leadingInteger n with
        | none => trivial
        | some k => exact .ite trivial (.ite trivial (.ite hlong hinfinite))
      exact hcount.map fun count _ => hargs a (by simp)

theorem readSeries (s : Series) (hargs : ∀ a ∈ args, I a) : (readSeries s args).All I P := by
  unfold Form.readSeries
  split
  · next a b c r =>
      have ha := hargs a (by simp)
      have hb := hargs b (by simp)
      have hc := hargs c (by simp)
      split
      · next hs =>
          have hparts := h.arguments_of_startsWith ha hs
          split
          · next i j _ hij =>
              rw [hij] at hparts
              exact ⟨by simpa using hparts i (by simp), by simpa using hparts j (by simp), hb, hc⟩
          · exact ⟨by simp, by simp, hb, hc⟩
      · split
        · exact ⟨by simpa using ha, by simp, hb, hc⟩
        · next d _ => exact ⟨by simpa using ha, by simpa using hb, hc, hargs d (by simp)⟩
  · cases s <;> exact h.literal rfl

theorem readCallee {a : Text} (ha : I a) : (readCallee lex a).All I P := by
  unfold Form.readCallee
  split
  · exact ha
  · exact h.lexicon.function (h.written ha)

theorem readApplication (hargs : ∀ a ∈ args, I a) : (readApplication lex args).All I P := by
  unfold Form.readApplication
  split
  · exact h.literal rfl
  · exact h.readCallee (hargs _ (by simp))
  · next a b r =>
      refine ⟨h.readCallee (hargs a (by simp)), ?_⟩
      have hb := hargs b (by simp)
      split
      · next hs => exact h.arguments_of_startsWith hb hs
      · simpa using hb

theorem readConstant {t : Text} (ht : I t) : (readConstant lex t).All I P := by
  unfold Form.readConstant
  split
  · next known hknown =>
      exact Lexicon.of_find? (fun e he => h.lexicon e (by simp [he])) hknown
  · split
    · next hs =>
        have hparts := h.arguments_of_startsWith ht hs
        split
        · exact h.plain ht
        · next n hn => exact h.plain (hparts n (by simp [hn]))
        · next n i r hargs =>
            have hn : P n := h.written (hparts n (by simp [hargs]))
            have hi : I i := hparts i (by simp [hargs])
            split
            · next j hj => exact ⟨hn, h.unwrapped hi j hj⟩
            · exact layout_indexedConstant h.composes h.lexicon hn (h.composes.literal rfl)
    · exact h.plain ht

theorem readLabel (kind : Text) {t : Text} (ht : I t) :
    ((readLabel lex kind t).getD (.nested t)).All I P := by
  have hlabel (k : LabelKind) : P (lex.label k t) :=
    h.lexicon.label (h.written ht) (h.composes.upright (h.written ht))
      (h.composes.operatorName (h.written ht)) k
  unfold Form.readLabel
  cases LabelKind.ofName? kind with
  | none => exact ht
  | some k =>
      cases k with
      | constant => exact h.readConstant ht
      | unit => exact hlabel .unit
      | var => exact hlabel .var
      | function => exact hlabel .function

theorem readIdentifier (hargs : ∀ a ∈ args, I a) : (readIdentifier args).All I P := by
  unfold Form.readIdentifier
  split
  · exact h.literal rfl
  · next n r =>
      have hn := hargs n (by simp)
      split
      · exact h.plain hn
      · next a ha =>
          have hs : startsWith a "(@SUB" = true := by simpa using List.find?_some ha
          have hparts := h.arguments_of_startsWith
            (hargs a (by simp [List.mem_of_find?_eq_some ha])) hs
          split
          · next i hi => exact ⟨h.written hn, of_head? hparts i hi⟩
          · exact h.composes.append (h.written hn) (h.composes.sub (h.composes.literal rfl))

theorem readMatrix (hargs : ∀ a ∈ args, I a) : (readMatrix args).All I P := by
  have hempty : readMatrix.emptyMatrix.All I P :=
    h.composes.environment (h.composes.literal rfl) (h.composes.literal rfl)
  unfold Form.readMatrix
  split
  · next r c e es =>
      split
      · split
        · exact fun a ha => hargs a (List.mem_cons_of_mem _ (List.mem_cons_of_mem _
            (List.mem_of_mem_take ha)))
        · exact hempty
      · exact hempty
  · exact hempty

theorem readEvaluation (hargs : ∀ a ∈ args, I a) : (readEvaluation args).All I P := by
  unfold Form.readEvaluation
  split
  · next a b r =>
      refine ⟨hargs a (by simp), ?_⟩
      split
      · exact of_head? fun x hx => hargs x (by simp [hx])
      · simpa using hargs b (by simp)
  · exact h.literal rfl

theorem operands_of_operator? {b : Text} {op : Operator} (hb : I b)
    (hop : operator? b = some op) : ∀ p ∈ Form.operands b, I p := by
  obtain ⟨r, rfl⟩ := exists_of_operator? hop
  exact h.operands hb

theorem readEquation (hargs : ∀ a ∈ args, I a) : (readEquation args).All I P := by
  unfold Form.readEquation
  split
  · next a b r =>
      have ha := hargs a (by simp)
      have hb := hargs b (by simp)
      split
      · exact ⟨ha, hb⟩
      · exact ⟨ha, hb⟩
      · next op _ hop =>
          refine ⟨ha, h.operands_of_operator? hb hop, ?_⟩
          split
          · simp
          · simpa using hb
  · exact h.literal rfl

theorem productOf {us : List (UnitExpr Text)} (hus : ∀ u ∈ us, u.All I P) :
    (UnitExpr.productOf us).All I P := by
  induction us with
  | nil => exact h.composes.literal rfl
  | cons u us ih =>
      cases us with
      | nil => exact hus u (by simp)
      | cons v us => exact ⟨hus u (by simp), ih fun w hw => hus w (List.mem_cons_of_mem _ hw)⟩

theorem readUnit {e : Text} (he : I e) : (readUnit lex e).All I P := by
  induction hn : e.length using Nat.strongRecOn generalizing e with
  | ind n ih =>
      have hunit {name : Text} (hname : I name) : P (lex.unit name) :=
        h.lexicon.unit (h.composes.upright (h.written hname))
      have hpart {op : Operator} (hop : operator? e = some op) (p : Text)
          (hp : p ∈ Form.operands e) : (Form.readUnit lex p).All I P :=
        ih p.length (hn ▸ length_lt_of_mem_operands hp) (h.operands_of_operator? he hop p hp) rfl
      have hempty : (UnitExpr.written []).All I P := h.composes.literal rfl
      rw [Form.readUnit]
      split
      · exact hunit he
      · split
        · next p q _ hop _ => exact ⟨hpart hop p.1 p.2, hpart hop q.1 q.2⟩
        · exact hempty
        · next p q _ hop _ => exact ⟨hpart hop p.1 p.2, h.operands_of_operator? he hop q.1 q.2⟩
        · exact hempty
        · next hop =>
            refine h.productOf fun u hu => ?_
            obtain ⟨p, _, rfl⟩ := List.mem_map.mp hu
            exact hpart hop p.1 p.2
        · exact he
        · split
          · next hs =>
              split
              · next kind name _ hargs =>
                  split
                  · exact hunit (h.arguments_of_startsWith he hs name (by simp [hargs]))
                  · exact he
              · exact he
          · exact he

theorem readTagged {fault : Fault → Prop} (hlong : fault .textTooLong)
    (hinfinite : fault .countInfinite) {tag : Tag} (htag : tag ≠ .equals) {e : Text}
    (hargs : ∀ a ∈ Form.arguments e, I a) :
    Ends (Form.All I P) fault (readTagged lex tag e) := by
  simp only [Form.readTagged]
  split
  · next heq =>
      exact .ok ⟨hargs _ (by simp [heq]), hargs _ (by simp [heq]), hargs _ (by simp [heq]),
        hargs _ (by simp [heq])⟩
  · exact .ok
      (h.composes.append (h.composes.literal rfl) (h.composes.group (h.composes.literal rfl)))
  · next heq =>
      exact .ok ⟨hargs _ (by simp [heq]), of_given (hargs _ (by simp [heq])),
        hargs _ (by simp [heq])⟩
  · exact .ok (h.readPartialDerivative hargs)
  · exact .ok (h.readLimit hargs)
  · exact h.readPrime hlong hinfinite hargs
  · next heq => exact .ok ⟨of_given (hargs _ (by simp [heq])), hargs _ (by simp [heq])⟩
  · exact .ok (h.readSeries _ hargs)
  · exact .ok (h.readApplication hargs)
  · exact .ok hargs
  · next heq => exact .ok ⟨hargs _ (by simp [heq]), hargs _ (by simp [heq])⟩
  · next heq => exact .ok (heq ▸ hargs)
  · next heq => exact .ok (hargs _ (by simp [heq]))
  · next heq => exact .ok (hargs _ (by simp [heq]))
  · next heq =>
      exact .ok ⟨by simpa using hargs _ (by simp [heq]), h.readUnit (hargs _ (by simp [heq]))⟩
  · next heq =>
      exact .ok ⟨h.unwrapped (hargs _ (by simp [heq])), h.readUnit (hargs _ (by simp [heq]))⟩
  · next heq => exact .ok (hargs _ (by simp [heq]))
  · exact .ok (h.composes.paren (t := []) (h.composes.literal rfl))
  · next heq => exact .ok (h.readLabel _ (hargs _ (by simp [heq])))
  · exact .ok (h.readMatrix hargs)
  · exact .ok (h.readEvaluation hargs)
  · next heq => exact .ok (hargs _ (by simp [heq]))
  · exact .ok (h.readIdentifier hargs)
  · exact .ok (h.readEquation hargs)
  · exact absurd rfl htag
  · exact .ok (h.literal rfl)

omit h in
theorem tag?_cases {e : Text} {tag : Tag} (ht : tag? e = some tag) :
    (∃ r, e = '(' :: '=' :: r ∧ tag = .equals) ∨ ∃ r, e = '(' :: '@' :: r ∧ tag ≠ .equals := by
  obtain ⟨name, hname, hlookup⟩ := Option.bind_eq_some_iff.mp ht
  unfold tagName? at hname
  split at hname
  · next r =>
      obtain rfl := Option.some.inj hname
      exact .inl ⟨r, rfl, Option.some.inj (hlookup.symm.trans (by decide))⟩
  · next r =>
      refine .inr ⟨r, rfl, ?_⟩
      rintro rfl
      obtain ⟨l₁, l₂, hl, -⟩ := List.lookup_eq_some_iff.mp hlookup
      have hmem : (name, Tag.equals) ∈ tagNames := by
        rw [hl]
        simp
      have hall : ∀ p ∈ tagNames, p.2 = .equals → p.1 = ['='] := by decide
      obtain rfl : name = ['='] := hall _ hmem rfl
      dsimp only at hname
      split at hname
      · cases hname
      · exact absurd (List.cons.inj (Option.some.inj hname)).1 (by decide)
  · cases hname

theorem read {fault : Fault → Prop} (hlong : fault .textTooLong) (hinfinite : fault .countInfinite)
    {e : Text} (hequality : ∀ r, e = '(' :: '=' :: r → (readEquality e).All I P)
    (htagged : ∀ r, e = '(' :: '@' :: r → ∀ a ∈ Form.arguments e, I a) (hwhole : P e) :
    Ends (Form.All I P) fault (Form.read lex e) := by
  unfold Form.read
  split
  · next tag htag =>
      rcases tag?_cases htag with ⟨r, rfl, rfl⟩ | ⟨r, rfl, hne⟩
      · exact .ok (hequality r rfl)
      · exact h.readTagged hlong hinfinite hne (htagged r rfl)
  · exact .ok hwhole

end Conveys

namespace Inherits

variable {lex : Lexicon} {I P : Text → Prop} (h : Inherits lex I P)

include h

theorem readEquality {r : Text} (hr : I r) (hwhole : P ('(' :: '=' :: r)) :
    (readEquality ('(' :: '=' :: r)).All I P := by
  have hcontent : I (trim (dropClosing r)) := h.hereditary.trim (h.hereditary.dropClosing hr)
  have hhead := head_trim_not_blank (dropClosing r)
  unfold Form.readEquality
  rw [dropClosing_form (by decide)]
  simp only [List.drop_succ_cons, List.drop_zero]
  split
  · next a b ps hsplit =>
      obtain ⟨q, hq, -, hblank⟩ := exists_rest_of_split hhead hsplit
      have hseam : Seam a q := seam_of_head fun c hc => not_isAtomic_of_isBlank (hblank c hc)
      rw [hq] at hcontent ⊢
      rw [List.drop_left]
      obtain ⟨ha, hrest⟩ := h.hereditary.cut hseam hcontent
      exact ⟨ha, h.hereditary.trim hrest⟩
  · exact hwhole

theorem read {fault : Fault → Prop} (hlong : fault .textTooLong) (hinfinite : fault .countInfinite)
    {e : Text} (hopen : ∀ c r, e = '(' :: c :: r → isHead c = true → I r) (hwhole : P e) :
    Ends (Form.All I P) fault (Form.read lex e) := by
  refine h.conveys.read hlong hinfinite ?_ ?_ hwhole
  · rintro r rfl
    exact h.readEquality (hopen '=' r rfl (by decide)) hwhole
  · rintro r rfl
    exact h.hereditary.arguments (hopen '@' r rfl (by decide))

end Inherits

end Form

end WorksheetTex
