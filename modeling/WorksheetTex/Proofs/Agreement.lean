import WorksheetTex.Proofs.EvaluationResult
import WorksheetTex.Proofs.Layer
import WorksheetTex.Proofs.Shrinking
import WorksheetTex.Proofs.Spacing

namespace WorksheetTex

open Text Tex Paren Vocabulary Form Evaluation

theorem Tex.exists_spaceCommands_open (s t : Text) :
    ∃ r, spaceCommands (s ++ '(' :: t) = spaceCommands s ++ '(' :: r := by
  have hgreek : ∀ q, greekSpacer.due q '(' = false := fun q => rfl
  have hname : ∀ m, nameSpacer.due m '(' = false := by
    have hparen : isAlphanumeric '(' = false := by decide +kernel
    intro m
    cases m <;> simp [nameSpacer, hparen]
  rw [spaceCommands, greekSpacer.run_append, Spacer.run, hgreek, if_neg Bool.false_ne_true,
    nameSpacer.run_append, Spacer.run, hname, if_neg Bool.false_ne_true]
  exact ⟨_, rfl⟩

theorem Text.exists_joinWith_append (w : Text) (ts : List Text) :
    ∃ p, ∀ t us, joinWith w (ts ++ t :: us) = p ++ (t ++ us.flatMap (w ++ ·)) := by
  cases ts with
  | nil => exact ⟨[], joinWith_eq_flatMap w⟩
  | cons u ts =>
      refine ⟨joinWith w (u :: ts) ++ w, fun t us => ?_⟩
      rw [joinWith_append w (List.cons_ne_nil u ts), List.flatMap_cons, List.append_assoc,
        List.append_assoc]

theorem Text.joinWith_ne {w t u : Text} {c d : Char} {ts us vs : List Text} (hcd : c ≠ d)
    (hvs : vs ≠ []) :
    joinWith (c :: w) (ts ++ (t ++ d :: u) :: us) ≠ joinWith (c :: w) (ts ++ t :: vs) := by
  obtain ⟨p, hp⟩ := exists_joinWith_append (c :: w) ts
  obtain ⟨v, vs, rfl⟩ := List.exists_cons_of_ne_nil hvs
  rw [hp, hp, List.append_assoc t, List.flatMap_cons]
  intro h
  have hrest := List.append_cancel_left (List.append_cancel_left h)
  exact hcd (List.cons.inj hrest).1.symm

namespace Form.Operator

variable {op : Operator}

def used {α : Type} : Operator → List α → List α
  | .divide, as => as.take 2
  | .power, as => as.take 2
  | _, as => as

theorem render_used (op : Operator) (ts : List Text) : op.render (op.used ts) = op.render ts := by
  rcases ts with _ | ⟨a, _ | ⟨b, r⟩⟩ <;> cases op <;> rfl

theorem forall₂_used {α β : Type} {R : α → β → Prop} {as : List α} {bs : List β}
    (h : List.Forall₂ R as bs) (op : Operator) : List.Forall₂ R (op.used as) (op.used bs) := by
  cases op with
  | divide => exact List.forall₂_take 2 h
  | power => exact List.forall₂_take 2 h
  | _ => exact h

theorem used_isPrefix {α : Type} (op : Operator) (as : List α) : op.used as <+: as := by
  cases op with
  | divide => exact List.take_prefix 2 as
  | power => exact List.take_prefix 2 as
  | _ => exact List.prefix_refl as

theorem used_flatMap {f : Text → List Text} {ps : List Text} (hlen : 2 ≤ ps.length)
    (h : (op.used ps).flatMap f = op.used ps) : op.used (ps.flatMap f) = op.used ps := by
  have htwo (h : (ps.take 2).flatMap f = ps.take 2) : (ps.flatMap f).take 2 = ps.take 2 := by
    have hlength : (ps.take 2).length = 2 := List.length_take_of_le hlen
    calc (ps.flatMap f).take 2 = ((ps.take 2 ++ ps.drop 2).flatMap f).take 2 := by
          rw [List.take_append_drop]
      _ = (ps.take 2 ++ (ps.drop 2).flatMap f).take 2 := by rw [List.flatMap_append, h]
      _ = ps.take 2 := List.take_left' hlength
  cases op with
  | divide => exact htwo h
  | power => exact htwo h
  | _ => exact h

theorem render_eq_joinWith {separator : Text} {ts : List Text}
    (hop : (op, separator) ∈ [(plus, " + ".toList), (minus, " - "), (times, " \\cdot ")])
    (htwo : 2 ≤ ts.length) : op.render ts = some (joinWith separator ts) := by
  obtain ⟨a, b, r, rfl⟩ : ∃ a b r, ts = a :: b :: r := by
    match ts, htwo with
    | a :: b :: r, _ => exact ⟨a, b, r, rfl⟩
  simp only [List.mem_cons, Prod.mk.injEq, List.not_mem_nil, or_false] at hop
  rcases hop with ⟨rfl, rfl⟩ | ⟨rfl, rfl⟩ | ⟨rfl, rfl⟩ <;> rfl

theorem render_ne {t u : Text} {ts us vs : List Text} (hop : op ≠ .power)
    (hdivide : op = .divide → ts.length ≤ 1) (htwo : 2 ≤ (ts ++ (t ++ '(' :: u) :: us).length)
    (hvs : vs ≠ []) :
    (op.render (ts ++ (t ++ '(' :: u) :: us)).getD [] ≠ (op.render (ts ++ t :: vs)).getD [] := by
  have hjoin (separator : Text)
      (hmem : (op, ' ' :: separator) ∈
        [(plus, " + ".toList), (minus, " - "), (times, " \\cdot ")]) :
      (op.render (ts ++ (t ++ '(' :: u) :: us)).getD [] ≠
        (op.render (ts ++ t :: vs)).getD [] := by
    have hmore : 2 ≤ (ts ++ t :: vs).length := by
      have := List.length_pos_iff.mpr hvs
      simp only [List.length_append, List.length_cons]
      omega
    rw [render_eq_joinWith hmem htwo, render_eq_joinWith hmem hmore]
    exact joinWith_ne (by decide) hvs
  obtain ⟨v, vs, rfl⟩ := List.exists_cons_of_ne_nil hvs
  cases op with
  | power => exact absurd rfl hop
  | plus => exact hjoin "+ " (by decide)
  | minus => exact hjoin "- " (by decide)
  | times => exact hjoin "\\cdot " (by decide)
  | divide =>
      have hgroup (before after after' : Text) :
          before ++ group (t ++ '(' :: u) ++ after ≠ before ++ group t ++ after' := by
        simp [group]
      match ts, us, hdivide rfl, htwo with
      | [], y :: us, _, _ => exact hgroup "\\frac" (group y) (group v)
      | [y], us, _, _ =>
          have := hgroup ("\\frac" ++ group y) [] []
          rwa [List.append_nil, List.append_nil] at this

theorem render_single_inj (hop : op.accepts 1 = true) {t u : Text} :
    (op.render [t]).getD [] = (op.render [u]).getD [] ↔ t = u := by
  cases op with
  | plus => simp [render, joinWith]
  | minus => simp [render]
  | times => simp [render, joinWith]
  | divide => cases hop
  | power => cases hop

end Form.Operator

theorem exists_of_forall₂_append {α β : Type} {R : α → β → Prop} {as cs : List α} {a : α}
    {ds : List β} (h : List.Forall₂ R (as ++ a :: cs) ds) :
    ∃ bs b es, ds = bs ++ b :: es ∧ List.Forall₂ R as bs ∧ R a b ∧ List.Forall₂ R cs es := by
  induction as generalizing ds with
  | nil =>
      cases h with
      | cons hb hes => exact ⟨[], _, _, rfl, .nil, hb, hes⟩
  | cons x as ih =>
      cases h with
      | cons hx hrest =>
          obtain ⟨bs, b, es, rfl, hbs, hb, hes⟩ := ih hrest
          exact ⟨_ :: bs, b, es, rfl, .cons hx hbs, hb, hes⟩

theorem Form.forall₂_of_traverseList {f : Text → Except Fault Text} {ts vs : List Text}
    (h : traverseList f ts = .ok vs) : List.Forall₂ (fun t v => f t = .ok v) ts vs := by
  induction ts generalizing vs with
  | nil =>
      obtain rfl : [] = vs := Except.ok.inj h
      exact .nil
  | cons t ts ih =>
      obtain ⟨v, hv, h⟩ := exists_of_bind_ok h
      obtain ⟨vs, hvs, h⟩ := exists_of_bind_ok h
      obtain rfl := Except.ok.inj h
      exact .cons hv (ih hvs)

namespace Setting

variable {s : Setting} {op : Operator} {ps qs : List Text} {u v : Text}

theorem exists_of_finish_arithmetic (h : s.finish (.arithmetic op ps) = .ok u) :
    ∃ us, List.Forall₂ (fun p v => s.typeset p = .ok v) ps us ∧ u = (op.render us).getD [] := by
  obtain ⟨layer, hlayer, h⟩ := exists_of_bind_ok h
  obtain ⟨us, hus, hlayer⟩ := exists_of_bind_ok hlayer
  obtain rfl := Except.ok.inj hlayer
  exact ⟨us, forall₂_of_traverseList hus, (Except.ok.inj h).symm⟩

theorem eq_of_forall₂_typeset {us vs : List Text}
    (hu : List.Forall₂ (fun p v => s.typeset p = .ok v) ps us)
    (hv : List.Forall₂ (fun p v => s.typeset p = .ok v) ps vs) : us = vs :=
  Except.ok.inj ((traverseList_ok hu).symm.trans (traverseList_ok hv))

theorem finish_eq_of_used (h : op.used ps = op.used qs)
    (hu : s.finish (.arithmetic op ps) = .ok u) (hv : s.finish (.arithmetic op qs) = .ok v) :
    u = v := by
  obtain ⟨us, hus, rfl⟩ := exists_of_finish_arithmetic hu
  obtain ⟨vs, hvs, rfl⟩ := exists_of_finish_arithmetic hv
  have hused : op.used us = op.used vs :=
    eq_of_forall₂_typeset (op.forall₂_used hus) (h ▸ op.forall₂_used hvs)
  rw [← op.render_used us, hused, op.render_used]

theorem typeset_word {a : Atom} {w : Text} (htrim : trim (a.text ++ w) = a.text ++ w)
    (h : s.typeset (a.text ++ w) = .ok u) : u = spaceCommands (replaceGlyphs (a.text ++ w)) := by
  have hop : operator? (a.text ++ w) = none := by
    obtain ⟨c, r, hc, hp⟩ := a.exists_cons
    rw [hc, List.cons_append]
    unfold operator?
    split
    · simp_all
    · rfl
  have hne : a.text ++ w ≠ [] := by simp [a.ne_nil]
  obtain ⟨c, r, hc, hp⟩ := a.replaced.exists_cons
  have hreplaced : replaceGlyphs (a.text ++ w) = c :: (r ++ replaceGlyphs w) := by
    rw [replaceGlyphs_append]
    change a.replaced.text ++ _ = _
    rw [hc]
    rfl
  rw [typeset] at h
  cases hl : s.limit.levels with
  | zero =>
      rw [hl] at h
      cases h
  | succ n =>
      have hreads := typesetWithin_of_reads (s := s) (n := n) hne htrim hop
        (hreplaced ▸ Reads.plain hp (r ++ replaceGlyphs w))
      rw [hl, hreads] at h
      exact (Except.ok.inj h).symm

theorem finish_ne_of_touching {before after more : List Text} {a : Atom} {w : Text}
    (hop : op ≠ .power) (hdivide : op = .divide → before.length ≤ 1)
    (htwo : 2 ≤ (before ++ (a.text ++ '(' :: w) :: after).length) (hmore : more ≠ [])
    (htrim : trim (a.text ++ '(' :: w) = a.text ++ '(' :: w)
    (hu : s.finish (.arithmetic op (before ++ (a.text ++ '(' :: w) :: after)) = .ok u)
    (hv : s.finish (.arithmetic op (before ++ a.text :: more)) = .ok v) : u ≠ v := by
  obtain ⟨us, hus, rfl⟩ := exists_of_finish_arithmetic hu
  obtain ⟨vs, hvs, rfl⟩ := exists_of_finish_arithmetic hv
  have hlen := hus.length_eq
  obtain ⟨bs, b, es, rfl, hbs, hb, -⟩ := exists_of_forall₂_append hus
  obtain ⟨bs', b', es', rfl, hbs', hb', hes'⟩ := exists_of_forall₂_append hvs
  obtain rfl : bs = bs' := eq_of_forall₂_typeset hbs hbs'
  obtain rfl : b' = spaceCommands (replaceGlyphs a.text) := by
    have htrim' : trim (a.text ++ []) = a.text ++ [] := by
      rw [List.append_nil]
      exact (Item.atom a).trim
    have := typeset_word htrim' (by rwa [List.append_nil])
    rwa [List.append_nil] at this
  have hb := typeset_word htrim hb
  obtain ⟨r, hr⟩ := exists_spaceCommands_open (replaceGlyphs a.text) (replaceGlyphs w)
  have hopen : replaceGlyphs (a.text ++ '(' :: w) =
      replaceGlyphs a.text ++ '(' :: replaceGlyphs w := by
    rw [replaceGlyphs_append, replaceGlyphs_cons, glyph_ascii (by decide)]
    rfl
  rw [hopen, hr] at hb
  subst hb
  refine Operator.render_ne hop (fun h => ?_) (hlen ▸ htwo) ?_
  · exact hbs.length_eq ▸ hdivide h
  · rintro rfl
    exact hmore (List.forall₂_nil_right_iff.mp hes')

end Setting

theorem Form.split_touching (a : Atom) (w : Text) :
    ∃ r rs, split .atGapsAndParens (a.text ++ '(' :: w) = a.text :: r :: rs := by
  have hitem : Item a.text := .atom a
  have hlevel : (0 : Int) + level a.text = 0 := level_eq hitem.balanced
  have hword : split .atGapsAndParens a.text = [a.text] := by
    have := hitem.splitFrom .atGapsAndParens []
    rwa [List.append_nil, splitFrom_nil, hitem.release] at this
  have happend : split .atGapsAndParens (a.text ++ '(' :: w) =
      split .atGapsAndParens a.text ++ split .atGapsAndParens ('(' :: w) :=
    splitFrom_append ⟨hlevel, .inr ⟨rfl, rfl⟩⟩
  have hne : split .atGapsAndParens ('(' :: w) ≠ [] := split_ne_nil (by decide)
  obtain ⟨r, rs, hr⟩ := List.exists_cons_of_ne_nil hne
  exact ⟨r, rs, by rw [happend, hword, hr]; rfl⟩

namespace Setting

variable {s : Setting} {e : Text} {op : Operator} {u v : Text}

theorem evaluate_structural (hop : operator? e = some op) (hw : isWhole e = true)
    (hlen : 2 ≤ (Layer.spacedOperands e).length) :
    s.evaluate e = s.finish (.arithmetic op (Layer.spacedOperands e)) := by
  rw [evaluate, Layer.readEvaluation_of_operator? _ hop, if_pos ⟨hw, hlen⟩]
  rfl

theorem flatMap_split_operands {ps : List Text} (hps : ps ⊆ Layer.spacedOperands e)
    (h : ∀ p ∈ ps, ¬ Touches p) : ps.flatMap (split .atGapsAndParens) = ps :=
  flatMap_split_of_not_touches (t := trim ((e.drop 2).dropLast)) (fun _ hp => hps hp) h

theorem evaluate_ne_of_touching (heval : Layer.isEvaluation e = true)
    (hop : operator? e = some op) (hw : isWhole e = true)
    (hlen : 2 ≤ (Layer.spacedOperands e).length) {before after : List Text} {a : Atom} {w : Text}
    (hused : op.used (Layer.spacedOperands e) = before ++ (a.text ++ '(' :: w) :: after)
    (hbefore : ∀ p ∈ before, ¬ Touches p) (hu : s.evaluate e = .ok u)
    (hv : s.finish (.arithmetic op (operands e)) = .ok v) : u ≠ v := by
  obtain ⟨rest, hrest⟩ := op.used_isPrefix (Layer.spacedOperands e)
  have hspaced :
      Layer.spacedOperands e = before ++ (a.text ++ '(' :: w) :: (after ++ rest) := by
    rw [← hrest, hused]
    simp
  obtain ⟨r, rs, hsplit⟩ := split_touching a w
  have hoperands : operands e =
      before ++ a.text :: (r :: rs ++ (after ++ rest).flatMap (split .atGapsAndParens)) := by
    have hkept : before.flatMap (split .atGapsAndParens) = before :=
      flatMap_split_operands (e := e) (fun p hp => by simp [hspaced, hp]) hbefore
    rw [Layer.operands_eq_flatMap hop hw, hspaced, List.flatMap_append, List.flatMap_cons, hkept,
      hsplit]
    rfl
  have hpower : op ≠ .power := by
    obtain ⟨op', r, hne, rfl⟩ := Layer.exists_of_isEvaluation heval
    obtain rfl : op' = op := Option.some.inj ((Operator.ofChar?_symbol op').symm.trans hop)
    exact hne
  have hdivide (h : op = .divide) : before.length ≤ 1 := by
    have := congrArg List.length hused
    rw [h] at this
    simp only [Operator.used, List.length_take, List.length_append, List.length_cons] at this
    omega
  have hmem : a.text ++ '(' :: w ∈ split .atGaps (trim ((e.drop 2).dropLast)) := by
    change _ ∈ Layer.spacedOperands e
    rw [hspaced]
    simp
  rw [evaluate_structural hop hw hlen, hspaced] at hu
  rw [hoperands] at hv
  exact finish_ne_of_touching hpower hdivide (hspaced ▸ hlen) (by simp) (mem_split hmem).1 hu hv

end Setting

def Shape.replaced : Shape → Shape
  | .application f => .application f.replaced
  | shape => shape

namespace Tree

variable {lex : Lexicon} {t : Tree} {x : Text}

def replaced : Tree → Tree :=
  fold (fun a => .atom a.replaced) (fun kind name => .label kind.replaced name.replaced)
    fun shape ts => .node shape.replaced ts

@[simp] theorem replaced_node (shape : Shape) (ts : List Tree) :
    (node shape ts).replaced = .node shape.replaced (ts.map replaced) := by
  simp [replaced, fold, foldAll_eq_map]

theorem replaceGlyphs_kind {kind : Atom} (h : ∀ c ∈ kind.text, isLatin c = true) :
    replaceGlyphs kind.text = kind.text :=
  replaceGlyphs_ascii (List.all_eq_true.mpr fun c hc => isAscii_of_isLatin (h c hc))

theorem Evaluable.replaced (ht : t.Evaluable) : t.replaced.Evaluable := by
  have hmark {w : Text} (hw : openMark ∉ w) : openMark ∉ replaceGlyphs w :=
    Sealed.not_mem_replaceGlyphs (.inl rfl) hw
  induction t with
  | atom a =>
      cases ht with
      | atom ha => exact .atom (hmark ha)
  | label kind name =>
      cases ht with
      | label hkind hname =>
          refine .label (fun c hc => hkind c ?_) (hmark hname)
          rwa [← replaceGlyphs_kind hkind]
  | node shape ts ih =>
      have hall (hts : ∀ t ∈ ts, Evaluable t) : ∀ t ∈ ts.map Tree.replaced, Evaluable t :=
        List.forall_mem_map.mpr fun t ht => ih t ht (hts t ht)
      rw [replaced_node]
      cases ht with
      | application hf hne hts => exact .application (hmark hf) (by simpa using hne) (hall hts)
      | operation hlen hts => exact .operation (by rwa [List.length_map]) (hall hts)

theorem Evaluable.written_replaced (ht : t.Evaluable)
    (hx : Sexp.Spelled Sexp.Replaced t.sexp x) : t.replaced.sexp.Written x := by
  induction t generalizing x with
  | atom a =>
      cases hx with
      | atom h => exact .atom h
  | label kind name =>
      cases hx with
      | form hitems hbody =>
          simp only [List.forall₂_cons_left_iff, List.forall₂_nil_left_iff] at hitems
          obtain ⟨k, _, hk, ⟨n, _, hn, rfl, rfl⟩, rfl⟩ := hitems
          cases hk with
          | atom hk =>
              cases hn with
              | atom hn => exact .form (.cons (.atom hk) (.cons (.atom hn) .nil)) hbody
  | node shape ts ih =>
      have hall (hts : ∀ t ∈ ts, Evaluable t) {xs : List Text}
          (hxs : List.Forall₂ (Sexp.Spelled Sexp.Replaced) (ts.map sexp) xs) :
          List.Forall₂ Sexp.Written ((ts.map Tree.replaced).map sexp) xs := by
        rw [List.map_map, List.forall₂_map_left_iff]
        exact Sexp.forall₂_of_mem (List.forall₂_map_left_iff.mp hxs) fun t ht x =>
          ih t ht (hts t ht)
      rw [sexp_node] at hx
      rw [replaced_node, sexp_node]
      cases ht with
      | application hf hne hts =>
          cases hx with
          | form hitems hbody =>
              change List.Forall₂ _ [_, _] _ at hitems
              simp only [List.forall₂_cons_left_iff, List.forall₂_nil_left_iff] at hitems
              obtain ⟨f, _, hname, ⟨args, _, hargs, rfl, rfl⟩, rfl⟩ := hitems
              cases hname with
              | atom hname =>
                  cases hargs with
                  | form hxs hargs =>
                      exact .form (.cons (.atom hname) (.cons (.form (hall hts hxs) hargs) .nil))
                        hbody
      | operation hlen hts =>
          cases hx with
          | form hitems hbody => exact .form (hall hts hitems) hbody

theorem value_eq_render {op : Operator} {ts : List Tree}
    (hbase : op = .power → ∀ t ∈ ts.head?, t.reading lex ≠ (false, ['e']))
    (hlen : op.accepts ts.length = true) :
    (node (.operation op) ts).value lex = (op.render (ts.map (value lex))).getD [] := by
  rcases operation_cases lex hlen with ⟨t, u, r, rfl, rfl, hflag⟩ | hflag
  · have hne : t.value lex ≠ ['e'] := fun h => hbase rfl t rfl (Prod.ext hflag h)
    rw [value_power hflag]
    simp [Operator.render, hne]
  · obtain ⟨v, hv⟩ : ∃ v, op.render (ts.map (value lex)) = some v :=
      exists_render (by rwa [List.length_map])
    rw [value_operation hflag hv, hv]
    rfl

theorem latex_label {kind name : Atom} (hkind : ∀ c ∈ kind.text, isLatin c = true)
    (h : spaceCommands (labelPiece lex kind.text name.text) =
      labelPiece lex kind.text name.text) :
    (Tree.label kind name).latex lex = labelPiece lex kind.text name.text := by
  change spaceCommands (labelled lex (replaceGlyphs kind.text) (replaceGlyphs name.text)) = _
  rw [replaceGlyphs_kind hkind, labelled]
  rw [labelPiece] at h ⊢
  cases hk : LabelKind.ofName? kind.text with
  | none =>
      rw [hk] at h
      exact (congrArg spaceCommands h).trans h
  | some k =>
      rw [hk] at h
      exact h

inductive Uniform (lex : Lexicon) : Tree → Prop
  | atom {a : Atom} : spaceCommands (replaceGlyphs a.text) = replaceGlyphs a.text →
      Uniform lex (.atom a)
  | label {kind name : Atom} :
      spaceCommands (labelPiece lex kind.text name.text) = labelPiece lex kind.text name.text →
      Uniform lex (.label kind name)
  | application {f : Atom} {ts : List Tree} :
      lex.function (replaceGlyphs f.text) = lex.function f.text →
      spaceCommands ((node (.application f) ts).value lex) = (node (.application f) ts).value lex →
      (∀ t ∈ ts, Uniform lex t) → Uniform lex (.node (.application f) ts)
  | operation {op : Operator} {ts : List Tree} :
      (op = .power → ∀ t ∈ ts.head?, t.reading lex ≠ (false, ['e'])) →
      (∀ t ∈ ts, Uniform lex t) → Uniform lex (.node (.operation op) ts)

namespace Uniform

theorem reading_replaced (hu : t.Uniform lex) (ht : t.Evaluable) :
    t.replaced.reading lex = t.reading lex := by
  induction t with
  | atom a => exact congrArg (Prod.mk true) (replaceGlyphs_idem a.text)
  | label kind name =>
      cases ht with
      | label hkind _ =>
          refine congrArg (Prod.mk false) ?_
          change labelPiece lex (replaceGlyphs kind.text) (replaceGlyphs name.text) = _
          rw [replaceGlyphs_kind hkind, labelPiece, replaceGlyphs_idem]
          rfl
  | node shape ts ih =>
      have hall (hus : ∀ t ∈ ts, Uniform lex t) (hts : ∀ t ∈ ts, Evaluable t) :
          (ts.map Tree.replaced).map (reading lex) = ts.map (reading lex) := by
        rw [List.map_map]
        exact List.map_congr_left fun t ht => ih t ht (hus t ht) (hts t ht)
      rw [replaced_node, reading_node, reading_node]
      cases hu with
      | application hf _ hus =>
          cases ht with
          | application _ _ hts =>
              rw [hall hus hts]
              refine congrArg (Prod.mk false) ?_
              change applyTemplate (lex.function (replaceGlyphs _)) _ = _
              rw [hf]
              rfl
      | operation _ hus =>
          cases ht with
          | operation _ hts =>
              rw [hall hus hts]
              rfl

theorem collapse_eq {spells : Atom → Text → Prop} (hlex : Avoids lex openMark)
    (htidy : lex.All Tidy) (hs : spells = (fun a y => y = a.text) ∨ spells = Sexp.Replaced)
    (hu : t.Uniform lex) (ht : t.Evaluable) (hform : ∀ a, t ≠ .atom a)
    (hx : Sexp.Spelled spells t.sexp x) : collapse lex x = .ok (t.value lex) := by
  rcases hs with rfl | rfl
  · exact collapse_written (n := 0) hlex htidy ht hform hx (.inl (List.append_nil x).symm)
  · have hform' : ∀ a, t.replaced ≠ .atom a := by
      cases t with
      | atom a => exact absurd rfl (hform a)
      | label kind name => exact fun a h => nomatch h
      | node shape ts => exact fun a h => nomatch h
    have hvalue : t.replaced.value lex = t.value lex :=
      congrArg Prod.snd (hu.reading_replaced ht)
    rw [← hvalue]
    exact collapse_written (n := 0) hlex htidy ht.replaced hform' (ht.written_replaced hx)
      (.inl (List.append_nil x).symm)

end Uniform

end Tree

namespace Layer

variable {lex : Lexicon} {op : Operator} {ts : List Tree} {x : Text}

section Collapsing

variable (h : Sexp.Spelled Sexp.Variant (Tree.node (.operation op) ts).sexp x)
  (hcollapse : collapse lex x = .ok ((Tree.node (.operation op) ts).value lex))

include h hcollapse

theorem readEvaluation_spelled :
    readEvaluation lex x = .ok (.arithmetic op (operands x)) ∨
      readEvaluation lex x = .ok (.done ((Tree.node (.operation op) ts).value lex)) := by
  rw [Tree.sexp_node] at h
  obtain ⟨hop, hwhole, hsplit⟩ := split_of_spelled h
  have hspaced : spacedOperands x = operands x := hsplit
  rw [readEvaluation_of_operator? lex hop, hspaced, hcollapse]
  split
  · exact .inl rfl
  · by_cases hsame : (Tree.node (.operation op) ts).value lex = x
    · exact .inl (by simp [Except.map, hsame])
    · exact .inr (by simp [Except.map, hsame])

theorem read_spelled :
    read lex x = .ok (.arithmetic op (operands x)) ∨
      read lex x = .ok (.done ((Tree.node (.operation op) ts).value lex)) := by
  have hop : operator? x = some op := operator?_of_spelled h
  cases heval : isEvaluation x with
  | true =>
      have hread : read lex x = readEvaluation lex x := by
        simp [read, h.item.trim, h.item.ne_nil, heval]
      rw [hread]
      exact readEvaluation_spelled h hcollapse
  | false => exact .inl (by simp [read, h.item.trim, h.item.ne_nil, heval, hop])

end Collapsing

end Layer

namespace Setting

variable {s : Setting} {n : Nat} {t : Tree} {x : Text}

theorem typesetWithin_uniform {spells : Atom → Text → Prop} (hlex : Avoids s.lexicon openMark)
    (htidy : s.lexicon.All Tidy)
    (hs : spells = (fun a y => y = a.text) ∨ spells = Sexp.Replaced) (hu : t.Uniform s.lexicon)
    (ht : t.Evaluable) (hn : t.height ≤ n) (hx : Sexp.Spelled spells t.sexp x) :
    s.typesetWithin n x = .ok (t.value s.lexicon) := by
  have hvariant {spells : Atom → Text → Prop}
      (hs : spells = (fun a y => y = a.text) ∨ spells = Sexp.Replaced) (a : Atom) (y : Text)
      (h : spells a y) : Sexp.Variant a y := by
    rcases hs with rfl | rfl
    · exact .inl h
    · exact .inr h
  induction n generalizing t x spells with
  | zero => exact absurd hn (Nat.not_le.mpr t.height_pos)
  | succ n ih =>
      have hspelled := hx.mono (hvariant hs)
      have hop := operator?_of_spelled hspelled
      cases hu with
      | @atom a h =>
          rw [typesetWithin_tree _ (.atom a) hn hspelled]
          exact congrArg Except.ok h
      | @label kind name h =>
          cases ht with
          | label hkind _ =>
              rw [typesetWithin_tree _ (.label kind name) hn hspelled, Tree.latex_label hkind h]
              rfl
      | @application f ts hf hspaced hus =>
          cases ht with
          | application _ _ hts =>
              have hsets : SetsAll (s.typesetWithin n) (Tree.value s.lexicon) Sexp.Replaced ts :=
                fun t ht x hx =>
                  ih (.inr rfl) (hus t ht) (hts t ht) (Tree.height_node_le.mp hn t ht) hx
              have hreplaced := hspelled.replaced
              rw [Tree.sexp_node] at hreplaced
              rw [typesetWithin_of_reads hspelled.item.ne_nil hspelled.item.trim hop
                (Reads.application hsets hreplaced), ← hspaced, Tree.value_application, ← hf]
              rfl
      | @operation op ts hbase hus =>
          have ht' := ht
          cases ht' with
          | operation hlen hts =>
              have hsets : SetsAll (s.typesetWithin n) (Tree.value s.lexicon) spells ts :=
                fun t ht x hx =>
                  ih hs (hus t ht) (hts t ht) (Tree.height_node_le.mp hn t ht) hx
              have hcollapse := Tree.Uniform.collapse_eq hlex htidy hs (.operation hbase hus) ht
                (fun a h => nomatch h) hx
              rw [typesetWithin]
              rcases Layer.read_spelled hspelled hcollapse with hread | hread
              · rw [Tree.sexp_node] at hx
                rw [hread, ok_bind, Layer.traverse_operands (hvariant hs) hsets hx,
                  Tree.value_eq_render hbase hlen]
                rfl
              · rw [hread]
                rfl

section Single

variable {op : Operator} {e : Text} (ht : (Tree.node (.operation op) [t]).Evaluable)
  (he : (Tree.node (.operation op) [t]).sexp.Written e)

include ht

theorem value_single : (Tree.node (.operation op) [t]).value s.lexicon =
    (op.render [t.value s.lexicon]).getD [] := by
  cases ht with
  | operation hlen _ =>
      refine Tree.value_eq_render ?_ hlen
      rintro rfl
      cases hlen

include he

theorem collapse_single (hlex : Avoids s.lexicon openMark) (htidy : s.lexicon.All Tidy) :
    collapse s.lexicon e = .ok ((op.render [t.value s.lexicon]).getD []) := by
  rw [← value_single ht]
  exact collapse_written (n := 0) hlex htidy ht (fun a h => nomatch h) he
    (.inl (List.append_nil e).symm)

theorem evaluate_single (hlex : Avoids s.lexicon openMark) (htidy : s.lexicon.All Tidy) :
    s.evaluate e =
      if (op.render [t.value s.lexicon]).getD [] = e then s.finish (.arithmetic op (operands e))
      else .ok ((op.render [t.value s.lexicon]).getD []) := by
  have hx := he.spelled
  rw [Tree.sexp_node] at hx
  obtain ⟨hop, -, hsplit⟩ := Layer.split_of_spelled hx
  obtain ⟨xs, hxs, hspelled⟩ := operands_of_spelled (fun _ _ h => h) hx
  have hone : (Layer.spacedOperands e).length = 1 := by
    rw [Layer.spacedOperands, hsplit, hxs, ← hspelled.length_eq]
    rfl
  have hshort : ¬ (isWhole e = true ∧ 2 ≤ (Layer.spacedOperands e).length) := by
    rw [hone]
    exact fun h => absurd h.2 (by decide)
  rw [evaluate, Layer.readEvaluation_of_operator? _ hop, if_neg hshort,
    collapse_single ht he hlex htidy, Except.map, ok_bind]
  split
  · rfl
  · rfl

omit ht in
theorem finish_single (set : Tree → Text)
    (hset : ∀ x, t.sexp.Written x → s.typeset x = .ok (set t)) :
    s.finish (.arithmetic op (operands e)) = .ok ((op.render [set t]).getD []) := by
  have hsets : SetsAll s.typeset set (fun a y => y = a.text) [t] :=
    List.forall_mem_singleton.mpr hset
  rw [Sexp.Written, Tree.sexp_node] at he
  rw [finish, Layer.traverse_operands (fun _ _ h => .inl h) hsets he]
  rfl

theorem value_single_ne (hlex : IsSlim s.lexicon) (htidy : s.lexicon.All Tidy)
    (heval : Layer.isEvaluation e = true) (hslot : '#' ∉ e) :
    (op.render [t.value s.lexicon]).getD [] ≠ e := by
  have hcollapse := collapse_single ht he hlex.avoids htidy
  have hreduced : Reduced s.lexicon [] _ e := ht.reduced he
  rw [Layer.isEvaluation, Bool.and_eq_true, Bool.or_eq_true] at heval
  intro h
  have hlt := count_collapse_lt hlex hreduced.isSealed.not_mem hslot heval.2 hcollapse
  rw [h] at hlt
  exact Nat.lt_irrefl _ hlt

end Single

theorem evaluate_agrees (s : Setting) {e : Text} {op : Operator} (hop : operator? e = some op)
    (he : Layer.isEvaluation e = true) (hw : isWhole e = true) :
    (2 ≤ (Layer.spacedOperands e).length →
      ((∀ p ∈ Layer.spacedOperands e, ¬ Touches p) →
        s.evaluate e = s.finish (.arithmetic op (operands e))) ∧
      ∀ u v, s.evaluate e = .ok u → s.finish (.arithmetic op (operands e)) = .ok v →
        ((∀ p ∈ op.used (Layer.spacedOperands e), ¬ Touches p) → u = v) ∧
        ∀ (before after : List Text) (a : Atom) (w : Text),
          op.used (Layer.spacedOperands e) = before ++ (a.text ++ '(' :: w) :: after →
          (∀ p ∈ before, ¬ Touches p) → u ≠ v) ∧
    ∀ t : Tree, (Tree.node (.operation op) [t]).Evaluable →
      (Tree.node (.operation op) [t]).sexp.Written e → t.height ≤ s.limit.levels →
      Avoids s.lexicon openMark → s.lexicon.All Tidy →
      (t.Uniform s.lexicon →
        s.evaluate e = .ok ((op.render [t.value s.lexicon]).getD []) ∧
        s.finish (.arithmetic op (operands e)) = .ok ((op.render [t.value s.lexicon]).getD [])) ∧
      (t.WellFormed → IsSlim s.lexicon → '#' ∉ e →
        s.evaluate e = .ok ((op.render [t.value s.lexicon]).getD []) ∧
        s.finish (.arithmetic op (operands e)) = .ok ((op.render [t.latex s.lexicon]).getD []) ∧
        (s.evaluate e = s.finish (.arithmetic op (operands e)) ↔
          t.value s.lexicon = t.latex s.lexicon)) := by
  refine ⟨fun hlen => ?_, fun t ht hx hn hlex htidy => ⟨fun hu => ?_, fun hwf hslim hslot => ?_⟩⟩
  · have hevaluate := evaluate_structural (s := s) hop hw hlen
    have hoperands := Layer.operands_eq_flatMap hop hw
    refine ⟨fun h => ?_, fun u v hu hv => ⟨fun h => ?_, fun before after a w hused hbefore => ?_⟩⟩
    · rw [hevaluate, hoperands, flatMap_split_operands (List.Subset.refl _) h]
    · have hkept := flatMap_split_operands (op.used_isPrefix _).subset h
      refine finish_eq_of_used ?_ (hevaluate ▸ hu) hv
      rw [hoperands, Operator.used_flatMap hlen hkept]
    · exact evaluate_ne_of_touching he hop hw hlen hused hbefore hu hv
  · have hfinish := finish_single hx (Tree.value s.lexicon) fun x hx => by
      cases ht with
      | operation _ hts =>
          exact typesetWithin_uniform hlex htidy (.inl rfl) hu (hts t (by simp)) hn hx
    refine ⟨?_, hfinish⟩
    rw [evaluate_single ht hx hlex htidy, hfinish, ite_self]
  · have hfinish := finish_single hx (Tree.latex s.lexicon) fun x => typeset_written s t hwf hn
    have hevaluate := evaluate_single ht hx hlex htidy
    rw [if_neg (value_single_ne ht hx hslim htidy he hslot)] at hevaluate
    refine ⟨hevaluate, hfinish, ?_⟩
    rw [hevaluate, hfinish, Except.ok.injEq]
    cases ht with
    | operation hlen _ => exact op.render_single_inj hlen

theorem evaluate_agrees_sum :
    Setting.evaluate ⟨.ofDeclarations {}, defaultLimit⟩ "(+ (@LABEL UNIT m) (@NTHROOT 2 x))" =
      Setting.finish ⟨.ofDeclarations {}, defaultLimit⟩
        (.arithmetic .plus (operands "(+ (@LABEL UNIT m) (@NTHROOT 2 x))")) ∧
    Setting.evaluate ⟨.ofDeclarations {}, .ofNat 3⟩ "(- (* 2 (@LABEL UNIT m)))" =
      .ok "-2 \\cdot \\mathrm\x7bm\x7d".toList ∧
    Setting.finish ⟨.ofDeclarations {}, .ofNat 3⟩
        (.arithmetic .minus (operands "(- (* 2 (@LABEL UNIT m)))")) =
      .ok "-2 \\cdot \\mathrm\x7bm\x7d".toList := by
  let two : Atom := .ofText "2" rfl
  let kind : Atom := .ofText "UNIT" rfl
  let m : Atom := .ofText "m" rfl
  let product : Tree := .node (.operation .times) [.atom two, .label kind m]
  have hproduct : product.Evaluable :=
    .operation rfl (List.forall_mem_cons.mpr ⟨.atom (by decide), List.forall_mem_singleton.mpr
      (.label (List.all_eq_true.mp rfl) (by decide))⟩)
  have hminus : (Tree.node (.operation .minus) [product]).Evaluable :=
    .operation rfl (List.forall_mem_singleton.mpr hproduct)
  have htext : (Tree.node (.operation .minus) [product]).sexp.print =
      "(- (* 2 (@LABEL UNIT m)))".toList := by
    decide +kernel
  have hwritten : (Tree.node (.operation .minus) [product]).sexp.Written
      "(- (* 2 (@LABEL UNIT m)))".toList :=
    htext ▸ Sexp.written_print _
  have huniform : product.Uniform (.ofDeclarations {}) :=
    .operation (fun h => nomatch h) (List.forall_mem_cons.mpr ⟨.atom (by decide +kernel),
      List.forall_mem_singleton.mpr (.label (by decide +kernel))⟩)
  have hvalue : (Operator.minus.render [product.value (.ofDeclarations {})]).getD [] =
      "-2 \\cdot \\mathrm\x7bm\x7d".toList := by
    decide +kernel
  have hsplit : ∀ p ∈ Layer.spacedOperands "(+ (@LABEL UNIT m) (@NTHROOT 2 x))",
      split .atGapsAndParens p = [p] := by
    decide
  refine ⟨?_, ?_⟩
  · exact ((evaluate_agrees ⟨.ofDeclarations {}, defaultLimit⟩ rfl (by decide) (by decide)).1
      (by decide)).1 fun p hp => (split_eq_singleton_iff hp).mp (hsplit p hp)
  · have hagree := ((evaluate_agrees ⟨.ofDeclarations {}, .ofNat 3⟩ rfl (by decide)
      (by decide)).2 product hminus hwritten (by decide) (avoids_default (.inl rfl))
      all_tidy_default).1 huniform
    rwa [hvalue] at hagree

theorem evaluate_disagrees :
    List.map (fun e => (Layer.isEvaluation e && isWhole e,
        (Setting.evaluate ⟨.ofDeclarations {}, .ofNat 4⟩ e).toOption,
        (operator? e).bind fun op => Except.toOption <|
          Setting.finish ⟨.ofDeclarations {}, .ofNat 4⟩ (.arithmetic op (operands e))))
      ["(- (@NTHROOT 2 (@LABEL VARIABLE x)))",
        "(+ a x(@LABEL VARIABLE y))",
        "(+ (@LABEL UNIT kg)(@LABEL UNIT m))",
        "(+(@LABEL UNIT kg))",
        "(/ (@LABEL UNIT m))",
        "(- (@APPLY φ (@ARGS x)))",
        "(- (^ (@LABEL VARIABLE e) x))",
        "(- (* αx (@LABEL UNIT m)))"] =
      [(true, some "2 - x".toList, some "-\\sqrt\x7bx\x7d".toList),
        (true, some "a + x(@LABEL VARIABLE y)".toList, some "a + x + y".toList),
        (true, some "\\mathrm\x7bkg\x7d\\mathrm\x7bm\x7d".toList,
          some "\\mathrm\x7bkg\x7d + \\mathrm\x7bm\x7d".toList),
        (true, some "(+\\mathrm\x7bkg\x7d)".toList, some "\\mathrm\x7bkg\x7d".toList),
        (true, some "(/ \\mathrm\x7bm\x7d)".toList, some "".toList),
        (true, some "-φ(x)".toList, some "-\\phi(x)".toList),
        (true, some "-\x7be\x7d^\x7bx\x7d".toList, some "-e^\x7bx\x7d".toList),
        (true, some "-\\alphax \\cdot \\mathrm\x7bm\x7d".toList,
          some "-\\alpha x \\cdot \\mathrm\x7bm\x7d".toList)] := by
  decide +kernel

end Setting

end WorksheetTex
