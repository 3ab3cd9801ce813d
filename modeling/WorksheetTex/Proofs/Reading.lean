import Mathlib.Data.List.TakeWhile
import WorksheetTex.Proofs.Tree

namespace WorksheetTex

open Text Tex Paren Vocabulary Form Evaluation Numeral

abbrev Sexp.Replaced (a : Atom) (t : Text) : Prop :=
  t = replaceGlyphs a.text

theorem Sexp.Spelled.variant {e : Sexp} {t : Text} (h : Spelled Replaced e t) :
    Spelled Variant e t :=
  h.mono fun _ _ h => .inr h

section Filling

variable {f : Text → Except Fault Text}

theorem ok_bind {α β : Type} (a : α) (g : α → Except Fault β) : (Except.ok a >>= g) = g a := rfl

theorem traverseList_ok {ts vs : List Text} (h : List.Forall₂ (fun t v => f t = .ok v) ts vs) :
    traverseList f ts = .ok vs := by
  induction h with
  | nil => rfl
  | cons hv _ ih =>
      rw [traverseList, hv, ok_bind, ih]
      rfl

theorem traverseOption_ok {t v : Text} (h : f t = .ok v) :
    traverseOption f (some t) = .ok (some v) := by
  rw [traverseOption, h]
  rfl

def SetsAll (f : Text → Except Fault Text) (set : Tree → Text) (spells : Atom → Text → Prop)
    (children : List Tree) : Prop :=
  ∀ t ∈ children, ∀ x, Sexp.Spelled spells t.sexp x → f x = .ok (set t)

theorem SetsAll.forall₂ {set : Tree → Text} {spells : Atom → Text → Prop} {children : List Tree}
    {ts : List Text} (hf : SetsAll f set spells children)
    (h : List.Forall₂ (Sexp.Spelled spells) (children.map Tree.sexp) ts) :
    List.Forall₂ (fun t v => f t = .ok v) ts (children.map set) := by
  rw [List.forall₂_map_left_iff] at h
  rw [List.forall₂_map_right_iff]
  exact (Sexp.forall₂_of_mem h hf).flip

end Filling

theorem arguments_of_spelled {head : Keyword} {items : List Sexp} {y : Text}
    (h : Sexp.Spelled Sexp.Replaced (.form head items) y) :
    ∃ ts, arguments y = ts ∧ List.Forall₂ (Sexp.Spelled Sexp.Replaced) items ts := by
  cases h with
  | @form _ _ ts body hitems hspread =>
      have hi := Sexp.items_of_spelled (hitems.imp fun _ _ h => h.variant)
      have hhead : ∀ c ∈ head.text, isGap c = false ∧ c ≠ '(' := fun c hc =>
        ⟨head.not_gap hc, (ne_of_not_paren (head.not_paren hc)).1⟩
      exact ⟨ts, hspread.arguments hi hhead, hitems⟩

theorem head_of_spread {ts : List Text} {body : Text} (h : Spread ts body) :
    ∀ c ∈ (body ++ [')']).head?, isTagLetter c = false := by
  cases h with
  | nil =>
      rintro c hc
      obtain rfl : c = ')' := by simpa [eq_comm] using hc
      rfl
  | @cons g t r ts hg hr =>
      obtain ⟨d, g, rfl⟩ := List.exists_cons_of_ne_nil hg.1
      rintro c hc
      obtain rfl : d = c := by simpa using hc
      have hd := hg.2 d (by simp)
      simp only [isGap, Bool.or_eq_true, beq_iff_eq] at hd
      rcases hd with ((rfl | rfl) | rfl) | rfl <;> rfl

theorem tag?_of_spelled {head : Keyword} {items : List Sexp} {y w : Text}
    (h : Sexp.Spelled Sexp.Replaced (.form head items) y) (hw : head.text = '@' :: w)
    (hne : w ≠ []) (hl : w.all isTagLetter = true) :
    tag? y = tagNames.lookup head.text := by
  cases h with
  | @form _ _ ts body hitems hspread =>
      have htake := takeWhile_append_of_head (List.all_eq_true.mp hl) (head_of_spread hspread)
      rw [tag?, hw]
      simp only [List.cons_append, tagName?, htake]
      simp [hne]

theorem text_of_spelled {spells : Atom → Text → Prop} {head : Keyword} {items : List Sexp}
    {x : Text} (h : Sexp.Spelled spells (.form head items) x) :
    ∃ r, x = '(' :: (head.text ++ r) := by
  cases h with
  | form _ _ => exact ⟨_, rfl⟩

theorem given_of_spelled {x : Text} (h : Sexp.Spelled Sexp.Replaced (.atom placeholder) x) :
    given x = none := by
  cases h with
  | atom h =>
      have hp : replaceGlyphs placeholder.text = placeholder.text := replaceGlyphs_ascii rfl
      rw [h, hp]
      exact if_pos rfl

theorem ne_placeholder_of_spelled {t : Tree} {x : Text}
    (h : Sexp.Spelled Sexp.Replaced t.sexp x) (ht : t ≠ .atom placeholder) :
    x ≠ "@PLACEHOLDER".toList := by
  rintro rfl
  cases t with
  | atom a =>
      cases h with
      | atom h =>
          have ha : a.text = "@PLACEHOLDER".toList := eq_of_replaceGlyphs_eq (by rfl) h.symm
          obtain ⟨t, _, _⟩ := a
          subst ha
          exact ht rfl
  | label kind name =>
      obtain ⟨r, hr⟩ := text_of_spelled h
      exact absurd (List.cons.inj hr).1 (by decide)
  | node shape ts =>
      rw [Tree.sexp_node] at h
      obtain ⟨r, hr⟩ := text_of_spelled h
      exact absurd (List.cons.inj hr).1 (by decide)

theorem operator?_of_spelled {t : Tree} {x : Text} (h : Sexp.Spelled Sexp.Variant t.sexp x) :
    operator? x = t.operator? := by
  cases t with
  | atom a =>
      cases h with
      | atom h =>
          obtain ⟨b, rfl⟩ := h.exists_atom
          obtain ⟨c, r, hc, hp⟩ := b.exists_cons
          rw [hc]
          unfold Form.operator?
          split
          · simp_all
          · rfl
  | label kind name =>
      obtain ⟨r, rfl⟩ := text_of_spelled h
      rfl
  | node shape ts =>
      rw [Tree.sexp_node] at h
      obtain ⟨r, rfl⟩ := text_of_spelled h
      cases shape with
      | operation op => exact Operator.ofChar?_symbol op
      | relation r => cases r <;> rfl
      | series s _ => cases s <;> rfl
      | connective c => cases c <;> rfl
      | _ => rfl

theorem operands_of_spelled {spells : Atom → Text → Prop} {op : Operator} {es : List Sexp}
    {x : Text}
    (hs : ∀ a t, spells a t → Sexp.Variant a t)
    (h : Sexp.Spelled spells ((Shape.operation op).sexp es) x) :
    ∃ ts, operands x = ts ∧ List.Forall₂ (Sexp.Spelled spells) es ts := by
  cases h with
  | @form _ _ ts body hitems hspread =>
      have hi := Sexp.items_of_spelled (hitems.imp fun _ _ h => h.mono hs)
      exact ⟨ts, hspread.operands hi op, hitems⟩

theorem readConstant_atom (lex : Lexicon) (a : Atom) :
    readConstant lex a.text = .plain (lex.label .constant a.text) := by
  obtain ⟨c, r, hc, hp⟩ := a.exists_cons
  have hstart : startsWith a.text "(@ID" = false := by
    rw [hc]
    simp [startsWith, List.isPrefixOf, Ne.symm hp]
  cases hfind : lex.constants.find? a.text with
  | none =>
      simp only [readConstant, Lexicon.label, hfind, hstart]
      rfl
  | some t => simp [readConstant, Lexicon.label, hfind]

def Reads (f : Text → Except Fault Text) (lex : Lexicon) (y layout : Text) : Prop :=
  ∃ form filled, Form.read lex y = .ok form ∧ form.traverse f = .ok filled ∧
    filled.layout lex = layout

namespace Reads

variable {f : Text → Except Fault Text} {lex : Lexicon} {y : Text} {children : List Tree}

theorem of_tag {tag : Tag} {form filled : Form Text} {layout : Text} (ht : tag? y = some tag)
    (hr : readTagged lex tag y = .ok form) (hf : form.traverse f = .ok filled)
    (hl : filled.layout lex = layout) : Reads f lex y layout := by
  refine ⟨form, filled, ?_, hf, hl⟩
  rw [Form.read, ht]
  exact hr

theorem integral {l u b v : Tree} (hf : SetsAll f (Tree.latex lex) Sexp.Replaced [l, u, b, v])
    (h : Sexp.Spelled Sexp.Replaced (Shape.integral.sexp ([l, u, b, v].map Tree.sexp)) y) :
    Reads f lex y (Shape.integral.template lex ([l, u, b, v].map (Tree.latex lex))) := by
  have htag : tag? y = some .integral := tag?_of_spelled h rfl (by decide) rfl
  obtain ⟨ts, hts, hargs⟩ := arguments_of_spelled h
  match ts, hf.forall₂ hargs with
  | [x₁, x₂, x₃, x₄], .cons hl (.cons hu (.cons hb (.cons hv .nil))) =>
      have hr : readTagged lex .integral y = .ok (.integral x₁ x₂ x₃ x₄) := by
        simp only [readTagged, hts]
      have hfill : (Form.integral x₁ x₂ x₃ x₄).traverse f =
          .ok (.integral (l.latex lex) (u.latex lex) (b.latex lex) (v.latex lex)) := by
        rw [Form.traverse, hl, hu, hb, hv]
        rfl
      exact of_tag htag hr hfill rfl

theorem relation {r : Relation} {a b : Tree} (hf : SetsAll f (Tree.latex lex) Sexp.Replaced [a, b])
    (h : Sexp.Spelled Sexp.Replaced ((Shape.relation r).sexp ([a, b].map Tree.sexp)) y) :
    Reads f lex y ((Shape.relation r).template lex ([a, b].map (Tree.latex lex))) := by
  have htag : tag? y = some (.relation r) := by
    cases r <;> exact tag?_of_spelled h rfl (by decide) rfl
  obtain ⟨ts, hts, hargs⟩ := arguments_of_spelled h
  match ts, hf.forall₂ hargs with
  | [x₁, x₂], .cons ha (.cons hb .nil) =>
      have hr : readTagged lex (.relation r) y = .ok (.relation r x₁ x₂) := by
        simp only [readTagged, hts]
      have hfill : (Form.relation r x₁ x₂).traverse f =
          .ok (.relation r (a.latex lex) (b.latex lex)) := by
        rw [Form.traverse, ha, hb]
        rfl
      exact of_tag htag hr hfill rfl

theorem connective {c : Connective} {a b : Tree} {more : List Tree}
    (hf : SetsAll f (Tree.latex lex) Sexp.Replaced (a :: b :: more))
    (h : Sexp.Spelled Sexp.Replaced
      ((Shape.connective c).sexp ((a :: b :: more).map Tree.sexp)) y) :
    Reads f lex y ((Shape.connective c).template lex ((a :: b :: more).map (Tree.latex lex))) := by
  have htag : tag? y = some (.connective c) := by
    cases c <;> exact tag?_of_spelled h rfl (by decide) rfl
  obtain ⟨ts, hts, hargs⟩ := arguments_of_spelled h
  match ts, hf.forall₂ hargs with
  | x₁ :: x₂ :: xs, hfill =>
      have hr : readTagged lex (.connective c) y = .ok (.connective c (x₁ :: x₂ :: xs)) := by
        simp only [readTagged, hts]
      have hfill : (Form.connective c (x₁ :: x₂ :: xs)).traverse f =
          .ok (.connective c ((a :: b :: more).map (Tree.latex lex))) := by
        rw [Form.traverse, traverseList_ok hfill]
        rfl
      exact of_tag htag hr hfill rfl

theorem unary {shape : Shape} {tag : Tag} (make : Text → Form Text) {a : Tree}
    (hitems : shape.items [a.sexp] = [a.sexp]) (hf : SetsAll f (Tree.latex lex) Sexp.Replaced [a])
    (h : Sexp.Spelled Sexp.Replaced (shape.sexp ([a].map Tree.sexp)) y) (htag : tag? y = some tag)
    (hread : ∀ x, arguments y = [x] → readTagged lex tag y = .ok (make x))
    (hfill : ∀ x v, f x = .ok v → (make x).traverse f = .ok (make v)) :
    Reads f lex y ((make (a.latex lex)).layout lex) := by
  obtain ⟨ts, hts, hargs⟩ := arguments_of_spelled h
  rw [List.map_singleton, hitems] at hargs
  match ts, hf.forall₂ hargs with
  | [x], .cons ha .nil => exact of_tag htag (hread x hts) (hfill x _ ha) rfl

theorem negation {a : Tree} (hf : SetsAll f (Tree.latex lex) Sexp.Replaced [a])
    (h : Sexp.Spelled Sexp.Replaced (Shape.negation.sexp ([a].map Tree.sexp)) y) :
    Reads f lex y (Shape.negation.template lex ([a].map (Tree.latex lex))) := by
  refine unary .negation rfl hf h (tag?_of_spelled h rfl (by decide) rfl) ?_ ?_
  · intro x hx
    simp only [readTagged, hx]
  · intro x v hv
    rw [Form.traverse, hv]
    rfl

theorem parens {a : Tree} (hf : SetsAll f (Tree.latex lex) Sexp.Replaced [a])
    (h : Sexp.Spelled Sexp.Replaced (Shape.parens.sexp ([a].map Tree.sexp)) y) :
    Reads f lex y (Shape.parens.template lex ([a].map (Tree.latex lex))) := by
  refine unary .parenthesized rfl hf h (tag?_of_spelled h rfl (by decide) rfl) ?_ ?_
  · intro x hx
    simp only [readTagged, hx]
  · intro x v hv
    rw [Form.traverse, hv]
    rfl

theorem oppositeLayout_eq (t : Text) : oppositeLayout t = Shape.opposite.template lex [t] := by
  have hany : (t.any fun c => c == ' ' || c == '+' || c == '-') = true ↔
      ' ' ∈ t ∨ '+' ∈ t ∨ '-' ∈ t := by
    simp only [List.any_eq_true, Bool.or_eq_true, beq_iff_eq]
    constructor
    · rintro ⟨c, hc, (rfl | rfl) | rfl⟩ <;> simp [hc]
    · rintro (hc | hc | hc) <;> exact ⟨_, hc, by simp⟩
  have htemplate : Shape.opposite.template lex [t] =
      if ' ' ∈ t ∨ '+' ∈ t ∨ '-' ∈ t then "-\\left(" ++ t ++ "\\right)" else '-' :: t := rfl
  rw [htemplate]
  simp only [oppositeLayout, hany]
  rfl

theorem opposite {a : Tree} (hf : SetsAll f (Tree.latex lex) Sexp.Replaced [a])
    (h : Sexp.Spelled Sexp.Replaced (Shape.opposite.sexp ([a].map Tree.sexp)) y) :
    Reads f lex y (Shape.opposite.template lex ([a].map (Tree.latex lex))) := by
  rw [List.map_singleton, ← oppositeLayout_eq]
  refine unary .opposite rfl hf h (tag?_of_spelled h rfl (by decide) rfl) ?_ ?_
  · intro x hx
    simp only [readTagged, hx]
  · intro x v hv
    rw [Form.traverse, hv]
    rfl

theorem writtenOrder_some (silent : List Text) (n : Text) :
    writtenOrder silent (some n) = if silent.contains n then none else some n := by
  cases h : silent.contains n <;> simp only [writtenOrder, Option.filter, h] <;> rfl

theorem layout_derivative_none (v b : Text) :
    layout lex (.derivative v none b) = (Shape.derivative false).template lex [v, b] := by
  have hl : layout lex (.derivative v none b) =
      frac (upright "d") (upright "d" ++ [] ++ v) ++ " " ++ b := rfl
  have ht : (Shape.derivative false).template lex [v, b] =
      frac (upright "d") (upright "d" ++ v) ++ " " ++ b := rfl
  rw [hl, ht, List.append_nil]

theorem layout_derivative_some (v n b : Text) :
    layout lex (.derivative v (some n) b) = (Shape.derivative true).template lex [v, n, b] := by
  have hl : layout lex (.derivative v (some n) b) =
      differential (upright "d") [] v (writtenOrder ["1"] (some n)) b := rfl
  have ht : (Shape.derivative true).template lex [v, n, b] =
      if n = ['1'] then frac (upright "d") (upright "d" ++ v) ++ " " ++ b
      else frac (upright "d" ++ sup n) (upright "d" ++ v ++ sup n) ++ " " ++ b := rfl
  rw [hl, ht, writtenOrder_some]
  by_cases h : n = ['1'] <;> simp [differential, h]

theorem layout_root_some (n r : Text) :
    layout lex (.root (some n) r) = (Shape.root true).template lex [n, r] := by
  have ht : (Shape.root true).template lex [n, r] =
      if n = [] ∨ n = ['2'] then "\\sqrt" ++ group r else "\\sqrt[" ++ n ++ "]" ++ group r := rfl
  delta layout
  dsimp only
  rw [ht, writtenOrder_some]
  by_cases h : n = [] ∨ n = ['2'] <;> simp [h]

theorem derivative_unordered {v b : Tree} (hf : SetsAll f (Tree.latex lex) Sexp.Replaced [v, b])
    (h : Sexp.Spelled Sexp.Replaced ((Shape.derivative false).sexp ([v, b].map Tree.sexp)) y) :
    Reads f lex y ((Shape.derivative false).template lex ([v, b].map (Tree.latex lex))) := by
  have htag : tag? y = some .derivative := tag?_of_spelled h rfl (by decide) rfl
  obtain ⟨ts, hts, hargs⟩ := arguments_of_spelled h
  change List.Forall₂ _ [v.sexp, .atom placeholder, b.sexp] ts at hargs
  simp only [List.forall₂_cons_left_iff, List.forall₂_nil_left_iff] at hargs
  obtain ⟨x₁, _, hv, ⟨x₂, _, hp, ⟨x₃, _, hb, rfl, rfl⟩, rfl⟩, rfl⟩ := hargs
  have hr : readTagged lex .derivative y = .ok (.derivative x₁ none x₃) := by
    simp only [readTagged, hts, given_of_spelled hp]
  have hfill : (Form.derivative x₁ none x₃).traverse f =
      .ok (.derivative (v.latex lex) none (b.latex lex)) := by
    rw [Form.traverse, hf v (by simp) _ hv, hf b (by simp) _ hb]
    rfl
  exact of_tag htag hr hfill (layout_derivative_none _ _)

theorem derivative_ordered {v n b : Tree} (hn : n ≠ .atom placeholder)
    (hf : SetsAll f (Tree.latex lex) Sexp.Replaced [v, n, b])
    (h : Sexp.Spelled Sexp.Replaced ((Shape.derivative true).sexp ([v, n, b].map Tree.sexp)) y) :
    Reads f lex y ((Shape.derivative true).template lex ([v, n, b].map (Tree.latex lex))) := by
  have htag : tag? y = some .derivative := tag?_of_spelled h rfl (by decide) rfl
  obtain ⟨ts, hts, hargs⟩ := arguments_of_spelled h
  change List.Forall₂ _ [v.sexp, n.sexp, b.sexp] ts at hargs
  simp only [List.forall₂_cons_left_iff, List.forall₂_nil_left_iff] at hargs
  obtain ⟨x₁, _, hv, ⟨x₂, _, ho, ⟨x₃, _, hb, rfl, rfl⟩, rfl⟩, rfl⟩ := hargs
  have hgiven : given x₂ = some x₂ := if_neg (ne_placeholder_of_spelled ho hn)
  have hr : readTagged lex .derivative y = .ok (.derivative x₁ (some x₂) x₃) := by
    simp only [readTagged, hts, hgiven]
  have hfill : (Form.derivative x₁ (some x₂) x₃).traverse f =
      .ok (.derivative (v.latex lex) (some (n.latex lex)) (b.latex lex)) := by
    rw [Form.traverse, hf v (by simp) _ hv, traverseOption_ok (hf n (by simp) _ ho),
      hf b (by simp) _ hb]
    rfl
  exact of_tag htag hr hfill (layout_derivative_some _ _ _)

theorem root_unordered {r : Tree} (hf : SetsAll f (Tree.latex lex) Sexp.Replaced [r])
    (h : Sexp.Spelled Sexp.Replaced ((Shape.root false).sexp ([r].map Tree.sexp)) y) :
    Reads f lex y ((Shape.root false).template lex ([r].map (Tree.latex lex))) := by
  have htag : tag? y = some .root := tag?_of_spelled h rfl (by decide) rfl
  obtain ⟨ts, hts, hargs⟩ := arguments_of_spelled h
  change List.Forall₂ _ [.atom placeholder, r.sexp] ts at hargs
  simp only [List.forall₂_cons_left_iff, List.forall₂_nil_left_iff] at hargs
  obtain ⟨x₁, _, hp, ⟨x₂, _, hx, rfl, rfl⟩, rfl⟩ := hargs
  have hr : readTagged lex .root y = .ok (.root none x₂) := by
    simp only [readTagged, hts, given_of_spelled hp]
  have hfill : (Form.root none x₂).traverse f = .ok (.root none (r.latex lex)) := by
    rw [Form.traverse, hf r (by simp) _ hx]
    rfl
  exact of_tag htag hr hfill rfl

theorem root_ordered {n r : Tree} (hn : n ≠ .atom placeholder)
    (hf : SetsAll f (Tree.latex lex) Sexp.Replaced [n, r])
    (h : Sexp.Spelled Sexp.Replaced ((Shape.root true).sexp ([n, r].map Tree.sexp)) y) :
    Reads f lex y ((Shape.root true).template lex ([n, r].map (Tree.latex lex))) := by
  have htag : tag? y = some .root := tag?_of_spelled h rfl (by decide) rfl
  obtain ⟨ts, hts, hargs⟩ := arguments_of_spelled h
  change List.Forall₂ _ [n.sexp, r.sexp] ts at hargs
  simp only [List.forall₂_cons_left_iff, List.forall₂_nil_left_iff] at hargs
  obtain ⟨x₁, _, ho, ⟨x₂, _, hx, rfl, rfl⟩, rfl⟩ := hargs
  have hgiven : given x₁ = some x₁ := if_neg (ne_placeholder_of_spelled ho hn)
  have hr : readTagged lex .root y = .ok (.root (some x₁) x₂) := by
    simp only [readTagged, hts, hgiven]
  have hfill : (Form.root (some x₁) x₂).traverse f =
      .ok (.root (some (n.latex lex)) (r.latex lex)) := by
    rw [Form.traverse, traverseOption_ok (hf n (by simp) _ ho), hf r (by simp) _ hx]
    rfl
  exact of_tag htag hr hfill (layout_root_some _ _)

theorem series_tag {s : Series} {start : Start} {es : List Sexp}
    (h : Sexp.Spelled Sexp.Replaced ((Shape.series s start).sexp es) y) :
    tag? y = some (.series s) := by
  cases s <;> exact tag?_of_spelled h rfl (by decide) rfl

theorem series_related {s : Series} {i a u b : Tree}
    (hf : SetsAll f (Tree.latex lex) Sexp.Replaced [i, a, u, b])
    (h : Sexp.Spelled Sexp.Replaced
      ((Shape.series s .related).sexp ([i, a, u, b].map Tree.sexp)) y) :
    Reads f lex y ((Shape.series s .related).template lex ([i, a, u, b].map (Tree.latex lex))) := by
  obtain ⟨ts, hts, hargs⟩ := arguments_of_spelled h
  change List.Forall₂ _ [Sexp.form (keyword "@IS" rfl) [i.sexp, a.sexp], u.sexp, b.sexp] ts at hargs
  simp only [List.forall₂_cons_left_iff, List.forall₂_nil_left_iff] at hargs
  obtain ⟨x₁, _, hx, ⟨x₂, _, hu, ⟨x₃, _, hb, rfl, rfl⟩, rfl⟩, rfl⟩ := hargs
  obtain ⟨us, hus, hinner⟩ := arguments_of_spelled hx
  simp only [List.forall₂_cons_left_iff, List.forall₂_nil_left_iff] at hinner
  obtain ⟨z₁, _, hi, ⟨z₂, _, ha, rfl, rfl⟩, rfl⟩ := hinner
  have hstart : startsWith x₁ "(@IS" = true := by
    obtain ⟨r, rfl⟩ := text_of_spelled hx
    rfl
  have hr : readTagged lex (.series s) y = .ok (.series s (some z₁) (some z₂) x₂ x₃) := by
    simp only [readTagged, hts, readSeries, hstart, hus, if_true]
  have hfill : (Form.series s (some z₁) (some z₂) x₂ x₃).traverse f =
      .ok (.series s (some (i.latex lex)) (some (a.latex lex)) (u.latex lex) (b.latex lex)) := by
    rw [Form.traverse, traverseOption_ok (hf i (by simp) _ hi),
      traverseOption_ok (hf a (by simp) _ ha),
      hf u (by simp) _ hu, hf b (by simp) _ hb]
    rfl
  exact of_tag (series_tag h) hr hfill rfl

theorem not_startsWith_of_spelled {t : Tree} {x : Text}
    (h : Sexp.Spelled Sexp.Replaced t.sexp x) (ht : ¬ t.IsRelation) :
    startsWith x "(@IS" = false := by
  cases t with
  | atom a =>
      cases h with
      | atom h =>
          obtain ⟨c, r, hc, hp⟩ := a.replaced.exists_cons
          rw [h]
          change startsWith a.replaced.text "(@IS" = false
          rw [hc]
          simp [startsWith, List.isPrefixOf, Ne.symm hp]
  | label kind name =>
      obtain ⟨r, rfl⟩ := text_of_spelled h
      rfl
  | node shape ts =>
      rw [Tree.sexp_node] at h
      obtain ⟨r, rfl⟩ := text_of_spelled h
      cases shape with
      | operation op => cases op <;> rfl
      | relation r =>
          cases r with
          | equal => exact absurd ⟨ts, rfl⟩ ht
          | _ => rfl
      | series s _ => cases s <;> rfl
      | connective c => cases c <;> rfl
      | _ => rfl

theorem series_given {s : Series} {i a u b : Tree} (hi : ¬ i.IsRelation)
    (hf : SetsAll f (Tree.latex lex) Sexp.Replaced [i, a, u, b])
    (h : Sexp.Spelled Sexp.Replaced ((Shape.series s .given).sexp ([i, a, u, b].map Tree.sexp)) y) :
    Reads f lex y ((Shape.series s .given).template lex ([i, a, u, b].map (Tree.latex lex))) := by
  obtain ⟨ts, hts, hargs⟩ := arguments_of_spelled h
  change List.Forall₂ _ [i.sexp, a.sexp, u.sexp, b.sexp] ts at hargs
  simp only [List.forall₂_cons_left_iff, List.forall₂_nil_left_iff] at hargs
  obtain ⟨x₁, _, hx, ⟨x₂, _, ha, ⟨x₃, _, hu, ⟨x₄, _, hb, rfl, rfl⟩, rfl⟩, rfl⟩, rfl⟩ := hargs
  have hr : readTagged lex (.series s) y = .ok (.series s (some x₁) (some x₂) x₃ x₄) := by
    simp only [readTagged, hts, readSeries, not_startsWith_of_spelled hx hi]
    rfl
  have hfill : (Form.series s (some x₁) (some x₂) x₃ x₄).traverse f =
      .ok (.series s (some (i.latex lex)) (some (a.latex lex)) (u.latex lex) (b.latex lex)) := by
    rw [Form.traverse, traverseOption_ok (hf i (by simp) _ hx),
      traverseOption_ok (hf a (by simp) _ ha),
      hf u (by simp) _ hu, hf b (by simp) _ hb]
    rfl
  exact of_tag (series_tag h) hr hfill rfl

theorem series_silent {s : Series} {i u b : Tree} (hi : ¬ i.IsRelation)
    (hf : SetsAll f (Tree.latex lex) Sexp.Replaced [i, u, b])
    (h : Sexp.Spelled Sexp.Replaced ((Shape.series s .silent).sexp ([i, u, b].map Tree.sexp)) y) :
    Reads f lex y ((Shape.series s .silent).template lex ([i, u, b].map (Tree.latex lex))) := by
  obtain ⟨ts, hts, hargs⟩ := arguments_of_spelled h
  change List.Forall₂ _ [i.sexp, u.sexp, b.sexp] ts at hargs
  simp only [List.forall₂_cons_left_iff, List.forall₂_nil_left_iff] at hargs
  obtain ⟨x₁, _, hx, ⟨x₂, _, hu, ⟨x₃, _, hb, rfl, rfl⟩, rfl⟩, rfl⟩ := hargs
  have hr : readTagged lex (.series s) y = .ok (.series s (some x₁) none x₂ x₃) := by
    simp only [readTagged, hts, readSeries, not_startsWith_of_spelled hx hi]
    rfl
  have hfill : (Form.series s (some x₁) none x₂ x₃).traverse f =
      .ok (.series s (some (i.latex lex)) none (u.latex lex) (b.latex lex)) := by
    rw [Form.traverse, traverseOption_ok (hf i (by simp) _ hx), hf u (by simp) _ hu,
      hf b (by simp) _ hb]
    rfl
  have hlayout : layout lex (.series s (some (i.latex lex)) none (u.latex lex) (b.latex lex)) =
      s.command ++ sub (i.latex lex ++ "=" ++ "1") ++ sup (u.latex lex) ++ " " ++ b.latex lex := rfl
  refine of_tag (series_tag h) hr hfill ?_
  rw [hlayout, List.append_assoc (i.latex lex)]
  rfl

theorem application {g : Atom} {children : List Tree} {set : Tree → Text}
    (hf : SetsAll f set Sexp.Replaced children)
    (h : Sexp.Spelled Sexp.Replaced ((Shape.application g).sexp (children.map Tree.sexp)) y) :
    Reads f lex y ((Shape.application g).template lex (children.map set)) := by
  have htag : tag? y = some .apply := tag?_of_spelled h rfl (by decide) rfl
  obtain ⟨ts, hts, hargs⟩ := arguments_of_spelled h
  change List.Forall₂ _
    [Sexp.atom g, .form (keyword "@ARGS" rfl) (children.map Tree.sexp)] ts at hargs
  simp only [List.forall₂_cons_left_iff, List.forall₂_nil_left_iff] at hargs
  obtain ⟨x₁, _, hg, ⟨x₂, _, hx, rfl, rfl⟩, rfl⟩ := hargs
  obtain ⟨us, hus, hinner⟩ := arguments_of_spelled hx
  have hg : x₁ = g.replaced.text := by
    cases hg with
    | atom h => exact h
  have hcallee : readCallee lex x₁ = .known (lex.function x₁) := by
    obtain ⟨c, r, hc, hp⟩ := g.replaced.exists_cons
    rw [hg, hc]
    simp [readCallee, startsWith, List.isPrefixOf, Ne.symm hp]
  have hstart : startsWith x₂ "(@ARGS" = true := by
    obtain ⟨r, rfl⟩ := text_of_spelled hx
    rfl
  have hr : readTagged lex .apply y =
      .ok (.application (.known (lex.function x₁)) (some us)) := by
    simp only [readTagged, hts, readApplication, hcallee, hstart, if_true, hus]
  have hfill : (Form.application (.known (lex.function x₁)) (some us)).traverse f =
      .ok (.application (.known (lex.function x₁)) (some (children.map set))) := by
    rw [Form.traverse, traverseList_ok (hf.forall₂ hinner)]
    rfl
  refine of_tag htag hr hfill ?_
  rw [hg]
  rfl

theorem leadingInteger_figure (n : Figure) : leadingInteger n.digits = some n.value := by
  obtain ⟨c, r, hc⟩ := List.exists_cons_of_ne_nil n.ne_nil
  have hd : c.isDigit = true := n.isDigit c (by simp [hc])
  have hb : isBlank c = false := n.atom.not_blank (by simp [Figure.atom, hc])
  have htrim : trimStart n.digits = n.digits := trimStart_of_head? (by simp [hc, hb])
  have hsign : takeSign n.digits = (false, n.digits) := by
    rw [hc]
    have hm : c ≠ '-' ∧ c ≠ '+' := by
      constructor <;> rintro rfl <;> simp at hd
    unfold takeSign
    split
    · simp_all
    · simp_all
    · rfl
  have htake : n.digits.takeWhile Char.isDigit = n.digits :=
    List.takeWhile_eq_self_iff.mpr fun c hc => n.isDigit c hc
  simp [leadingInteger, htrim, hsign, htake, n.ne_nil, Figure.value]

theorem padded_eq (columns : Nat) (ts : List Text) :
    ts.take columns ++ List.replicate (columns - (ts.take columns).length) ['0'] =
      (List.range columns).map fun j => ts[j]?.getD ['0'] := by
  induction columns generalizing ts with
  | zero => simp
  | succ columns ih =>
      rw [List.range_succ_eq_map, List.map_cons, List.map_map]
      cases ts with
      | nil => simp [List.replicate_succ, Function.comp_def]
      | cons t ts => simpa [Function.comp_def] using ih ts

theorem matrixRows_eq (columns rows : Nat) (ts : List Text) :
    matrixRows columns rows (ts.take (rows * columns)) =
      (List.range rows).map fun i =>
        (List.range columns).map fun j => ts[i * columns + j]?.getD ['0'] := by
  induction rows generalizing ts with
  | zero => rfl
  | succ rows ih =>
      have hrow : (ts.take ((rows + 1) * columns)).take columns = ts.take columns := by
        rw [List.take_take, Nat.min_eq_left (Nat.le_mul_of_pos_left _ (Nat.succ_pos rows))]
      have hrest : (ts.take ((rows + 1) * columns)).drop columns =
          (ts.drop columns).take (rows * columns) := by
        rw [List.drop_take, Nat.succ_mul, Nat.add_sub_cancel]
      have hindex : ∀ i j, (i + 1) * columns + j = columns + (i * columns + j) := fun i j => by
        rw [Nat.succ_mul]
        omega
      rw [matrixRows, hrow, hrest, padded_eq, ih, List.range_succ_eq_map, List.map_cons,
        List.map_map]
      simp [Function.comp_def, hindex]

theorem matrix {r c : Figure} {children : List Tree} (hsize : r.value * c.value ≤ 4096)
    (hne : 1 ≤ children.length) (hf : SetsAll f (Tree.latex lex) Sexp.Replaced children)
    (h : Sexp.Spelled Sexp.Replaced ((Shape.matrix r c).sexp (children.map Tree.sexp)) y) :
    Reads f lex y ((Shape.matrix r c).template lex (children.map (Tree.latex lex))) := by
  have htag : tag? y = some .matrix := tag?_of_spelled h rfl (by decide) rfl
  obtain ⟨ts, hts, hargs⟩ := arguments_of_spelled h
  change List.Forall₂ _ (Sexp.atom r.atom :: .atom c.atom :: children.map Tree.sexp) ts at hargs
  simp only [List.forall₂_cons_left_iff] at hargs
  obtain ⟨x₁, _, hr, ⟨x₂, us, hc, hus, rfl⟩, rfl⟩ := hargs
  have digits_of_spelled {n : Figure} {x : Text}
      (h : Sexp.Spelled Sexp.Replaced (.atom n.atom) x) : x = n.digits := by
    cases h with
    | atom h =>
        rw [h]
        exact replaceGlyphs_of_stable fun c hc =>
          glyph_ascii (isAtomic_of_isDigit (n.isDigit c hc)).2
  obtain rfl := digits_of_spelled hr
  obtain rfl := digits_of_spelled hc
  have hfill := hf.forall₂ hus
  obtain ⟨e, es, rfl⟩ : ∃ e es, us = e :: es := by
    refine List.exists_cons_of_ne_nil fun hnil => ?_
    have := hfill.length_eq
    simp [hnil] at this
    omega
  have hread : readTagged lex .matrix y =
      .ok (.matrix r.value c.value ((e :: es).take (r.value * c.value))) := by
    have hcond : 0 < r.value ∧ 0 < c.value ∧ r.value * c.value ≤ maxMatrixSize :=
      ⟨r.pos, c.pos, hsize⟩
    simp only [readTagged, hts, readMatrix, leadingInteger_figure]
    exact congrArg Except.ok (if_pos hcond)
  have hfilled : (Form.matrix r.value c.value ((e :: es).take (r.value * c.value))).traverse f =
      .ok (.matrix r.value c.value
        ((children.map (Tree.latex lex)).take (r.value * c.value))) := by
    rw [Form.traverse, traverseList_ok (List.forall₂_take _ hfill)]
    rfl
  refine of_tag htag hread hfilled ?_
  change matrixLayout r.value c.value _ = _
  rw [matrixLayout, matrixRows_eq, List.map_map]
  rfl

theorem readEquality_of_spread {x₁ x₂ body : Text} (h : Spread [x₁, x₂] body) (h₁ : Item x₁)
    (h₂ : Item x₂) : readEquality ('(' :: '=' :: (body ++ [')'])) = .relation .equal x₁ x₂ := by
  have hi : ∀ x ∈ [x₁, x₂], Item x := by simp [h₁, h₂]
  have hclose : (dropClosing ('(' :: '=' :: (body ++ [')']))).drop 2 = body := by
    have := dropClosing_concat ('(' :: '=' :: body)
    rw [List.cons_append, List.cons_append] at this
    rw [this]
    rfl
  have hsplit : split .atGaps (trim body) = [x₁, x₂] := by rw [split_trim, h.split _ hi]
  have hright : trim ((trim body).drop x₁.length) = x₂ := by
    cases h with
    | @cons g _ r _ hg hr =>
        rw [(Spread.cons hg hr).trim_cons hg hi, List.drop_left]
        cases hr with
        | @cons g' _ r' _ hg' hr' =>
            rw [(Spread.cons hg' hr').trim_cons hg' (by simp [h₂])]
            cases hr'
            exact List.append_nil x₂
  rw [readEquality, hclose]
  simp only [hsplit, hright]

theorem layout_equal (a b : Text) :
    layout lex (.relation .equal a b) = Shape.equality.template lex [a, b] := by
  have hl : layout lex (.relation .equal a b) = a ++ " " ++ "=" ++ " " ++ b := rfl
  have ht : Shape.equality.template lex [a, b] = a ++ " = " ++ b := rfl
  rw [hl, ht, List.append_assoc a, List.append_assoc a]
  rfl

theorem equality {a b : Tree} (hf : SetsAll f (Tree.latex lex) Sexp.Replaced [a, b])
    (h : Sexp.Spelled Sexp.Replaced (Shape.equality.sexp ([a, b].map Tree.sexp)) y) :
    Reads f lex y (Shape.equality.template lex ([a, b].map (Tree.latex lex))) := by
  cases h with
  | @form _ _ ts body hitems hspread =>
      change List.Forall₂ _ [a.sexp, b.sexp] ts at hitems
      simp only [List.forall₂_cons_left_iff, List.forall₂_nil_left_iff] at hitems
      obtain ⟨x₁, _, h₁, ⟨x₂, _, h₂, rfl, rfl⟩, rfl⟩ := hitems
      have hr : readTagged lex .equals ('(' :: '=' :: (body ++ [')'])) =
          .ok (.relation .equal x₁ x₂) :=
        congrArg Except.ok (readEquality_of_spread hspread h₁.variant.item h₂.variant.item)
      have hfill : (Form.relation .equal x₁ x₂).traverse f =
          .ok (.relation .equal (a.latex lex) (b.latex lex)) := by
        rw [Form.traverse, hf a (by simp) _ h₁, hf b (by simp) _ h₂]
        rfl
      exact of_tag rfl hr hfill (layout_equal _ _)

theorem equation {a b : Tree} (hf : SetsAll f (Tree.latex lex) Sexp.Replaced [a, b])
    (hb : ∀ op ts, b = .node (.operation op) ts →
      SetsAll f (Tree.latex lex) Sexp.Replaced ts ∧ 2 ≤ ts.length)
    (h : Sexp.Spelled Sexp.Replaced (Shape.equation.sexp ([a, b].map Tree.sexp)) y) :
    Reads f lex y (Shape.equation.template lex ([a, b].map (Tree.latex lex))) := by
  have htag : tag? y = some .equation := tag?_of_spelled h rfl (by decide) rfl
  obtain ⟨ts, hts, hargs⟩ := arguments_of_spelled h
  change List.Forall₂ _ [a.sexp, b.sexp] ts at hargs
  simp only [List.forall₂_cons_left_iff, List.forall₂_nil_left_iff] at hargs
  obtain ⟨x₁, _, h₁, ⟨x₂, _, h₂, rfl, rfl⟩, rfl⟩ := hargs
  have hop := operator?_of_spelled h₂.variant
  have hplain (hr : readEquation [x₁, x₂] = .relation .equal x₁ x₂) :
      Reads f lex y (Shape.equation.template lex ([a, b].map (Tree.latex lex))) := by
    have hr : readTagged lex .equation y = .ok (.relation .equal x₁ x₂) := by
      simp only [readTagged, hts, hr]
    have hfill : (Form.relation .equal x₁ x₂).traverse f =
        .ok (.relation .equal (a.latex lex) (b.latex lex)) := by
      rw [Form.traverse, hf a (by simp) _ h₁, hf b (by simp) _ h₂]
      rfl
    exact of_tag htag hr hfill (layout_equal _ _)
  have hflat (op : Operator) (hpow : op ≠ .power) (us : List Tree)
      (hus : b = .node (.operation op) us) :
      Reads f lex y (Shape.equation.template lex ([a, b].map (Tree.latex lex))) := by
    obtain ⟨hset, hlen⟩ := hb op us hus
    subst hus
    rw [Tree.sexp_node] at h₂
    obtain ⟨vs, hvs, hspelled⟩ := operands_of_spelled (fun _ _ h => .inr h) h₂
    have hfill := hset.forall₂ hspelled
    have haccept : op.accepts vs.length = true := by
      have := hfill.length_eq
      rw [List.length_map] at this
      cases op <;> simp [Operator.accepts] <;> omega
    have hr : readTagged lex .equation y = .ok (.equation x₁ op vs none) := by
      simp only [readTagged, hts, readEquation, hop, Tree.operator?]
      cases op <;> first | exact absurd rfl hpow | simp [hvs, haccept]
    have hfilled : (Form.equation x₁ op vs none).traverse f =
        .ok (.equation (a.latex lex) op (us.map (Tree.latex lex)) none) := by
      rw [Form.traverse, hf a (by simp) _ h₁, ok_bind, traverseList_ok hfill]
      rfl
    refine of_tag htag hr hfilled ?_
    rw [List.map_cons, List.map_singleton, Tree.latex_node]
    rfl
  cases hbop : b.operator? with
  | none =>
      refine hplain ?_
      simp only [readEquation, hop, hbop]
  | some op =>
      by_cases hpow : op = .power
      · refine hplain ?_
        simp only [readEquation, hop, hbop, hpow]
      · obtain ⟨us, hus⟩ := Tree.eq_node_of_operator? hbop
        exact hflat op hpow us hus

theorem label {kind name : Atom} (hf : SetsAll f (Tree.latex lex) Sexp.Replaced [.atom name])
    (h : Sexp.Spelled Sexp.Replaced (Tree.label kind name).sexp y) :
    Reads f lex y (Tree.labelled lex (replaceGlyphs kind.text) (replaceGlyphs name.text)) := by
  change Sexp.Spelled Sexp.Replaced (.form (keyword "@LABEL" rfl) [.atom kind, .atom name]) y at h
  have htag : tag? y = some .label := tag?_of_spelled h rfl (by decide) rfl
  obtain ⟨ts, hts, hargs⟩ := arguments_of_spelled h
  simp only [List.forall₂_cons_left_iff, List.forall₂_nil_left_iff] at hargs
  obtain ⟨x₁, _, h₁, ⟨x₂, _, h₂, rfl, rfl⟩, rfl⟩ := hargs
  have hset : f x₂ = .ok (spaceCommands (replaceGlyphs name.text)) :=
    hf (.atom name) (by simp) _ h₂
  obtain rfl : x₁ = replaceGlyphs kind.text := by
    cases h₁ with
    | atom h => exact h
  obtain rfl : x₂ = name.replaced.text := by
    cases h₂ with
    | atom h => exact h
  cases hk : LabelKind.ofName? (replaceGlyphs kind.text) with
  | none =>
      have hr : readTagged lex .label y = .ok (.nested name.replaced.text) := by
        simp only [readTagged, hts, readLabel, hk]
        rfl
      have hfill : (Form.nested name.replaced.text).traverse f =
          .ok (.nested (spaceCommands (replaceGlyphs name.text))) := by
        rw [Form.traverse, hset]
        rfl
      refine of_tag htag hr hfill ?_
      rw [Tree.labelled, hk]
      rfl
  | some k =>
      have hread : readLabel lex (replaceGlyphs kind.text) name.replaced.text =
          some (.plain (lex.label k name.replaced.text)) := by
        rw [readLabel, hk]
        cases k with
        | constant => exact congrArg some (readConstant_atom lex name.replaced)
        | _ => rfl
      have hr : readTagged lex .label y = .ok (.plain (lex.label k name.replaced.text)) := by
        simp only [readTagged, hts, hread]
        rfl
      refine of_tag htag hr rfl ?_
      rw [Tree.labelled, hk]
      rfl

end Reads

end WorksheetTex
