import WorksheetTex.Proofs.Sweep
import WorksheetTex.Proofs.Value

namespace WorksheetTex.Evaluation

open Text Tex Paren Vocabulary Form

def referenceAtom (n : Nat) : Atom where
  text := reference n
  ne_nil := by simp [reference]
  atomic := by
    intro c hc
    simp only [reference, List.cons_append, List.mem_cons, List.mem_append, List.not_mem_nil,
      or_false] at hc
    rcases hc with rfl | hc | rfl
    · decide
    · exact (isAtomic_of_isDigit (isDigit_of_mem_toDigits hc)).1
    · decide

inductive Reduced (lex : Lexicon) (ps : List Text) : Tree → Text → Prop
  | atom {a : Atom} : openMark ∉ a.text → Reduced lex ps (.atom a) a.text
  | piece {t : Tree} {n : Nat} : (t.reading lex).1 = false →
      (values ps)[n]? = some (t.value lex) → Reduced lex ps t (referenceAtom n).text
  | label {kind name : Atom} {body : Text} : (∀ c ∈ kind.text, isLatin c = true) →
      openMark ∉ name.text → Spread [kind.text, name.text] body →
      Reduced lex ps (.label kind name) (enclose "@LABEL" body)
  | application {f : Atom} {ts : List Tree} {xs : List Text} {args body : Text} :
      openMark ∉ f.text → ts ≠ [] → List.Forall₂ (Reduced lex ps) ts xs → Spread xs args →
      Spread [f.text, enclose "@ARGS" args] body →
      Reduced lex ps (.node (.application f) ts) (enclose "@APPLY" body)
  | operation {op : Operator} {ts : List Tree} {xs : List Text} {body : Text} :
      op.accepts ts.length = true → List.Forall₂ (Reduced lex ps) ts xs → Spread xs body →
      Reduced lex ps (.node (.operation op) ts) (enclose [op.symbol] body)

variable {lex : Lexicon} {ps : List Text} {t : Tree} {x : Text}

namespace Reduced

theorem extend (h : Reduced lex ps t x) (more : List Text) : Reduced lex (ps ++ more) t x := by
  induction t generalizing x with
  | atom a =>
      cases h with
      | atom ha => exact .atom ha
      | piece hform hv => exact .piece hform (getElem?_values_append hv more)
  | label kind name =>
      cases h with
      | piece hform hv => exact .piece hform (getElem?_values_append hv more)
      | label hkind hname hbody => exact .label hkind hname hbody
  | node shape ts ih =>
      cases h with
      | piece hform hv => exact .piece hform (getElem?_values_append hv more)
      | application hf hne hts hargs hbody =>
          exact .application hf hne (Sexp.forall₂_of_mem hts fun t ht x => ih t ht) hargs hbody
      | operation hlen hts hbody =>
          exact .operation hlen (Sexp.forall₂_of_mem hts fun t ht x => ih t ht) hbody

theorem item (h : Reduced lex ps t x) : Item x := by
  induction t generalizing x with
  | atom a =>
      cases h with
      | atom _ => exact .atom a
      | piece _ _ => exact .atom _
  | label kind name =>
      cases h with
      | piece _ _ => exact .atom _
      | label _ _ hbody => exact item_enclose rfl hbody (by simp [Item.atom])
  | node shape ts ih =>
      have hitems {xs : List Text} (hts : List.Forall₂ (Reduced lex ps) ts xs) : ∀ x ∈ xs, Item x :=
        Sexp.mem_right_of_forall₂ (Sexp.forall₂_of_mem hts fun t ht x => ih t ht)
      cases h with
      | piece _ _ => exact .atom _
      | @application f _ _ _ _ _ _ hts hargs hbody =>
          have hinner : Item (enclose "@ARGS" _) := item_enclose rfl hargs (hitems hts)
          exact item_enclose rfl hbody
            (List.forall_mem_cons.mpr ⟨.atom f, List.forall_mem_singleton.mpr hinner⟩)
      | @operation op _ _ _ _ hts hbody =>
          exact item_enclose (by cases op <;> rfl) hbody (hitems hts)

theorem items {ts : List Tree} {xs : List Text} (h : List.Forall₂ (Reduced lex ps) ts xs) :
    ∀ x ∈ xs, Item x :=
  Sexp.mem_right_of_forall₂ (h.imp fun _ _ h => h.item)

theorem sealed_spread {m : Char} (hm : m = openMark ∨ m = closeMark) {k : Nat} {xs : List Text}
    {body : Text} (h : Spread xs body) (hx : ∀ x ∈ xs, Sealed m k x) : Sealed m k body := by
  induction h with
  | nil => exact .nil
  | @cons g x r xs hg _ ih =>
      have hgap : Sealed m k g := .ascii hm hg.ascii
      exact (hgap.append (hx x List.mem_cons_self)).append
        (ih fun x hmem => hx x (List.mem_cons_of_mem _ hmem))

theorem sealed_enclose {m : Char} (hm : m = openMark ∨ m = closeMark) {k : Nat} {head body : Text}
    (hhead : head.all isAscii = true) (h : Sealed m k body) : Sealed m k (enclose head body) := by
  have hopen : Sealed m k ['('] := .ascii hm rfl
  have hclose : Sealed m k [')'] := .ascii hm rfl
  exact hopen.append ((Sealed.ascii hm hhead).append (h.append hclose))

theorem isSealed (h : Reduced lex ps t x) : Sealed openMark ps.length x := by
  have hm : openMark = openMark ∨ openMark = closeMark := .inl rfl
  induction t generalizing x with
  | atom a =>
      cases h with
      | atom ha => exact .of_not_mem ha
      | piece _ hv => exact length_values ps ▸ (Fills.reference hv).1
  | label kind name =>
      cases h with
      | piece _ hv => exact length_values ps ▸ (Fills.reference hv).1
      | label hkind hname hbody =>
          have hkind : openMark ∉ kind.text := fun hc => absurd (hkind _ hc) (by decide)
          refine sealed_enclose hm rfl (sealed_spread hm hbody ?_)
          exact List.forall_mem_cons.mpr
            ⟨.of_not_mem hkind, List.forall_mem_singleton.mpr (.of_not_mem hname)⟩
  | node shape ts ih =>
      have hall {xs : List Text} (hts : List.Forall₂ (Reduced lex ps) ts xs) :
          ∀ x ∈ xs, Sealed openMark ps.length x :=
        Sexp.mem_right_of_forall₂ (Sexp.forall₂_of_mem hts fun t ht x => ih t ht)
      cases h with
      | piece _ hv => exact length_values ps ▸ (Fills.reference hv).1
      | application hf _ hts hargs hbody =>
          have hinner : Sealed openMark ps.length (enclose "@ARGS" _) :=
            sealed_enclose hm rfl (sealed_spread hm hargs (hall hts))
          refine sealed_enclose hm rfl (sealed_spread hm hbody ?_)
          exact List.forall_mem_cons.mpr ⟨.of_not_mem hf, List.forall_mem_singleton.mpr hinner⟩
      | @operation op _ _ _ _ hts hbody =>
          exact sealed_enclose hm (by cases op <;> rfl) (sealed_spread hm hbody (hall hts))

theorem fills (h : Reduced lex ps t x) {a : Atom} (hx : x = a.text) :
    Fills (values ps) (replaceGlyphs x) (t.value lex) ∧
      (replaceGlyphs x = ['e'] ↔ (t.reading lex).1 = true ∧ t.value lex = ['e']) := by
  have hform (head body : Text) : enclose head body ≠ a.text := by
    obtain ⟨c, r, hc, hparen⟩ := a.exists_cons
    rw [hc, enclose]
    exact fun heq => hparen (List.cons.inj heq).1.symm
  cases h with
  | @atom b hb =>
      exact ⟨.of_not_mem (Sealed.not_mem_replaceGlyphs (.inl rfl) hb), by
        simp [Tree.reading, Tree.value, Tree.fold]⟩
  | @piece _ n hnode hv =>
      have hne : reference n ≠ ['e'] := by simp [reference]
      exact ⟨by simpa [referenceAtom] using Fills.reference hv, by
        simp [referenceAtom, hne, hnode]⟩
  | label => exact absurd hx (hform _ _)
  | application => exact absurd hx (hform _ _)
  | operation => exact absurd hx (hform _ _)

section Pieces

variable {ts : List Tree} {xs : List Text} (h : List.Forall₂ (Reduced lex ps) ts xs)
  (hx : ∀ x ∈ xs, ∃ a : Atom, x = a.text)

include h hx

theorem fills_all :
    List.Forall₂ (Fills (values ps)) (xs.map replaceGlyphs) (ts.map (Tree.value lex)) := by
  induction h with
  | nil => exact .nil
  | cons ht _ ih =>
      obtain ⟨a, ha⟩ := hx _ List.mem_cons_self
      exact .cons (ht.fills ha).1 (ih fun x hmem => hx x (by simp [hmem]))

theorem fills_applyPiece (hlex : Avoids lex openMark) {f : Atom} (hf : openMark ∉ f.text) :
    Fills (values ps) (applyPiece lex f.text xs) ((Tree.node (.application f) ts).value lex) := by
  have hR := assembles_fills (values ps)
  have hfunction : openMark ∉ lex.function f.text := hlex.function hf
  rw [Tree.value_application]
  refine hR.applyTemplate (fun c hc => .of_not_mem ?_) (hR.joinWith rfl (fills_all h hx))
  intro hmem
  exact hfunction (List.mem_singleton.mp hmem ▸ hc)

theorem fills_render {op : Operator} (hlen : op.accepts ts.length = true) :
    ∃ p, op.render (xs.map replaceGlyphs) = some p ∧
      Fills (values ps) p ((Tree.node (.operation op) ts).value lex) := by
  have hR := assembles_fills (values ps)
  have hall := fills_all h hx
  obtain ⟨p, hp⟩ : ∃ p, op.render (xs.map replaceGlyphs) = some p :=
    Tree.exists_render (by rwa [List.length_map, ← h.length_eq])
  refine ⟨p, hp, ?_⟩
  rcases Tree.operation_cases lex hlen with ⟨t, u, r, rfl, rfl, hflag⟩ | hflag
  -- The base is a reference here, so it is not taken for `e` whatever it stands for.
  · cases h with
    | @cons _ x _ _ ht hts =>
        cases hts with
        | @cons _ y _ ys hu _ =>
            obtain ⟨a, ha⟩ := hx x (by simp)
            obtain ⟨b, hb⟩ := hx y (by simp)
            obtain ⟨hfill, hbase⟩ := ht.fills ha
            have hne : replaceGlyphs x ≠ ['e'] := fun he => by
              have hatom := (hbase.mp he).1
              rw [hflag] at hatom
              cases hatom
            simp only [List.map_cons, Operator.render, hne, if_false, Option.some.injEq] at hp
            rw [← hp, Tree.value_power hflag]
            exact hR.append (hR.group hfill) (hR.sup (hu.fills hb).1)
  · have hbase : op = .power → ((xs.map replaceGlyphs).head? = some ['e'] ↔
        (ts.map (Tree.value lex)).head? = some ['e']) := by
      intro hop
      cases h with
      | nil => exact Iff.rfl
      | @cons t x _ _ ht _ =>
          obtain ⟨a, ha⟩ := hx x (by simp)
          simp [(ht.fills ha).2, hflag hop t rfl]
    obtain ⟨v, hv, hfills⟩ := hR.render hall hbase hp
    rw [Tree.value_operation hflag hv]
    exact hfills

end Pieces

end Reduced

end WorksheetTex.Evaluation
