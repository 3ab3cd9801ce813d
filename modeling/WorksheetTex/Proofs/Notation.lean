import Mathlib.Data.List.Forall2
import WorksheetTex.Proofs.Depth
import WorksheetTex.Proofs.Glyph
import WorksheetTex.Proofs.Splitting

namespace WorksheetTex

open Text Paren Vocabulary Form Evaluation

structure Atom where
  text : Text
  ne_nil : text ≠ []
  atomic : ∀ c ∈ text, isAtomic c = true
deriving DecidableEq

namespace Atom

def ofText (t : Text) (h : (!t.isEmpty && t.all isAtomic) = true) : Atom where
  text := t
  ne_nil := by
    rintro rfl
    cases h
  atomic := List.all_eq_true.mp (Bool.and_eq_true_iff.mp h).2

theorem not_paren (a : Atom) {c : Char} (h : c ∈ a.text) : isParen c = false := by
  have := a.atomic c h
  simp only [isAtomic, Bool.and_eq_true, Bool.not_eq_true'] at this
  exact this.1

theorem not_blank (a : Atom) {c : Char} (h : c ∈ a.text) : isBlank c = false := by
  have := a.atomic c h
  simp only [isAtomic, Bool.and_eq_true, Bool.not_eq_true'] at this
  exact this.2

theorem not_gap (a : Atom) {c : Char} (h : c ∈ a.text) : isGap c = false := by
  cases hg : isGap c with
  | false => rfl
  | true => exact absurd (isBlank_of_isGap hg) (by simp [a.not_blank h])

theorem not_mem_open (a : Atom) : '(' ∉ a.text :=
  fun hmem => nomatch a.not_paren hmem

theorem exists_cons (a : Atom) : ∃ c r, a.text = c :: r ∧ c ≠ '(' := by
  obtain ⟨c, r, hc⟩ := List.exists_cons_of_ne_nil a.ne_nil
  exact ⟨c, r, hc, (ne_of_not_paren (a.not_paren (by simp [hc]))).1⟩

theorem isWord (a : Atom) : IsWord a.text :=
  ⟨a.ne_nil, fun _ hc => a.not_blank hc⟩

def replaced (a : Atom) : Atom where
  text := replaceGlyphs a.text
  ne_nil := replaceGlyphs_ne_nil a.ne_nil
  atomic := by
    intro x hx
    obtain ⟨c, hc, hxc⟩ := mem_replaceGlyphs hx
    exact isAtomic_of_mem_glyph (a.atomic c hc) hxc

end Atom

inductive Item : Text → Prop
  | atom (a : Atom) : Item a.text
  | form {t : Text} : Balanced t → Item ('(' :: (t ++ [')']))

namespace Item

variable {t : Text}

theorem balanced (h : Item t) : Balanced t := by
  cases h with
  | atom a => exact balanced_flat fun _ hc => a.not_paren hc
  | form hb => exact hb.enclose

theorem head_not_blank (h : Item t) : ∀ c ∈ t.head?, isBlank c = false := by
  intro c hc
  cases h with
  | atom a => exact a.not_blank (List.mem_of_mem_head? hc)
  | form _ =>
      obtain rfl : c = '(' := by simpa [eq_comm] using hc
      decide

theorem last_not_blank (h : Item t) : ∀ c ∈ t.getLast?, isBlank c = false := by
  intro c hc
  cases h with
  | atom a => exact a.not_blank (List.mem_of_mem_getLast? hc)
  | form _ =>
      obtain rfl : c = ')' := by
        rw [← List.cons_append, List.getLast?_concat] at hc
        exact (Option.some.inj hc).symm
      decide

theorem ne_nil (h : Item t) : t ≠ [] := by
  cases h with
  | atom a => exact a.ne_nil
  | form _ => simp

theorem trim (h : Item t) : trim t = t :=
  trim_of_ends h.head_not_blank h.last_not_blank

theorem release (h : Item t) : release t.reverse = [t] :=
  release_reverse h.ne_nil h.head_not_blank h.last_not_blank

theorem splitFrom_flat (cut : Cut) {s : Text} (hs : ∀ c ∈ s, isParen c = false ∧ isGap c = false)
    (held k : Text) : splitFrom cut 0 held (s ++ k) = splitFrom cut 0 (s.reverse ++ held) k := by
  induction s generalizing held with
  | nil => rfl
  | cons c r ih =>
      obtain ⟨hp, hg⟩ := hs c (by simp)
      have := ih (fun x hx => hs x (by simp [hx])) (c :: held)
      simpa [splitFrom, ne_of_not_paren hp, hg] using this

theorem splitFrom (cut : Cut) (h : Item t) (k : Text) :
    splitFrom cut 0 [] (t ++ k) = Form.splitFrom cut 0 t.reverse k := by
  cases h with
  | atom a =>
      have := splitFrom_flat cut (fun c hc => ⟨a.not_paren hc, a.not_gap hc⟩) [] k
      simpa using this
  | @form s hb =>
      have hopen : Form.splitFrom cut 0 [] ('(' :: (s ++ [')'] ++ k)) =
          Form.splitFrom cut 1 ['('] (s ++ ([')'] ++ k)) := by
        by_cases hcut : cut = .atGapsAndParens <;>
          simp [Form.splitFrom, hcut, Form.release, allBlank]
      have hinside := splitFrom_inside cut hb ['('] ([')'] ++ k)
      rw [show ((0 : Nat) : Int) + 1 = 1 from rfl] at hinside
      rw [List.cons_append, hopen, hinside]
      simp [Form.splitFrom]

end Item

def IsGapRun (g : Text) : Prop :=
  g ≠ [] ∧ ∀ c ∈ g, isGap c = true

instance (g : Text) : Decidable (IsGapRun g) :=
  decidable_of_iff (g.isEmpty = false ∧ g.all isGap = true) (by simp [IsGapRun])

namespace IsGapRun

variable {g : Text} (hg : IsGapRun g)

include hg

theorem not_paren : ∀ c ∈ g, isParen c = false := by
  intro c hc
  have hgap := hg.2 c hc
  simp only [isGap, Bool.or_eq_true, beq_iff_eq] at hgap
  rcases hgap with ((rfl | rfl) | rfl) | rfl <;> rfl

theorem ascii : g.all isAscii = true := by
  refine List.all_eq_true.mpr fun c hc => ?_
  have hgap := hg.2 c hc
  simp only [isGap, Bool.or_eq_true, beq_iff_eq] at hgap
  rcases hgap with ((rfl | rfl) | rfl) | rfl <;> rfl

end IsGapRun

inductive Spread : List Text → Text → Prop
  | nil : Spread [] []
  | cons {g t r : Text} {ts : List Text} : IsGapRun g → Spread ts r → Spread (t :: ts) (g ++ t ++ r)

namespace Spread

variable {ts : List Text} {body : Text} (cut : Cut)

theorem splitFrom_gaps {g : Text} (hg : ∀ c ∈ g, isGap c = true) (k : Text) :
    splitFrom cut 0 [] (g ++ k) = splitFrom cut 0 [] k := by
  induction g with
  | nil => rfl
  | cons c r ih =>
      have hc := hg c (by simp)
      have hp : c ≠ '(' ∧ c ≠ ')' := by
        constructor <;> rintro rfl <;> simp [isGap] at hc
      have hr : release [] = [] := rfl
      simpa [splitFrom, hp, hc, hr] using ih fun x hx => hg x (by simp [hx])

theorem splitFrom_gapRun {g : Text} (hg : IsGapRun g) (held k : Text) :
    splitFrom cut 0 held (g ++ k) = release held ++ splitFrom cut 0 [] k := by
  obtain ⟨hne, hall⟩ := hg
  cases g with
  | nil => exact absurd rfl hne
  | cons c r =>
      have hc := hall c (by simp)
      have hp : c ≠ '(' ∧ c ≠ ')' := by
        constructor <;> rintro rfl <;> simp [isGap] at hc
      have hr : ∀ x ∈ r, isGap x = true := fun x hx => hall x (by simp [hx])
      have := splitFrom_gaps cut hr k
      simp [splitFrom, hp, hc, this]

theorem splitFrom_held (h : Spread ts body) (hi : ∀ t ∈ ts, Item t) (held : Text) :
    splitFrom cut 0 held body = release held ++ ts := by
  induction h generalizing held with
  | nil => simp [splitFrom]
  | @cons g t r ts hg _ ih =>
      have ht := hi t (by simp)
      rw [List.append_assoc, splitFrom_gapRun cut hg, ht.splitFrom,
        ih fun s hs => hi s (by simp [hs]), ht.release]
      rfl

theorem split (h : Spread ts body) (hi : ∀ t ∈ ts, Item t) : split cut body = ts := by
  simpa [Form.split, release, allBlank] using h.splitFrom_held cut hi []

theorem last_not_blank (h : Spread ts body) (hi : ∀ t ∈ ts, Item t) :
    ∀ c ∈ body.getLast?, isBlank c = false := by
  induction h with
  | nil => simp
  | @cons g t r ts _ _ ih =>
      have ht := hi t (by simp)
      intro c hc
      have hr := ih fun s hs => hi s (by simp [hs])
      rw [List.append_assoc, List.getLast?_append, List.getLast?_append] at hc
      cases hl : r.getLast? with
      | some d => exact hr c (by simpa [hl] using hc)
      | none =>
          cases hm : t.getLast? with
          | some d => exact ht.last_not_blank c (by simpa [hl, hm] using hc)
          | none => exact absurd (List.getLast?_eq_none_iff.mp hm) ht.ne_nil

theorem trim_cons {g t r : Text} (h : Spread (t :: ts) (g ++ t ++ r)) (hg : IsGapRun g)
    (hi : ∀ s ∈ t :: ts, Item s) : trim (g ++ t ++ r) = t ++ r := by
  have ht := hi t (by simp)
  have hstart : trimStart (g ++ t ++ r) = t ++ r := by
    rw [List.append_assoc]
    refine trimStart_append (fun c hc => isBlank_of_isGap (hg.2 c hc)) ?_
    rw [List.head?_append_of_ne_nil _ ht.ne_nil]
    exact ht.head_not_blank
  have hend : trimEnd (t ++ r) = t ++ r := by
    refine trimEnd_of_getLast? fun c hc => h.last_not_blank hi c ?_
    rw [List.append_assoc, List.getLast?_append_of_ne_nil _ (by simp [ht.ne_nil])]
    exact hc
  rw [trim, hstart, hend]

theorem balanced (h : Spread ts body) (hi : ∀ t ∈ ts, Item t) : Balanced body := by
  induction h with
  | nil => rfl
  | @cons g t r ts hg _ ih =>
      have hflat : Balanced g := balanced_flat hg.not_paren
      exact (hflat.append (hi t (by simp)).balanced).append (ih fun s hs => hi s (by simp [hs]))

theorem arguments (h : Spread ts body) (hi : ∀ t ∈ ts, Item t) {head : Text}
    (hh : ∀ c ∈ head, isGap c = false ∧ c ≠ '(') :
    arguments ('(' :: (head ++ (body ++ [')']))) = ts := by
  have hskip : ∀ c ∈ head, (!isGap c && c != '(') = true := fun c hc => by simp [hh c hc]
  have hdrop : ((head ++ (body ++ [')'])).dropWhile fun c => !isGap c && c != '(') =
      (body ++ [')']).dropWhile fun c => !isGap c && c != '(' :=
    List.dropWhile_append_of_pos hskip
  rw [Form.arguments, List.drop_one, List.tail_cons, hdrop]
  cases h with
  | nil => rfl
  | @cons g t r ts hg hr =>
      obtain ⟨c, g, rfl⟩ := List.exists_cons_of_ne_nil hg.1
      have hc : isGap c = true := hg.2 c (by simp)
      have hkeep : ((c :: g ++ t ++ r ++ [')']).dropWhile fun c => !isGap c && c != '(') =
          c :: g ++ t ++ r ++ [')'] := by
        simp [hc]
      rw [hkeep, dropClosing_concat]
      exact (Spread.cons hg hr).split _ hi

theorem operands (h : Spread ts body) (hi : ∀ t ∈ ts, Item t) (op : Operator) :
    operands ('(' :: ([op.symbol] ++ (body ++ [')']))) = ts :=
  (operands_enclose op body).trans (h.split _ hi)

theorem replaced (h : Spread ts body) :
    Spread (ts.map replaceGlyphs) (replaceGlyphs body) := by
  induction h with
  | nil => exact .nil
  | @cons g t r ts hg _ ih =>
      rw [replaceGlyphs_append, replaceGlyphs_append, replaceGlyphs_ascii hg.ascii]
      exact .cons hg ih

end Spread

structure Keyword extends Atom where
  ascii : text.all isAscii = true

inductive Sexp where
  | atom (a : Atom)
  | form (head : Keyword) (items : List Sexp)

namespace Sexp

@[elab_as_elim, induction_eliminator]
theorem induct {motive : Sexp → Prop} (atom : ∀ a, motive (.atom a))
    (form : ∀ head items, (∀ e ∈ items, motive e) → motive (.form head items)) :
    ∀ e, motive e
  | .atom a => atom a
  | .form head items => form head items fun e _ => induct atom form e

variable {spells : Atom → Text → Prop}

inductive Spelled (spells : Atom → Text → Prop) : Sexp → Text → Prop
  | atom {a : Atom} {t : Text} : spells a t → Spelled spells (.atom a) t
  | form {head : Keyword} {items : List Sexp} {ts : List Text} {body : Text} :
      List.Forall₂ (Spelled spells) items ts → Spread ts body →
      Spelled spells (.form head items) ('(' :: (head.text ++ (body ++ [')'])))

def Written : Sexp → Text → Prop :=
  Spelled fun a t => t = a.text

mutual

def print : Sexp → Text
  | .atom a => a.text
  | .form head items => '(' :: (head.text ++ (printAll items ++ [')']))

def printAll : List Sexp → Text
  | [] => []
  | e :: es => [' '] ++ print e ++ printAll es

end

theorem spread_printAll (es : List Sexp) : Spread (es.map print) (printAll es) := by
  induction es with
  | nil => exact .nil
  | cons e es ih =>
      rw [printAll]
      exact .cons (by decide) ih

theorem written_print (e : Sexp) : Written e e.print := by
  induction e with
  | atom a => exact .atom rfl
  | form head items ih =>
      rw [print]
      refine .form ?_ (spread_printAll items)
      rw [List.forall₂_map_right_iff, List.forall₂_same]
      exact ih

def Variant (a : Atom) (t : Text) : Prop :=
  t = a.text ∨ t = replaceGlyphs a.text

theorem Variant.exists_atom {a : Atom} {t : Text} (h : Variant a t) : ∃ b : Atom, t = b.text := by
  rcases h with rfl | rfl
  · exact ⟨a, rfl⟩
  · exact ⟨a.replaced, rfl⟩

theorem Variant.item {a : Atom} {t : Text} (h : Variant a t) : Item t := by
  obtain ⟨b, rfl⟩ := h.exists_atom
  exact .atom b

theorem forall₂_of_mem {α β : Type} {R S : α → β → Prop} {as : List α} {bs : List β}
    (h : List.Forall₂ R as bs) (hRS : ∀ a ∈ as, ∀ b, R a b → S a b) : List.Forall₂ S as bs :=
  ((List.forall₂_and_left as bs).mpr ⟨hRS, h⟩).imp fun _ b h => h.1 b h.2

theorem mem_right_of_forall₂ {α β : Type} {P : β → Prop} {as : List α} {bs : List β}
    (h : List.Forall₂ (fun _ b => P b) as bs) : ∀ b ∈ bs, P b := by
  induction h with
  | nil => simp
  | cons hb _ ih => exact List.forall_mem_cons.mpr ⟨hb, ih⟩

theorem Spelled.mono {spells' : Atom → Text → Prop} (hs : ∀ a t, spells a t → spells' a t)
    {e : Sexp} {t : Text} (h : Spelled spells e t) : Spelled spells' e t := by
  induction e generalizing t with
  | atom a =>
      cases h with
      | atom h => exact .atom (hs a t h)
  | form head items ih =>
      cases h with
      | form hitems hspread => exact .form (forall₂_of_mem hitems fun e he t => ih e he) hspread

theorem Written.spelled {e : Sexp} {t : Text} (h : Written e t) : Spelled Variant e t :=
  h.mono fun _ _ h => .inl h

theorem Spelled.item {e : Sexp} {t : Text} (h : Spelled Variant e t) : Item t := by
  induction e generalizing t with
  | atom a =>
      cases h with
      | atom h => exact h.item
  | form head items ih =>
      cases h with
      | @form _ _ ts body hitems hspread =>
          have hi : ∀ t ∈ ts, Item t :=
            mem_right_of_forall₂ (forall₂_of_mem hitems fun e he t => ih e he)
          have hhead : Balanced head.text := balanced_flat fun _ hc => head.not_paren hc
          rw [← List.append_assoc]
          exact .form (hhead.append (hspread.balanced hi))

theorem items_of_spelled {es : List Sexp} {ts : List Text}
    (h : List.Forall₂ (Spelled Variant) es ts) : ∀ t ∈ ts, Item t :=
  mem_right_of_forall₂ (h.imp fun _ _ h => h.item)

theorem Spelled.replaced {e : Sexp} {t : Text} (h : Spelled Variant e t) :
    Spelled (fun a t => t = replaceGlyphs a.text) e (replaceGlyphs t) := by
  induction e generalizing t with
  | atom a =>
      cases h with
      | atom h =>
          refine .atom ?_
          rcases h with rfl | rfl <;> simp
  | form head items ih =>
      cases h with
      | @form _ _ ts body hitems hspread =>
          have hhead : replaceGlyphs head.text = head.text := replaceGlyphs_ascii head.ascii
          have hopen : glyph '(' = ['('] := glyph_ascii rfl
          have hclose : glyph ')' = [')'] := glyph_ascii rfl
          simp only [replaceGlyphs_cons, replaceGlyphs_append, hhead, hopen, hclose,
            replaceGlyphs_nil]
          refine .form ?_ hspread.replaced
          rw [List.forall₂_map_right_iff]
          exact forall₂_of_mem hitems fun e he t => ih e he

end Sexp

end WorksheetTex
