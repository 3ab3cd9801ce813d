import Mathlib.Data.List.DropRight
import WorksheetTex.Proofs.Bare
import WorksheetTex.Proofs.Imbalance
import WorksheetTex.Proofs.Seam

namespace WorksheetTex

open Text Tex Paren Vocabulary Form Evaluation

theorem dropClosing_append (s : Text) {t : Text} (ht : t ≠ []) :
    dropClosing (s ++ t) = s ++ dropClosing t := by
  rw [dropClosing, dropClosing, List.getLast?_append_of_ne_nil s ht]
  split
  · exact List.dropLast_append_of_ne_nil ht
  · rfl

theorem dropClosing_of_last {t : Text} (h : ')' ∉ t.getLast?) : dropClosing t = t :=
  if_neg h

theorem rdrop_append_replicate {t : Text} {c : Char} {k : Nat}
    (h : k ≤ (t.rtakeWhile (· == c)).length) : t.rdrop k ++ List.replicate k c = t := by
  rw [List.rtakeWhile, List.length_reverse] at h
  have htake : t.reverse.take k = (t.reverse.takeWhile (· == c)).take k := by
    conv_lhs => rw [← List.takeWhile_append_dropWhile (p := (· == c)) (l := t.reverse)]
    exact List.take_append_of_le_length h
  have hreplicate : t.reverse.take k = List.replicate k c := by
    refine List.eq_replicate_iff.mpr ⟨?_, fun b hb => ?_⟩
    · rw [htake, List.length_take, Nat.min_eq_left h]
    · rw [htake] at hb
      simpa using List.all_eq_true.mp List.all_takeWhile b (List.mem_of_mem_take hb)
  calc t.rdrop k ++ List.replicate k c
      = (t.reverse.drop k).reverse ++ (t.reverse.take k).reverse := by
        rw [List.rdrop_eq_reverse_drop_reverse, hreplicate, List.reverse_replicate]
    _ = t := by rw [← List.reverse_append, List.take_append_drop, List.reverse_reverse]

namespace Sexp

theorem item_print (e : Sexp) : Item e.print :=
  (written_print e).spelled.item

theorem printAll_append (es es' : List Sexp) :
    printAll (es ++ es') = printAll es ++ printAll es' := by
  induction es with
  | nil => rfl
  | cons e es ih => simp [printAll, ih]

theorem items_print (es : List Sexp) : ∀ t ∈ es.map print, Item t := by
  intro t ht
  obtain ⟨e, _, rfl⟩ := List.mem_map.mp ht
  exact e.item_print

theorem balanced_printAll (es : List Sexp) : Balanced (printAll es) :=
  (spread_printAll es).balanced (items_print es)

inductive Clipped : Sexp → Text → Prop
  | whole (e : Sexp) : Clipped e e.print
  | head (head : Keyword) : Clipped (.form head []) ('(' :: head.text)
  | last (head : Keyword) (items : List Sexp) {e : Sexp} {x : Text} : Clipped e x →
      Clipped (.form head (items ++ [e])) ('(' :: (head.text ++ (printAll items ++ ' ' :: x)))

namespace Clipped

variable {e : Sexp} {x : Text}

theorem ne_nil (h : Clipped e x) : x ≠ [] := by
  cases h with
  | whole => exact e.item_print.ne_nil
  | head => simp
  | last => simp

theorem dropClosing (h : Clipped e x) : Clipped e (dropClosing x) := by
  induction h with
  | whole e =>
      cases e with
      | atom a =>
          have hlast : ')' ∉ a.text.getLast? := fun hc =>
            nomatch a.not_paren (List.mem_of_mem_getLast? hc)
          rw [print, dropClosing_of_last hlast]
          exact .whole (.atom a)
      | form head items =>
          have hdrop : Text.dropClosing (Sexp.form head items).print =
              '(' :: (head.text ++ printAll items) := by
            rw [print, ← List.append_assoc, ← List.cons_append, dropClosing_concat]
          rw [hdrop]
          rcases List.eq_nil_or_concat items with rfl | ⟨items, e, rfl⟩
          · simpa [printAll] using Clipped.head head
          · have hlast := Clipped.last head items (.whole e)
            simpa [printAll_append, printAll] using hlast
  | head head =>
      have hlast : ')' ∉ ('(' :: head.text).getLast? := by
        rw [← List.singleton_append, List.getLast?_append_of_ne_nil _ head.ne_nil]
        exact fun hc => nomatch head.not_paren (List.mem_of_mem_getLast? hc)
      rw [dropClosing_of_last hlast]
      exact .head head
  | @last head items e x hx ih =>
      have hdrop : Text.dropClosing ('(' :: (head.text ++ (printAll items ++ ' ' :: x))) =
          '(' :: (head.text ++ (printAll items ++ ' ' :: Text.dropClosing x)) := by
        have := dropClosing_append ('(' :: (head.text ++ (printAll items ++ [' ']))) hx.ne_nil
        simpa using this
      rw [hdrop]
      exact .last head items ih

theorem exists_closing (h : Clipped e x) : ∃ m, x ++ List.replicate m ')' = e.print := by
  induction h with
  | whole e => exact ⟨0, by simp⟩
  | head head => exact ⟨1, by simp [print, printAll]⟩
  | @last head items e x _ ih =>
      obtain ⟨m, hm⟩ := ih
      refine ⟨m + 1, ?_⟩
      rw [List.replicate_succ', ← List.append_assoc]
      simp [print, printAll_append, printAll, ← hm]

theorem of_replicate {k : Nat}
    (h : x ++ List.replicate k ')' = e.print) : Clipped e x := by
  induction k generalizing x with
  | zero =>
      rw [List.replicate_zero, List.append_nil] at h
      exact h ▸ .whole e
  | succ k ih =>
      have hnext : Clipped e (x ++ [')']) := ih (by simpa [List.replicate_succ] using h)
      have hclip := hnext.dropClosing
      rwa [dropClosing_concat] at hclip

theorem exists_depth (h : Clipped e x) : ∃ d, depthFrom 0 x = some d := by
  obtain ⟨m, hm⟩ := h.exists_closing
  exact ⟨m, depthFrom_of_replicate (hm ▸ e.item_print.balanced)⟩

theorem head_not_blank (h : Clipped e x) : ∀ c ∈ x.head?, isBlank c = false := by
  cases h with
  | whole => exact e.item_print.head_not_blank
  | head => exact fun c hc => Option.some.inj hc ▸ rfl
  | last => exact fun c hc => Option.some.inj hc ▸ rfl

theorem last_not_blank (h : Clipped e x) : ∀ c ∈ x.getLast?, isBlank c = false := by
  induction h with
  | whole e => exact e.item_print.last_not_blank
  | head head =>
      rw [← List.singleton_append, List.getLast?_append_of_ne_nil _ head.ne_nil]
      exact fun c hc => head.not_blank (List.mem_of_mem_getLast? hc)
  | @last head items e x hx ih =>
      have hshape : '(' :: (head.text ++ (printAll items ++ ' ' :: x)) =
          ('(' :: (head.text ++ (printAll items ++ [' ']))) ++ x := by simp
      rw [hshape, List.getLast?_append_of_ne_nil _ hx.ne_nil]
      exact ih

theorem trim (h : Clipped e x) : trim x = x :=
  trim_of_ends h.head_not_blank h.last_not_blank

theorem exists_head {head : Keyword} {items : List Sexp} (h : Clipped (.form head items) x) :
    ∃ r, x = '(' :: (head.text ++ r) := by
  cases h with
  | whole => exact ⟨_, rfl⟩
  | head => exact ⟨[], by simp⟩
  | last => exact ⟨_, rfl⟩

theorem split_open (cut : Cut) {w : Text} {d : Nat} (hw : depthFrom 0 w = some d)
    (hlast : ∀ c ∈ ('(' :: w).getLast?, isBlank c = false) : split cut ('(' :: w) = ['(' :: w] := by
  have hstart : split cut ('(' :: w) = splitFrom cut ((0 : Nat) + 1) ['('] (w ++ []) := by
    by_cases hcut : cut = .atGapsAndParens <;>
      simp [Form.split, splitFrom, hcut, release, allBlank]
  have hhead : ∀ c ∈ ('(' :: w).head?, isBlank c = false := fun c hc => Option.some.inj hc ▸ rfl
  have hrelease := release_reverse (List.cons_ne_nil _ _) hhead hlast
  rw [List.reverse_cons] at hrelease
  rw [hstart, splitFrom_inside cut hw, splitFrom, hrelease]

theorem split (h : Clipped e x) (cut : Cut) : split cut x = [x] := by
  have hlast := h.last_not_blank
  cases h with
  | whole =>
      have hsplit := e.item_print.splitFrom cut []
      rw [List.append_nil] at hsplit
      exact hsplit.trans e.item_print.release
  | head head => exact split_open cut (balanced_flat fun _ hc => head.not_paren hc) hlast
  | @last head items e x hx =>
      obtain ⟨d, hd⟩ := hx.exists_depth
      have hhead : Balanced head.text := balanced_flat fun _ hc => head.not_paren hc
      have hitems : depthFrom 0 (printAll items ++ ' ' :: x) = some d := by
        rw [depthFrom_append, balanced_printAll items]
        exact hd
      refine split_open cut (d := d) ?_ hlast
      rw [depthFrom_append, hhead]
      exact hitems

theorem split_last (h : Clipped e x) (cut : Cut) (items : List Sexp) :
    Form.split cut (printAll items ++ ' ' :: x) = items.map print ++ [x] := by
  have hcuts : Cuts cut (0 + level (printAll items)) ' ' := by
    refine ⟨?_, .inl rfl⟩
    simpa using level_eq (balanced_printAll items)
  have hblank : Form.split cut (' ' :: x) = Form.split cut x :=
    splitFrom_blank_append (b := [' ']) rfl rfl
  rw [Form.split, splitFrom_append hcuts, hblank, h.split]
  congr 1
  exact (spread_printAll items).split cut (items_print items)

theorem operands {op : Operator} {items : List Sexp} {x : Text}
    (h : Clipped ((Shape.operation op).sexp items) x) :
    List.Forall₂ Clipped items (operands x) := by
  have hwhole (items : List Sexp) : List.Forall₂ Clipped items (items.map print) := by
    rw [List.forall₂_map_right_iff, List.forall₂_same]
    exact fun e _ => .whole e
  cases h with
  | whole =>
      have hoperands := (spread_printAll items).operands (items_print items) op
      exact hoperands ▸ hwhole items
  | head =>
      have hoperands : Form.operands ('(' :: op.symbol :: []) = [] := operands_form op []
      exact hoperands ▸ .nil
  | @last _ items e x hx =>
      have hoperands : Form.operands ('(' :: op.symbol :: (printAll items ++ ' ' :: x)) =
          items.map print ++ [Text.dropClosing x] := by
        have hdrop := dropClosing_append (printAll items ++ [' ']) hx.ne_nil
        rw [List.append_assoc, List.append_assoc] at hdrop
        rw [operands_form, ← List.singleton_append, hdrop]
        exact hx.dropClosing.split_last _ items
      exact hoperands ▸ List.rel_append (hwhole items) (.cons hx.dropClosing .nil)

end Clipped

end Sexp

namespace Tree

inductive Arithmetic : Tree → Prop
  | atom (a : Atom) : Arithmetic (.atom a)
  | operation {op : Operator} {ts : List Tree} : (∀ t ∈ ts, Arithmetic t) →
      Arithmetic (.node (.operation op) ts)

theorem Arithmetic.bare {t : Tree} (ht : t.Arithmetic) : t.Bare := by
  induction ht with
  | atom a => exact .atom a
  | operation _ ih => exact .operation ih

end Tree

theorem traverseList_if {α : Type} {f : Text → Except Fault Text} {g : α → Text} {p : α → Prop}
    [DecidablePred p] {x : Fault} {as : List α} {ts : List Text}
    (h : List.Forall₂ (fun a t => f t = if p a then .ok (g a) else .error x) as ts) :
    traverseList f ts = if ∀ a ∈ as, p a then .ok (as.map g) else .error x := by
  induction h with
  | nil => simp [traverseList, pure, Except.pure]
  | @cons a t as ts ht _ ih =>
      rw [traverseList, ht, ih]
      by_cases ha : p a
      · rw [if_pos ha, ok_bind]
        by_cases has : ∀ a ∈ as, p a
        · rw [if_pos has, if_pos (List.forall_mem_cons.mpr ⟨ha, has⟩)]
          rfl
        · rw [if_neg has, if_neg fun h => has (List.forall_mem_cons.mp h).2]
          rfl
      · have hall : ¬∀ b ∈ a :: as, p b := fun h => ha (h a (by simp))
        rw [if_neg ha, if_neg hall]
        rfl

namespace Setting

variable {s : Setting}

theorem read_clipped (lex : Lexicon) {op : Operator} {ts : List Tree} {x : Text}
    (hts : ∀ t ∈ ts, t.Arithmetic) (hx : (Tree.node (.operation op) ts).sexp.Clipped x) :
    Layer.read lex x = .ok (.arithmetic op (operands x)) := by
  have hno (c : Char) (hc : c ≠ 'P') (w : Text) : occursIn ('(' :: '@' :: c :: w) x = false := by
    obtain ⟨m, hm⟩ := hx.exists_closing
    have hbare : (Tree.node (.operation op) ts).Bare := Tree.Arithmetic.bare (.operation hts)
    have hprint := (hbare.lacks hc (w := w) (Sexp.written_print _).spelled).occursIn_eq_false
    rw [Bool.eq_false_iff, ne_eq, occursIn_iff, ← hm] at hprint
    rw [Bool.eq_false_iff, ne_eq, occursIn_iff]
    exact fun hoccurs => hprint (hoccurs.trans (List.prefix_append x _).isInfix)
  have hop : operator? x = some op := by
    rw [Tree.sexp_node] at hx
    obtain ⟨r, rfl⟩ := hx.exists_head
    exact Operator.ofChar?_symbol op
  exact Layer.read_of_not_occursIn lex hx.ne_nil hx.trim hop (hno 'L' (by decide) "ABEL")
    (hno 'A' (by decide) "PPLY")

theorem typesetWithin_clipped {n : Nat} {t : Tree} {x : Text} (ht : t.Arithmetic)
    (hx : t.sexp.Clipped x) :
    s.typesetWithin n x =
      if t.height ≤ n then .ok (t.latex s.lexicon) else .error (.tooDeep s.limit) := by
  induction n generalizing t x with
  | zero =>
      have := t.height_pos
      rw [if_neg (by omega)]
      rfl
  | succ n ih =>
      cases ht with
      | atom a =>
          cases hx with
          | whole =>
              have hheight : (Tree.atom a).height ≤ n + 1 := Nat.le_add_left 1 n
              rw [if_pos hheight]
              exact typesetWithin_tree _ (.atom a) hheight (Sexp.written_print _).spelled
      | @operation op ts hts =>
          have hread := read_clipped s.lexicon hts hx
          rw [Tree.sexp_node] at hx
          have hoperands := hx.operands
          rw [List.forall₂_map_left_iff] at hoperands
          have htraverse := traverseList_if (p := fun t => t.height ≤ n) (g := Tree.latex s.lexicon)
            (Sexp.forall₂_of_mem hoperands fun t ht x hx => ih (hts t ht) hx)
          rw [typesetWithin, hread, ok_bind, Layer.traverse, htraverse]
          simp only [Tree.height_node_le]
          split
          · rw [Tree.latex_node]; rfl
          · rfl

end Setting

theorem report_clipped (o : Options) (hstrict : o.isStrict = false) {s : Setting}
    (hs : o.setting = .ok s) {op : Operator} {ts : List Tree} (hts : ∀ t ∈ ts, t.Arithmetic)
    (hn : (Tree.node (.operation op) ts).height ≤ s.limit.levels) {k : Nat}
    (hk : k ≤ ((Tree.node (.operation op) ts).sexp.print.rtakeWhile (· == ')')).length) :
    ∃ latex warnings, report (.record o) (Tree.node (.operation op) ts).sexp.print =
        .ok ⟨latex, []⟩ ∧
      report (.record o) ((Tree.node (.operation op) ts).sexp.print.rdrop k) =
        .ok ⟨latex, warnings⟩ ∧
      (warnings = [] ↔ k = 0) ∧
      (0 < k → ∃ u w, LastUnclosed ((Tree.node (.operation op) ts).sexp.print.rdrop k) u ∧
        warnings = [w] ∧ w.position = unitLength u ∧
        w.message = "Unclosed '(' at position ".toList ++ Nat.toDigits 10 (unitLength u)) := by
  have hreport {x : Text} (hx : (Tree.node (.operation op) ts).sexp.Clipped x) :=
    report_record hs ((Setting.typesetWithin_clipped (.operation hts) hx).trans (if_pos hn))
      (.inl hstrict)
  have hbalanced := (Tree.node (.operation op) ts).sexp.item_print.balanced
  have hclip := rdrop_append_replicate hk
  have hwhole := hreport (.whole _)
  rw [imbalance?_of_balanced hbalanced] at hwhole
  refine ⟨_, _, hwhole, hreport (.of_replicate hclip), ?_⟩
  have hdepth := depthFrom_of_replicate (hclip ▸ hbalanced)
  cases k with
  | zero =>
      rw [imbalance?_of_balanced hdepth]
      simp
  | succ k =>
      obtain ⟨u, v, hx, hu, hv⟩ := exists_last_open hdepth
      rw [hx, imbalance?_of_open hu hv]
      exact ⟨by simp, fun _ => ⟨u, _, lastUnclosed_of_balanced u hv, rfl, rfl, rfl⟩⟩

theorem report_clipped_twice :
    ∃ latex u w, report (.record {}) "(+ a (/ b (*)))".toList = .ok ⟨latex, []⟩ ∧
      report (.record {}) "(+ a (/ b (*)".toList = .ok ⟨latex, [w]⟩ ∧
      LastUnclosed "(+ a (/ b (*)".toList u ∧ w.position = unitLength u := by
  let last : Tree := .node (.operation .divide)
    [.atom (.ofText "b" rfl), .node (.operation .times) []]
  have hlast : last.Arithmetic := .operation (by
    simp [Tree.Arithmetic.atom, Tree.Arithmetic.operation])
  obtain ⟨latex, warnings, hwhole, hclipped, _, hwarning⟩ :=
    @report_clipped {} rfl _ rfl .plus [.atom (.ofText "a" rfl), last]
      (by simp [Tree.Arithmetic.atom, hlast]) (by decide) 2 (by decide)
  obtain ⟨u, w, hu, rfl, hposition, _⟩ := hwarning (by decide)
  exact ⟨latex, u, w, hwhole, hclipped, hu, hposition⟩

end WorksheetTex
