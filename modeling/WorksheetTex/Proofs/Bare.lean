import WorksheetTex.Proofs.Typesetting

namespace WorksheetTex

open Text Tex Paren Vocabulary Form

def Lacks (w x : Text) : Prop :=
  ∀ k, occursIn ('(' :: w) (x ++ k) = occursIn ('(' :: w) k

namespace Lacks

variable {w x : Text}

theorem occursIn_eq_false (h : Lacks w x) : occursIn ('(' :: w) x = false := by
  have := h []
  rwa [List.append_nil] at this

theorem flat (hx : '(' ∉ x) : Lacks w x :=
  occursIn_flat hx w

theorem append {y : Text} (hx : Lacks w x) (hy : Lacks w y) : Lacks w (x ++ y) := by
  intro k
  rw [List.append_assoc, hx, hy]

theorem spread {ts : List Text} (h : Spread ts x) (hts : ∀ t ∈ ts, Lacks w t) : Lacks w x := by
  induction h with
  | nil => exact fun _ => rfl
  | @cons g t r ts hg _ ih =>
      have hgap : Lacks w g := flat fun hmem => nomatch hg.not_paren _ hmem
      exact (hgap.append (hts t (by simp))).append (ih fun u hu => hts u (by simp [hu]))

theorem form {head : Keyword} {ts : List Text} (hhead : ∀ k, ¬ w <+: head.text ++ k)
    (h : Spread ts x) (hts : ∀ t ∈ ts, Lacks w t) :
    Lacks w ('(' :: (head.text ++ (x ++ [')']))) := by
  have hinside : Lacks w (head.text ++ (x ++ [')'])) :=
    (flat head.not_mem_open).append ((spread h hts).append (flat (by decide)))
  intro k
  have hno : ¬ ('(' :: w) <+: '(' :: (head.text ++ (x ++ [')']) ++ k) := by
    rw [List.cons_prefix_cons, List.append_assoc]
    exact fun hstart => hhead _ hstart.2
  rw [← List.isPrefixOf_iff_prefix, Bool.not_eq_true] at hno
  rw [List.cons_append, occursIn, hinside, hno, Bool.false_or]

end Lacks

theorem Layer.read_of_not_occursIn (lex : Lexicon) {x : Text} {op : Operator} (hne : x ≠ [])
    (htrim : trim x = x) (hop : operator? x = some op)
    (hlabel : occursIn "(@LABEL" x = false) (happly : occursIn "(@APPLY" x = false) :
    Layer.read lex x = .ok (.arithmetic op (operands x)) := by
  have heval : isEvaluation x = false := by
    rw [isEvaluation, hlabel, happly, Bool.or_self, Bool.and_false]
  simp [Layer.read, htrim, hne, heval, hop]

namespace Tree

inductive Bare : Tree → Prop
  | atom (a : Atom) : Bare (.atom a)
  | operation {op : Operator} {ts : List Tree} : (∀ t ∈ ts, Bare t) →
      Bare (.node (.operation op) ts)
  | parens {t : Tree} : Bare t → Bare (.node .parens [t])

theorem lacks_node {shape : Shape} {ts : List Tree} {w x : Text}
    (hitems : shape.items (ts.map sexp) = ts.map sexp) (hhead : ∀ k, ¬ w <+: shape.name ++ k)
    (hts : ∀ t ∈ ts, ∀ x, Sexp.Spelled Sexp.Variant t.sexp x → Lacks w x)
    (hx : Sexp.Spelled Sexp.Variant (node shape ts).sexp x) : Lacks w x := by
  rw [sexp_node, Shape.sexp, hitems] at hx
  cases hx with
  | form hspelled hspread =>
      rw [List.forall₂_map_left_iff] at hspelled
      exact .form hhead hspread
        (Sexp.mem_right_of_forall₂ (Sexp.forall₂_of_mem hspelled hts))

theorem Bare.lacks {t : Tree} (ht : t.Bare) {c : Char} (hc : c ≠ 'P') {w x : Text}
    (hx : Sexp.Spelled Sexp.Variant t.sexp x) : Lacks ('@' :: c :: w) x := by
  induction ht generalizing x with
  | atom a =>
      cases hx with
      | atom ha =>
          obtain ⟨b, rfl⟩ := ha.exists_atom
          exact .flat b.not_mem_open
  | @operation op ts _ ih =>
      have hsymbol : '@' ≠ op.symbol := by cases op <;> decide
      refine lacks_node ?_ ?_ ?_ hx
      · rfl
      · exact fun k hk => hsymbol (List.cons_prefix_cons.mp hk).1
      · exact fun t ht _ hx => ih t ht hx
  | @parens t _ ih =>
      have hname : Shape.parens.name = '@' :: 'P' :: "ARENS".toList := rfl
      refine lacks_node ?_ ?_ ?_ hx
      · rfl
      · rw [hname]
        exact fun k hk => hc (List.cons_prefix_cons.mp (List.cons_prefix_cons.mp hk).2).1
      · exact List.forall_mem_singleton.mpr fun _ hx => ih hx

end Tree

namespace Setting

variable {s : Setting}

theorem typesetWithin_bare {n : Nat} {t : Tree} {x : Text} (ht : t.Bare) (hn : t.height ≤ n)
    (hx : Sexp.Spelled Sexp.Variant t.sexp x) :
    s.typesetWithin n x = .ok (t.latex s.lexicon) := by
  induction n generalizing t x with
  | zero => exact absurd hn (Nat.not_le.mpr t.height_pos)
  | succ n ih =>
      have hlabel := (ht.lacks (c := 'L') (w := "ABEL") (by decide) hx).occursIn_eq_false
      have happly := (ht.lacks (c := 'A') (w := "PPLY") (by decide) hx).occursIn_eq_false
      have hop := operator?_of_spelled hx
      cases ht with
      | atom a => exact typesetWithin_tree _ (.atom a) hn hx
      | @operation op ts hts =>
          have hread := Layer.read_of_not_occursIn s.lexicon hx.item.ne_nil hx.item.trim hop
            hlabel happly
          rw [Tree.sexp_node] at hx
          have hsets : SetsAll (s.typesetWithin n) (Tree.latex s.lexicon) Sexp.Variant ts :=
            fun t ht x hx => ih (hts t ht) (Tree.height_node_le.mp hn t ht) hx
          rw [typesetWithin, hread, ok_bind, Layer.traverse_operands (fun _ _ h => h) hsets hx,
            Tree.latex_node]
          rfl
      | @parens t ht =>
          have hsets : SetsAll (s.typesetWithin n) (Tree.latex s.lexicon) Sexp.Replaced [t] :=
            List.forall_mem_singleton.mpr fun x hx =>
              ih ht (Tree.height_node_le.mp hn t (by simp)) hx.variant
          have hreplaced := hx.replaced
          rw [Tree.sexp_node] at hreplaced
          rw [Tree.latex_node]
          exact typesetWithin_of_reads hx.item.ne_nil hx.item.trim hop
            (Reads.parens hsets hreplaced)

end Setting

end WorksheetTex
