import WorksheetTex.Proofs.Notation
import WorksheetTex.Typesetting

namespace WorksheetTex

open Text Tex Vocabulary Form Evaluation Numeral

structure Figure where
  digits : Text
  ne_nil : digits ≠ []
  isDigit : ∀ c ∈ digits, c.isDigit = true
  pos : 0 < digitsValue 10 digits

inductive Start where
  | related
  | given
  | silent
deriving DecidableEq, Repr

inductive Shape where
  | operation (op : Operator)
  | integral
  | derivative (ordered : Bool)
  | root (ordered : Bool)
  | series (s : Series) (start : Start)
  | application (function : Atom)
  | relation (r : Relation)
  | connective (c : Connective)
  | negation
  | opposite
  | parens
  | matrix (rows columns : Figure)
  | equation
  | equality

inductive Tree where
  | atom (a : Atom)
  | label (kind name : Atom)
  | node (shape : Shape) (children : List Tree)

def Form.Relation.tagName : Relation → Text
  | .elementOf => "@ELEMENT_OF"
  | .exclusiveOr => "@XOR"
  | .atLeast => "@GEQ"
  | .atMost => "@LEQ"
  | .greater => "@GREATER_THAN"
  | .less => "@LESS_THAN"
  | .notEqual => "@NEQ"
  | .equal => "@IS"
  | .cross => "@CROSS"
  | .dot => "@DOT"

namespace Shape

def name : Shape → Text
  | .operation op => [op.symbol]
  | .integral => "@INTEGRAL"
  | .derivative _ => "@DERIV"
  | .root _ => "@NTHROOT"
  | .series .sum _ => "@SUM"
  | .series .product _ => "@PRODUCT"
  | .application _ => "@APPLY"
  | .relation r => r.tagName
  | .connective .and => "@AND"
  | .connective .or => "@OR"
  | .negation => "@NOT"
  | .opposite => "@NEG"
  | .parens => "@PARENS"
  | .matrix _ _ => "@MATRIX"
  | .equation => "@EQ"
  | .equality => "="

def isPlainWord (t : Text) : Bool :=
  !t.isEmpty && t.all fun c => isAtomic c && isAscii c

theorem isPlainWord_name (shape : Shape) : isPlainWord shape.name = true := by
  cases shape with
  | operation op => cases op <;> rfl
  | series s _ => cases s <;> rfl
  | relation r => cases r <;> rfl
  | connective c => cases c <;> rfl
  | _ => rfl

end Shape

def keyword (t : Text) (h : Shape.isPlainWord t = true) : Keyword where
  text := t
  ne_nil := by
    rintro rfl
    cases h
  atomic := by
    intro c hc
    simp only [Shape.isPlainWord, Bool.and_eq_true, List.all_eq_true] at h
    exact (h.2 c hc).1
  ascii := by
    simp only [Shape.isPlainWord, Bool.and_eq_true, List.all_eq_true] at h ⊢
    exact fun c hc => (h.2 c hc).2

def placeholder : Atom :=
  .ofText "@PLACEHOLDER" rfl

namespace Figure

def value (n : Figure) : Nat :=
  digitsValue 10 n.digits

def atom (n : Figure) : Atom :=
  ⟨n.digits, n.ne_nil, fun c hc => (isAtomic_of_isDigit (n.isDigit c hc)).1⟩

end Figure

namespace Tree

@[elab_as_elim, induction_eliminator]
theorem induct {motive : Tree → Prop} (atom : ∀ a, motive (.atom a))
    (label : ∀ kind name, motive (.label kind name))
    (node : ∀ shape children, (∀ t ∈ children, motive t) → motive (.node shape children)) :
    ∀ t, motive t
  | .atom a => atom a
  | .label kind name => label kind name
  | .node shape children => node shape children fun t _ => induct atom label node t

section Fold

variable {α : Type} (atom : Atom → α) (label : Atom → Atom → α) (node : Shape → List α → α)

mutual

def fold : Tree → α
  | .atom a => atom a
  | .label kind name => label kind name
  | .node shape children => node shape (foldAll children)

def foldAll : List Tree → List α
  | [] => []
  | t :: ts => fold t :: foldAll ts

end

theorem foldAll_eq_map (ts : List Tree) :
    foldAll atom label node ts = ts.map (fold atom label node) := by
  induction ts with
  | nil => rfl
  | cons t ts ih => simp [foldAll, ih]

end Fold

end Tree

namespace Shape

def items : Shape → List Sexp → List Sexp
  | .derivative false, [v, f] => [v, .atom placeholder, f]
  | .root false, es => .atom placeholder :: es
  | .series _ .related, i :: a :: es =>
      .form (keyword "@IS" rfl) [i, a] :: es
  | .application f, es => [.atom f, .form (keyword "@ARGS" rfl) es]
  | .matrix r c, es => .atom r.atom :: .atom c.atom :: es
  | _, es => es

def sexp (shape : Shape) (es : List Sexp) : Sexp :=
  .form (keyword shape.name shape.isPlainWord_name) (shape.items es)

def template (lex : Lexicon) : Shape → List Text → Text
  | .integral, [l, u, f, v] => "\\int" ++ sub l ++ sup u ++ " " ++ f ++ " \\, d" ++ v
  | .derivative false, [v, f] => frac (upright "d") (upright "d" ++ v) ++ " " ++ f
  | .derivative true, [v, n, f] =>
      if n = ['1'] then frac (upright "d") (upright "d" ++ v) ++ " " ++ f
      else frac (upright "d" ++ sup n) (upright "d" ++ v ++ sup n) ++ " " ++ f
  | .root false, [r] => "\\sqrt" ++ group r
  | .root true, [n, r] =>
      if n = [] ∨ n = ['2'] then "\\sqrt" ++ group r else "\\sqrt[" ++ n ++ "]" ++ group r
  | .series s .silent, [i, u, b] => s.command ++ sub (i ++ "=1") ++ sup u ++ " " ++ b
  | .series s _, [i, a, u, b] => s.command ++ sub (i ++ "=" ++ a) ++ sup u ++ " " ++ b
  | .application f, ts => applyTemplate (lex.function (replaceGlyphs f.text)) (joinWith ", " ts)
  | .relation r, [a, b] => a ++ " " ++ r.sign ++ " " ++ b
  | .connective c, ts => joinWith (" " ++ c.sign ++ " ") ts
  | .negation, [a] => "\\neg " ++ a
  | .opposite, [a] =>
      if ' ' ∈ a ∨ '+' ∈ a ∨ '-' ∈ a then "-\\left(" ++ a ++ "\\right)" else '-' :: a
  | .parens, [a] => "\\left(" ++ a ++ "\\right)"
  | .matrix r c, ts =>
      let entry i j := ts[i * c.value + j]?.getD ['0']
      let line i := joinWith " & " ((List.range c.value).map (entry i))
      environment "pmatrix" ("\n" ++ joinWith " \\\\\n" ((List.range r.value).map line) ++ "\n")
  | .equation, [a, b] => a ++ " = " ++ b
  | .equality, [a, b] => a ++ " = " ++ b
  | _, _ => []

def latex (lex : Lexicon) : Shape → List Text → Text
  | .operation op, ts => (op.render ts).getD []
  | shape, ts => spaceCommands (shape.template lex ts)

end Shape

def Tree.IsRelation (t : Tree) : Prop :=
  ∃ ts, t = .node (.relation .equal) ts

def Shape.Admits : Shape → List Tree → Prop
  | .operation _, ts => 2 ≤ ts.length
  | .integral, ts => ts.length = 4
  | .derivative false, ts => ts.length = 2
  | .derivative true, [_, n, _] => n ≠ .atom placeholder
  | .root false, ts => ts.length = 1
  | .root true, [n, _] => n ≠ .atom placeholder
  | .series _ .related, ts => ts.length = 4
  | .series _ .given, [i, _, _, _] => ¬ i.IsRelation
  | .series _ .silent, [i, _, _] => ¬ i.IsRelation
  | .application _, _ => True
  | .relation _, ts => ts.length = 2
  | .connective _, ts => 2 ≤ ts.length
  | .negation, ts => ts.length = 1
  | .opposite, ts => ts.length = 1
  | .parens, ts => ts.length = 1
  | .matrix r c, ts => r.value * c.value ≤ 4096 ∧ 1 ≤ ts.length
  | .equation, ts => ts.length = 2
  | .equality, ts => ts.length = 2
  | _, _ => False

namespace Tree

def operator? : Tree → Option Operator
  | .node (.operation op) _ => some op
  | _ => none

theorem eq_node_of_operator? {t : Tree} {op : Operator} (h : t.operator? = some op) :
    ∃ ts, t = .node (.operation op) ts := by
  unfold operator? at h
  split at h
  · obtain rfl := Option.some.inj h
    exact ⟨_, rfl⟩
  · cases h

def sexp : Tree → Sexp :=
  fold .atom (fun kind name => .form (keyword "@LABEL" rfl) [.atom kind, .atom name])
    Shape.sexp

def labelled (lex : Lexicon) (kind name : Text) : Text :=
  match LabelKind.ofName? kind with
  | some k => lex.label k name
  | none => spaceCommands name

def latex (lex : Lexicon) : Tree → Text :=
  fold (fun a => spaceCommands (replaceGlyphs a.text))
    (fun kind name =>
      spaceCommands (labelled lex (replaceGlyphs kind.text) (replaceGlyphs name.text)))
    (Shape.latex lex)

def height : Tree → Nat :=
  fold (fun _ => 1) (fun _ _ => 2) fun _ hs => hs.foldr max 0 + 1

inductive WellFormed : Tree → Prop
  | atom (a : Atom) : WellFormed (.atom a)
  | label (kind name : Atom) : WellFormed (.label kind name)
  | node {shape : Shape} {ts : List Tree} :
      shape.Admits ts → (∀ t ∈ ts, WellFormed t) → WellFormed (.node shape ts)

@[simp] theorem sexp_node (shape : Shape) (ts : List Tree) :
    (node shape ts).sexp = shape.sexp (ts.map sexp) := by
  simp [sexp, fold, foldAll_eq_map]

@[simp] theorem latex_node (lex : Lexicon) (shape : Shape) (ts : List Tree) :
    (node shape ts).latex lex = shape.latex lex (ts.map (latex lex)) := by
  simp [latex, fold, foldAll_eq_map]

theorem height_pos (t : Tree) : 0 < t.height := by
  cases t <;> simp [height, fold]

theorem height_node (shape : Shape) (ts : List Tree) :
    (node shape ts).height = (ts.map height).foldr max 0 + 1 := by
  simp [height, fold, foldAll_eq_map]

theorem height_node_le {shape : Shape} {ts : List Tree} {n : Nat} :
    (node shape ts).height ≤ n + 1 ↔ ∀ t ∈ ts, t.height ≤ n := by
  rw [height_node, Nat.add_le_add_iff_right]
  induction ts with
  | nil => simp
  | cons t ts ih =>
      rw [List.map_cons, List.foldr_cons, Nat.max_le, List.forall_mem_cons]
      exact and_congr Iff.rfl ih

theorem height_lt_of_mem (shape : Shape) {ts : List Tree} {t : Tree} (h : t ∈ ts) :
    t.height < (node shape ts).height := by
  obtain ⟨n, hn⟩ := Nat.exists_eq_add_of_lt (height_pos (node shape ts))
  have := height_node_le.mp (Nat.le_of_eq hn) t h
  omega

end Tree

end WorksheetTex
