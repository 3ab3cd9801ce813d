import WorksheetTex.Form.UnitExpr

namespace WorksheetTex

open Text Tex Vocabulary Form

inductive Form.Side where
  | both
  | left
  | right
deriving DecidableEq, Repr

inductive Form.Callee (α : Type) where
  | known (template : Text)
  | computed (a : α)
deriving DecidableEq, Repr

inductive Form (α : Type) where
  | plain (t : Text)
  | nested (a : α)
  | integral (lower upper integrand var : α)
  | derivative (var : α) (order : Option α) (body : α)
  | partialDerivative (var : α) (order : Option α) (body : α)
  | limit (var point : α) (side : Side) (body : Option α)
  | primed (a : α) (count : Nat)
  | root (order : Option α) (radicand : α)
  | series (s : Series) (index start : Option α) (upper body : α)
  | application (callee : Callee α) (arguments : Option (List α))
  | sequence (items : List α)
  | relation (r : Relation) (left right : α)
  | connective (c : Connective) (items : List α)
  | negation (a : α)
  | opposite (a : α)
  | quantity (value : Option α) (unit : UnitExpr α)
  | parenthesized (a : α)
  | constant (name : Text) (index : α)
  | matrix (rows columns : Nat) (elements : List α)
  | evaluation (left : α) (right : Option α)
  | equation (left : α) (op : Operator) (operands : List α) (whole : Option α)
  | subscript (a : α)
  | identifier (name : Text) (index : α)
deriving DecidableEq, Repr

namespace Form

variable {α β : Type} {m : Type → Type} [Monad m]

def traverseOption (f : α → m β) : Option α → m (Option β)
  | none => pure none
  | some a => return some (← f a)

def traverseList (f : α → m β) : List α → m (List β)
  | [] => pure []
  | a :: r => return (← f a) :: (← traverseList f r)

def Callee.traverse (f : α → m β) : Callee α → m (Callee β)
  | .known t => pure (.known t)
  | .computed a => return .computed (← f a)

def traverse (f : α → m β) : Form α → m (Form β)
  | .plain t => pure (.plain t)
  | .nested a => return .nested (← f a)
  | .integral l u b v => return .integral (← f l) (← f u) (← f b) (← f v)
  | .derivative v o b => return .derivative (← f v) (← traverseOption f o) (← f b)
  | .partialDerivative v o b => return .partialDerivative (← f v) (← traverseOption f o) (← f b)
  | .limit v p s b => return .limit (← f v) (← f p) s (← traverseOption f b)
  | .primed a n => return .primed (← f a) n
  | .root o r => return .root (← traverseOption f o) (← f r)
  | .series s i a u b =>
      return .series s (← traverseOption f i) (← traverseOption f a) (← f u) (← f b)
  | .application c none => return .application (← c.traverse f) none
  | .application c (some as) => return .application (← c.traverse f) (some (← traverseList f as))
  | .sequence as => return .sequence (← traverseList f as)
  | .relation r a b => return .relation r (← f a) (← f b)
  | .connective c as => return .connective c (← traverseList f as)
  | .negation a => return .negation (← f a)
  | .opposite a => return .opposite (← f a)
  | .quantity a u => return .quantity (← traverseOption f a) (← u.traverse f)
  | .parenthesized a => return .parenthesized (← f a)
  | .constant n i => return .constant n (← f i)
  | .matrix r c as => return .matrix r c (← traverseList f as)
  | .evaluation a b => return .evaluation (← f a) (← traverseOption f b)
  | .equation a op bs b =>
      return .equation (← f a) op (← traverseList f bs) (← traverseOption f b)
  | .subscript a => return .subscript (← f a)
  | .identifier n i => return .identifier n (← f i)

def writtenOrder (silent : List Text) (order : Option Text) : Option Text :=
  order.filter (!silent.contains ·)

def differential (sign gap var : Text) (order : Option Text) (body : Text) : Text :=
  match order with
  | none => frac sign (sign ++ gap ++ var) ++ " " ++ body
  | some n => frac (sign ++ sup n) (sign ++ gap ++ var ++ sup n) ++ " " ++ body

def Side.mark : Side → Text
  | .both => []
  | .left => sup "-"
  | .right => sup "+"

def withUnit (value unit : Text) : Text :=
  match unit with
  | [] => value
  | c :: _ => if c = '^' then value ++ unit else value ++ "\\," ++ unit

def matrixRows (columns : Nat) : Nat → List Text → List (List Text)
  | 0, _ => []
  | rows + 1, ts =>
      let row := ts.take columns
      (row ++ List.replicate (columns - row.length) ['0']) ::
        matrixRows columns rows (ts.drop columns)

def matrixLayout (rows columns : Nat) (elements : List Text) : Text :=
  let lines := (matrixRows columns rows elements).map (joinWith " & ")
  environment "pmatrix" ("\n" ++ joinWith " \\\\\n" lines ++ "\n")

def Callee.template : Callee Text → Text
  | .known t => t
  | .computed t => t

def oppositeLayout (operand : Text) : Text :=
  if operand.any fun c => c == ' ' || c == '+' || c == '-' then '-' :: sized operand
  else '-' :: operand

def layout (lex : Lexicon) : Form Text → Text
  | .plain t => t
  | .nested t => t
  | .integral l u b v => "\\int" ++ sub l ++ sup u ++ " " ++ b ++ " \\, d" ++ v
  | .derivative v o b => differential (upright "d") [] v (writtenOrder ["1"] o) b
  | .partialDerivative v o b => differential "\\partial" " " v (writtenOrder ["", "1"] o) b
  | .limit v p s b => "\\lim" ++ sub (v ++ " \\to " ++ p ++ s.mark) ++ " " ++ b.getD v
  | .primed t n => t ++ List.replicate n '\x27'
  | .root o r =>
      match writtenOrder ["", "2"] o with
      | none => "\\sqrt" ++ group r
      | some n => "\\sqrt[" ++ n ++ "]" ++ group r
  | .series s i a u b =>
      s.command ++ sub (i.getD "i" ++ "=" ++ a.getD "1") ++ sup u ++ " " ++ b
  | .application c none => fillSlots c.template []
  | .application c (some ts) => applyTemplate c.template (joinWith ", " ts)
  | .sequence ts => joinWith ", " ts
  | .relation r a b => a ++ " " ++ r.sign ++ " " ++ b
  | .connective c ts => joinWith (" " ++ c.sign ++ " ") ts
  | .negation t => "\\neg " ++ t
  | .opposite t => oppositeLayout t
  | .quantity v u => withUnit (v.getD []) u.layout
  | .parenthesized t => sized t
  | .constant n i => lex.indexedConstant n i
  | .matrix r c ts => matrixLayout r c ts
  | .evaluation a b =>
      match b.getD [] with
      | [] => a
      | b => a ++ " \\rightarrow " ++ b
  | .equation a op ts b => a ++ " = " ++ b.getD ((op.render ts).getD [])
  | .subscript t => group t
  | .identifier n i => n ++ sub i

end Form

end WorksheetTex
