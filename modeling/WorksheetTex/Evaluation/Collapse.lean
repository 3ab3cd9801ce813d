import WorksheetTex.Evaluation.Piece
import WorksheetTex.Form.Head
import WorksheetTex.Paren.Balance
import WorksheetTex.Vocabulary.Lexicon
import WorksheetTex.Text.Blank

namespace WorksheetTex.Evaluation

open Text Paren Vocabulary Form

def dropPrefix? : Text → Text → Option Text
  | [], t => some t
  | _ :: _, [] => none
  | a :: w, c :: r => if a = c then dropPrefix? w r else none

def dropBlanks? : Text → Option Text
  | c :: r => if isBlank c then some (trimStart r) else none
  | [] => none

def takeRun? (p : Char → Bool) (t : Text) : Option (Text × Text) :=
  match t.takeWhile p with
  | [] => none
  | w => some (w, t.dropWhile p)

def isAtomic (c : Char) : Bool :=
  !isParen c && !isBlank c

def spacedItems? (t : Text) : Option (List Text × Text) := do
  let (body, rest) ← takeRun? (!isParen ·) t
  match body with
  | c :: r =>
      if isBlank c && !r.isEmpty then
        match words r with
        | [] => some ([[]], rest)
        | ws => some (ws, rest)
      else none
  | [] => none

def consumed (t rest : Text) : Nat :=
  t.length - rest.length

abbrev Scan :=
  Text → Option (Text × Text)

def Scan.rule (scan : Scan) : Rule Text := fun _ t =>
  (scan t).map fun found => (consumed t found.2, found.1)

def labelPiece (lex : Lexicon) (kind name : Text) : Text :=
  ((LabelKind.ofName? kind).map (lex.label · (replaceGlyphs name))).getD (replaceGlyphs name)

def applyPiece (lex : Lexicon) (name : Text) (items : List Text) : Text :=
  applyTemplate (lex.function name) (joinWith ", " (items.map replaceGlyphs))

def labelScan (lex : Lexicon) : Scan := fun t => do
  let r ← dropPrefix? "(@LABEL" t
  let (kind, r) ← takeRun? isLatin (← dropBlanks? r)
  let (name, r) ← takeRun? isAtomic (← dropBlanks? r)
  let rest ← dropPrefix? ")" r
  return (labelPiece lex kind name, rest)

def applyScan (lex : Lexicon) : Scan := fun t => do
  let r ← dropPrefix? "(@APPLY" t
  let (name, r) ← takeRun? isAtomic (← dropBlanks? r)
  let r ← dropPrefix? "(@ARGS" (← dropBlanks? r)
  let (items, r) ← spacedItems? r
  let rest ← dropPrefix? "))" r
  return (applyPiece lex name items, rest)

def operatorScan : Scan := fun t => do
  let op ← operator? t
  let (items, r) ← spacedItems? (t.drop 2)
  let rest ← dropPrefix? ")" r
  let piece ← op.render (items.map replaceGlyphs)
  return (piece, rest)

def labelRule (lex : Lexicon) : Rule Text :=
  (labelScan lex).rule

def applyRule (lex : Lexicon) : Rule Text :=
  (applyScan lex).rule

def operatorRule : Rule Text :=
  operatorScan.rule

structure State where
  text : Text
  pieces : List Text
deriving DecidableEq, Repr

def State.apply (s : State) (rule : Rule Text) : State :=
  let (t, ps) := stow s.pieces (segments rule s.text)
  ⟨t, ps⟩

def State.round (lex : Lexicon) (s : State) : State :=
  ((s.apply (labelRule lex)).apply (applyRule lex)).apply operatorRule

def State.settleWithin (lex : Lexicon) : Nat → State → State
  | 0, s => s
  | n + 1, s =>
      let next := s.round lex
      if next.text = s.text then s else settleWithin lex n next

def State.settle (lex : Lexicon) (s : State) : State :=
  s.settleWithin lex (s.text.count '(')

def isTagCapital (c : Char) : Bool :=
  c.isUpper || c == '_'

def bareTagScan : Scan := fun t => do
  let r ← dropPrefix? "(@" t
  let (_, r) ← takeRun? isTagCapital r
  return ([], trimStart r)

def bareTagRule : Rule Text :=
  bareTagScan.rule

def dropTags (t : Text) : Text :=
  replaceAll bareTagRule t

def collapse (lex : Lexicon) (e : Text) : Except Fault Text := do
  let s := State.settle lex ⟨balance e, []⟩
  let s := State.settle lex { s with text := balance (dropTags s.text) }
  return collapseBlanks (← expandAll s.pieces s.text)

end WorksheetTex.Evaluation
