import WorksheetTex.Fault
import WorksheetTex.Numeral.Reading
import WorksheetTex.Text.Segment

namespace WorksheetTex.Evaluation

open Text Numeral

def openMark : Char := Char.ofNat 0xe000

def closeMark : Char := Char.ofNat 0xe001

def reference (n : Nat) : Text :=
  openMark :: Nat.toDigits 10 n ++ [closeMark]

def stow (pieces : List Text) : List (Segment Text) → Text × List Text
  | [] => ([], pieces)
  | .keep c :: r =>
      let (t, ps) := stow pieces r
      (c :: t, ps)
  | .hit piece :: r =>
      let (t, ps) := stow (pieces ++ [piece]) r
      (reference pieces.length ++ t, ps)

def referenceRule : Rule Nat := fun _ t =>
  match t with
  | [] => none
  | c :: r =>
      let ds := r.takeWhile Char.isDigit
      if c = openMark ∧ ds ≠ [] ∧ (r.drop ds.length).head? = some closeMark then
        some (ds.length + 2, digitsValue 10 ds)
      else none

def expand (pieces : List Text) : Nat → Text → Except Fault Text
  | 0, _ => .error .referencesCyclic
  | fuel + 1, t => do
      let ts ← (segments referenceRule t).mapM fun
        | .keep c => .ok [c]
        | .hit n =>
            match pieces[n]? with
            | none => .ok []
            | some piece => expand pieces fuel piece
      return ts.flatten

def expandAll (pieces : List Text) (t : Text) : Except Fault Text :=
  expand pieces (pieces.length + 1) t

end WorksheetTex.Evaluation
