import WorksheetTex.Tex.Polish.BigOperator
import WorksheetTex.Tex.Polish.Exponent
import WorksheetTex.Tex.Polish.Fraction
import WorksheetTex.Tex.Polish.NamedFunction
import WorksheetTex.Tex.Polish.BinaryOperator
import WorksheetTex.Tex.Polish.Quantity
import WorksheetTex.Tex.Polish.Delimiter

namespace WorksheetTex.Tex

open Text Polish

def polishPasses : List (Text → Text) :=
  [fractions, spaceOperators, exponents, sizeParens, nameFunctions, displayLimits, setQuantities]

def runPasses : List (Text → Text) → Text → Text × Bool
  | [], t => (t, false)
  | pass :: r, t =>
      let next := pass t
      let (result, changed) := runPasses r next
      (result, next != t || changed)

def unchangedNote : Text :=
  "  % No further refinements available"

def polish (annotate : Bool) (t : Text) : Text :=
  if allBlank t then t
  else
    let (result, changed) := runPasses polishPasses t
    if !changed && annotate && !unchangedNote.isSuffixOf result then result ++ unchangedNote
    else result

end WorksheetTex.Tex
