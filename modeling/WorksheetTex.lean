import WorksheetTex.CommandLine
import WorksheetTex.Conversion
import WorksheetTex.Evaluation.Collapse
import WorksheetTex.Evaluation.Piece
import WorksheetTex.Fault
import WorksheetTex.Form.Arguments
import WorksheetTex.Form.Basic
import WorksheetTex.Form.Head
import WorksheetTex.Form.Operator
import WorksheetTex.Form.Reading
import WorksheetTex.Form.UnitExpr
import WorksheetTex.Layer
import WorksheetTex.Main
import WorksheetTex.Numeral.Binary64
import WorksheetTex.Numeral.Reading
import WorksheetTex.Numeral.Shortest
import WorksheetTex.Options
import WorksheetTex.Paren.Balance
import WorksheetTex.Paren.Matching
import WorksheetTex.Proofs.Agreement
import WorksheetTex.Proofs.Apart
import WorksheetTex.Proofs.ArgumentShape
import WorksheetTex.Proofs.Assembly
import WorksheetTex.Proofs.Bare
import WorksheetTex.Proofs.Blank
import WorksheetTex.Proofs.Brace
import WorksheetTex.Proofs.BraceBalance
import WorksheetTex.Proofs.Clipping
import WorksheetTex.Proofs.CollapseSafety
import WorksheetTex.Proofs.CommandUnit
import WorksheetTex.Proofs.ControlWord
import WorksheetTex.Proofs.Declaration
import WorksheetTex.Proofs.Depth
import WorksheetTex.Proofs.DepthLimit
import WorksheetTex.Proofs.Diagnosis
import WorksheetTex.Proofs.EvaluationResult
import WorksheetTex.Proofs.Exponent
import WorksheetTex.Proofs.FunctionName
import WorksheetTex.Proofs.Glyph
import WorksheetTex.Proofs.GlyphCollapse
import WorksheetTex.Proofs.GlyphReading
import WorksheetTex.Proofs.GlyphScan
import WorksheetTex.Proofs.Growth
import WorksheetTex.Proofs.Hole
import WorksheetTex.Proofs.Imbalance
import WorksheetTex.Proofs.Invocation
import WorksheetTex.Proofs.Layer
import WorksheetTex.Proofs.Lexicon
import WorksheetTex.Proofs.Matching
import WorksheetTex.Proofs.Merge
import WorksheetTex.Proofs.Nesting
import WorksheetTex.Proofs.Notation
import WorksheetTex.Proofs.Note
import WorksheetTex.Proofs.Occurrence
import WorksheetTex.Proofs.Operand
import WorksheetTex.Proofs.OperatorSpacing
import WorksheetTex.Proofs.ParenBalance
import WorksheetTex.Proofs.PolishRule
import WorksheetTex.Proofs.PolishTwice
import WorksheetTex.Proofs.Privacy
import WorksheetTex.Proofs.Readability
import WorksheetTex.Proofs.Reading
import WorksheetTex.Proofs.Ready
import WorksheetTex.Proofs.Recogniser
import WorksheetTex.Proofs.Reduction
import WorksheetTex.Proofs.Reference
import WorksheetTex.Proofs.Repair
import WorksheetTex.Proofs.Replacement
import WorksheetTex.Proofs.Rounds
import WorksheetTex.Proofs.Sealed
import WorksheetTex.Proofs.Seam
import WorksheetTex.Proofs.SessionDepth
import WorksheetTex.Proofs.Settling
import WorksheetTex.Proofs.Shrinking
import WorksheetTex.Proofs.Simulation
import WorksheetTex.Proofs.Spacing
import WorksheetTex.Proofs.SpacingTwice
import WorksheetTex.Proofs.Splitting
import WorksheetTex.Proofs.Substitution
import WorksheetTex.Proofs.Survival
import WorksheetTex.Proofs.Sweep
import WorksheetTex.Proofs.Table
import WorksheetTex.Proofs.Tally
import WorksheetTex.Proofs.Tidy
import WorksheetTex.Proofs.Tree
import WorksheetTex.Proofs.Typesetting
import WorksheetTex.Proofs.UnitLetter
import WorksheetTex.Proofs.UnknownTag
import WorksheetTex.Proofs.Value
import WorksheetTex.Proofs.WholeForm
import WorksheetTex.Session
import WorksheetTex.Tex.Markup
import WorksheetTex.Tex.Polish
import WorksheetTex.Tex.Polish.BigOperator
import WorksheetTex.Tex.Polish.BinaryOperator
import WorksheetTex.Tex.Polish.Delimiter
import WorksheetTex.Tex.Polish.Exponent
import WorksheetTex.Tex.Polish.Fraction
import WorksheetTex.Tex.Polish.NamedFunction
import WorksheetTex.Tex.Polish.Quantity
import WorksheetTex.Tex.Spacing
import WorksheetTex.Text.Alphanumeric
import WorksheetTex.Text.Basic
import WorksheetTex.Text.Blank
import WorksheetTex.Text.Case.Lower
import WorksheetTex.Text.Case.Run
import WorksheetTex.Text.Case.Upper
import WorksheetTex.Text.Escape
import WorksheetTex.Text.Segment
import WorksheetTex.Text.Units
import WorksheetTex.Typesetting
import WorksheetTex.Vocabulary.Default
import WorksheetTex.Vocabulary.Glyph
import WorksheetTex.Vocabulary.Lexicon
import WorksheetTex.Vocabulary.Table
