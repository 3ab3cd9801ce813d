import WorksheetTex.Vocabulary.Default
import WorksheetTex.Vocabulary.Table
import WorksheetTex.Text.Case.Lower
import WorksheetTex.Text.Case.Upper
import WorksheetTex.Text.Units

namespace WorksheetTex.Vocabulary

open Text Tex

structure Declarations where
  units : List (Text × Text) := []
  constants : List (Text × Text) := []
  functions : List (Text × Text) := []
deriving DecidableEq, Repr

def Declarations.isEmpty (d : Declarations) : Bool :=
  d.units.isEmpty && d.constants.isEmpty && d.functions.isEmpty

structure Lexicon where
  units : Table
  constants : Table
  functions : Table
deriving DecidableEq, Repr

inductive LabelKind where
  | constant
  | unit
  | var
  | function
deriving DecidableEq, Repr

def LabelKind.ofName? (name : Text) : Option LabelKind :=
  let n := upper name
  if n = "CONSTANT".toList then some .constant
  else if n = "UNIT".toList then some .unit
  else if n = "VARIABLE".toList then some .var
  else if n = "FUNCTION".toList then some .function
  else none

namespace Lexicon

def default : Lexicon where
  units := (Table.mk defaultUnits).addSpellings
  constants := (Table.mk defaultConstants).addSpellings
  functions := Table.mk defaultFunctions

def merged (d : Declarations) : Lexicon where
  units := ((Table.mk defaultUnits).insertMany (declared d.units)).addSpellings
  constants := ((Table.mk defaultConstants).insertMany (declared d.constants)).addSpellings
  functions := (Table.mk defaultFunctions).insertMany (declared d.functions)

def ofDeclarations (d : Declarations) : Lexicon :=
  if d.isEmpty then default else merged d

def caselessUnit? (lex : Lexicon) (name : Text) : Option Text :=
  if 1 < unitLength name then
    (lex.units.entries.find? fun e => decide (1 < unitLength e.1) && upper e.1 == upper name).map
      (·.2)
  else none

def unit (lex : Lexicon) (name : Text) : Text :=
  if name = ['N'] then upright ['N']
  else ((lex.units.find? name).or (lex.caselessUnit? name)).getD (upright name)

def function (lex : Lexicon) (name : Text) : Text :=
  ((lex.functions.find? name).or (lex.functions.find? (lower name))).getD name

def indexedConstant (lex : Lexicon) (name index : Text) : Text :=
  (lex.constants.find? (name ++ "_" ++ index)).getD (name ++ sub index)

def label (lex : Lexicon) : LabelKind → Text → Text
  | .constant, name => (lex.constants.find? name).getD name
  | .unit, name => lex.unit name
  | .var, name => name
  | .function, name => operatorName name

end Lexicon

def fillSlots (template argument : Text) : Text :=
  template.flatMap fun c => if c = '#' then argument else [c]

def applyTemplate (template argument : Text) : Text :=
  if template.contains '#' then fillSlots template argument
  else template ++ "(" ++ argument ++ ")"

end WorksheetTex.Vocabulary
