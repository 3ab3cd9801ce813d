import WorksheetTex.Form.Operator

namespace WorksheetTex.Form

open Text

inductive Series where
  | sum
  | product
deriving DecidableEq, Repr

inductive Relation where
  | elementOf
  | exclusiveOr
  | atLeast
  | atMost
  | greater
  | less
  | notEqual
  | equal
  | cross
  | dot
deriving DecidableEq, Repr

inductive Connective where
  | and
  | or
deriving DecidableEq, Repr

inductive Tag where
  | integral
  | derivative
  | partialDerivative
  | limit
  | prime
  | root
  | series (s : Series)
  | apply
  | arguments
  | relation (r : Relation)
  | connective (c : Connective)
  | not
  | opposite
  | scale
  | resultScale
  | parens
  | label
  | matrix
  | symbolicEvaluation
  | subscript
  | identifier
  | equation
  | equals
deriving DecidableEq, Repr

def Series.command : Series → Text
  | .sum => "\\sum"
  | .product => "\\prod"

def Relation.sign : Relation → Text
  | .elementOf => "\\in"
  | .exclusiveOr => "\\oplus"
  | .atLeast => "\\geq"
  | .atMost => "\\leq"
  | .greater => ">"
  | .less => "<"
  | .notEqual => "\\neq"
  | .equal => "="
  | .cross => "\\times"
  | .dot => "\\cdot"

def Connective.sign : Connective → Text
  | .and => "\\land"
  | .or => "\\lor"

def named (name : Text) (tag : Tag) : Text × Tag :=
  (name, tag)

def tagNames : List (Text × Tag) :=
  [ named "@INTEGRAL" .integral, named "@PART_DERIV" .partialDerivative, named "@LIMIT" .limit,
    named "@DERIV" .derivative, named "@PRIME" .prime, named "@NTHROOT" .root,
    named "@PRODUCT" (.series .product), named "@SUM" (.series .sum), named "@APPLY" .apply,
    named "@ARGS" .arguments, named "@ELEMENT_OF" (.relation .elementOf),
    named "@XOR" (.relation .exclusiveOr), named "@GEQ" (.relation .atLeast),
    named "@LEQ" (.relation .atMost), named "@GREATER_THAN" (.relation .greater),
    named "@LESS_THAN" (.relation .less), named "@AND" (.connective .and),
    named "@OR" (.connective .or), named "@NOT" .not, named "@NEQ" (.relation .notEqual),
    named "@NEG" .opposite, named "@SCALE" .scale, named "@RSCALE" .resultScale,
    named "@PARENS" .parens, named "@LABEL" .label, named "@IS" (.relation .equal),
    named "@MATRIX" .matrix, named "@CROSS" (.relation .cross), named "@DOT" (.relation .dot),
    named "@SYM_EVAL" .symbolicEvaluation, named "@SUB" .subscript, named "@ID" .identifier,
    named "@EQ" .equation, named "=" .equals ]

def operator? : Text → Option Operator
  | '(' :: c :: _ => Operator.ofChar? c
  | _ => none

def isTagLetter (c : Char) : Bool :=
  isLatin c || c == '_'

def tagName? : Text → Option Text
  | '(' :: '=' :: _ => some ['=']
  | '(' :: '@' :: r =>
      let w := r.takeWhile isTagLetter
      if w.isEmpty then none else some ('@' :: w)
  | _ => none

def tag? (e : Text) : Option Tag :=
  (tagName? e).bind (List.lookup · tagNames)

end WorksheetTex.Form
