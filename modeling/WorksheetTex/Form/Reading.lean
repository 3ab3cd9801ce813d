import WorksheetTex.Fault
import WorksheetTex.Form.Basic
import WorksheetTex.Numeral.Reading

namespace WorksheetTex.Form

open Text Tex Vocabulary Numeral

def startsWith (t w : Text) : Bool :=
  w.isPrefixOf t

def given (a : Text) : Option Text :=
  if a = "@PLACEHOLDER".toList then none else some a

def readPartialDerivative : List Text → Form Text
  | v :: o :: b :: r => .partialDerivative v ((given o).or r.head?) b
  | _ => .plain []

def readLimit : List Text → Form Text
  | v :: p :: b :: r =>
      if b = "@LEFT_HAND".toList then .limit v p .left r.head?
      else if b = "@RIGHT_HAND".toList then .limit v p .right r.head?
      else .limit v p .both (some b)
  | _ => .plain []

def maxTextLength : Nat := 536870888

def primeCount (t : Text) : Except Fault Nat :=
  match leadingInteger t with
  | none => .ok 1
  | some n =>
      if n < 1 then .ok 1
      else if n ≤ maxTextLength then .ok n.toNat
      else if n < (Nat.pow 2 1024 - Nat.pow 2 970 : Nat) then .error .textTooLong
      else .error .countInfinite

def readPrime : List Text → Except Fault (Form Text)
  | [] => .ok (.plain [])
  | [a] => .ok (.primed a 1)
  | a :: n :: _ => (primeCount n).map (.primed a)

def readSeries (s : Series) : List Text → Form Text
  | a :: b :: c :: r =>
      if startsWith a "(@IS" then
        match arguments a with
        | i :: j :: _ => .series s (some i) (some j) b c
        | _ => .series s none none b c
      else
        match r with
        | [] => .series s (some a) none b c
        | d :: _ => .series s (some a) (some b) c d
  | _ => .plain s.command

def readCallee (lex : Lexicon) (a : Text) : Callee Text :=
  if startsWith a "(" then .computed a else .known (lex.function a)

def readApplication (lex : Lexicon) : List Text → Form Text
  | [] => .plain []
  | [a] => .application (readCallee lex a) none
  | a :: b :: _ =>
      .application (readCallee lex a) (some (if startsWith b "(@ARGS" then arguments b else [b]))

def subscriptOf (a : Text) : Option Text :=
  if startsWith a "(@SUB" then (arguments a).head? else some a

def readConstant (lex : Lexicon) (t : Text) : Form Text :=
  match lex.constants.find? t with
  | some known => .plain known
  | none =>
      if startsWith t "(@ID" then
        match arguments t with
        | [] => .plain t
        | [n] => .plain n
        | n :: i :: _ =>
            match subscriptOf i with
            | some i => .constant n i
            | none => .plain (lex.indexedConstant n [])
      else .plain t

def readLabel (lex : Lexicon) (kind t : Text) : Option (Form Text) :=
  (LabelKind.ofName? kind).map fun
    | .constant => readConstant lex t
    | k => .plain (lex.label k t)

def readIdentifier : List Text → Form Text
  | [] => .plain []
  | n :: r =>
      match r.find? (startsWith · "(@SUB") with
      | none => .plain n
      | some a =>
          match (arguments a).head? with
          | some i => .identifier n i
          | none => .plain (n ++ sub [])

def resultValue (a : Text) : Option Text :=
  if startsWith a "(@PARENS" then (arguments a).head? else some a

def maxMatrixSize : Nat := 4096

def readMatrix : List Text → Form Text
  | r :: c :: e :: es =>
      match leadingInteger r, leadingInteger c with
      | some (.ofNat rows), some (.ofNat columns) =>
          if 0 < rows ∧ 0 < columns ∧ rows * columns ≤ maxMatrixSize then
            .matrix rows columns ((e :: es).take (rows * columns))
          else emptyMatrix
      | _, _ => emptyMatrix
  | _ => emptyMatrix
where
  emptyMatrix : Form Text := .plain (environment "pmatrix" " ")

def readEvaluation : List Text → Form Text
  | a :: b :: r => .evaluation a (if startsWith b "(@KW_STACK" then r.head? else some b)
  | _ => .plain []

def readEquation : List Text → Form Text
  | a :: b :: _ =>
      match operator? b with
      | none | some .power => .relation .equal a b
      | some op =>
          let bs := operands b
          .equation a op bs (if op.accepts bs.length then none else some b)
  | _ => .plain []

def readEquality (e : Text) : Form Text :=
  let content := trim ((dropClosing e).drop 2)
  match split .atGaps content with
  | a :: _ :: _ => .relation .equal a (trim (content.drop a.length))
  | _ => .plain e

def readTagged (lex : Lexicon) (tag : Tag) (e : Text) : Except Fault (Form Text) :=
  let args := arguments e
  match tag, args with
  | .integral, l :: u :: b :: v :: _ => .ok (.integral l u b v)
  | .integral, _ => .ok (.plain ("\\int" ++ group []))
  | .derivative, v :: o :: b :: _ => .ok (.derivative v (given o) b)
  | .partialDerivative, args => .ok (readPartialDerivative args)
  | .limit, args => .ok (readLimit args)
  | .prime, args => readPrime args
  | .root, o :: r :: _ => .ok (.root (given o) r)
  | .series s, args => .ok (readSeries s args)
  | .apply, args => .ok (readApplication lex args)
  | .arguments, args => .ok (.sequence args)
  | .relation r, a :: b :: _ => .ok (.relation r a b)
  | .connective c, a :: b :: r => .ok (.connective c (a :: b :: r))
  | .not, a :: _ => .ok (.negation a)
  | .opposite, a :: _ => .ok (.opposite a)
  | .scale, a :: u :: _ => .ok (.quantity (some a) (readUnit lex u))
  | .resultScale, a :: u :: _ => .ok (.quantity (resultValue a) (readUnit lex u))
  | .parens, a :: _ => .ok (.parenthesized a)
  | .parens, [] => .ok (.plain "()")
  | .label, k :: t :: _ => .ok ((readLabel lex k t).getD (.nested t))
  | .matrix, args => .ok (readMatrix args)
  | .symbolicEvaluation, args => .ok (readEvaluation args)
  | .subscript, a :: _ => .ok (.subscript a)
  | .identifier, args => .ok (readIdentifier args)
  | .equation, args => .ok (readEquation args)
  | .equals, _ => .ok (readEquality e)
  | _, _ => .ok (.plain [])

def read (lex : Lexicon) (e : Text) : Except Fault (Form Text) :=
  match tag? e with
  | some tag => readTagged lex tag e
  | none => .ok (.plain e)

end WorksheetTex.Form
