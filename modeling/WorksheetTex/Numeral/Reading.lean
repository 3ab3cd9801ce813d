import WorksheetTex.Numeral.Binary64
import WorksheetTex.Text.Blank

namespace WorksheetTex.Numeral

open Text

def digitValue (c : Char) : Nat :=
  if c.isDigit then c.toNat - 48
  else if c.isLower then c.toNat - 87
  else c.toNat - 55

def digitsValue (base : Nat) (ds : Text) : Nat :=
  ds.foldl (fun n c => base * n + digitValue c) 0

def takeSign : Text → Bool × Text
  | '-' :: r => (true, r)
  | '+' :: r => (false, r)
  | t => (false, t)

def leadingInteger (t : Text) : Option Int :=
  let (negative, r) := takeSign (trimStart t)
  let ds := r.takeWhile Char.isDigit
  if ds.isEmpty then none
  else
    let n : Int := digitsValue 10 ds
    some (if negative then -n else n)

def ofDecimal (negative : Bool) (digits : Text) (exponent : Int) : Binary64 :=
  let n := digitsValue 10 digits
  let size := (Nat.toDigits 10 n).length + exponent
  if n = 0 ∨ size < -400 then .zero negative
  else if 400 < size then .infinite negative
  else
    match exponent with
    | .ofNat k => .nearest negative (n * Nat.pow 10 k) 1
    | .negSucc k => .nearest negative n (Nat.pow 10 (k + 1))

def readExponent : Text → Option Int
  | [] => some 0
  | c :: r =>
      if c = 'e' ∨ c = 'E' then
        let (negative, ds) := takeSign r
        if !ds.isEmpty && ds.all Char.isDigit then
          let n : Int := digitsValue 10 ds
          some (if negative then -n else n)
        else none
      else none

def readDecimal (t : Text) : Option Binary64 :=
  let (negative, r) := takeSign t
  if r = "Infinity".toList then some (.infinite negative)
  else
    let whole := r.takeWhile Char.isDigit
    let rest := r.dropWhile Char.isDigit
    let (fraction, rest) :=
      match rest with
      | '.' :: s => (s.takeWhile Char.isDigit, s.dropWhile Char.isDigit)
      | s => ([], s)
    if whole.isEmpty && fraction.isEmpty then none
    else
      (readExponent rest).map fun e =>
        ofDecimal negative (whole ++ fraction) (e - fraction.length)

def isHexDigit (c : Char) : Bool :=
  c.isDigit || ('a' ≤ c && c ≤ 'f') || ('A' ≤ c && c ≤ 'F')

def readBase (base : Nat) (isDigit : Char → Bool) (ds : Text) : Option Binary64 :=
  if !ds.isEmpty && ds.all isDigit then some (.nearest false (digitsValue base ds) 1) else none

def readNumber (t : Text) : Option Binary64 :=
  match trim t with
  | [] => some (.zero false)
  | '0' :: c :: r =>
      if c = 'x' ∨ c = 'X' then readBase 16 isHexDigit r
      else if c = 'o' ∨ c = 'O' then readBase 8 (fun d => '0' ≤ d && d ≤ '7') r
      else if c = 'b' ∨ c = 'B' then readBase 2 (fun d => d == '0' || d == '1') r
      else readDecimal ('0' :: c :: r)
  | s => readDecimal s

end WorksheetTex.Numeral
