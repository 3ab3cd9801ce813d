import WorksheetTex.Numeral.Binary64
import WorksheetTex.Text.Basic

namespace WorksheetTex.Numeral

structure Decimal where
  digits : Nat
  exponent : Int
deriving DecidableEq, Repr

structure Bracket where
  low : Nat
  value : Nat
  high : Nat
  scale : Nat
  closed : Bool

def Bracket.of (m : Nat) (e : Int) : Bracket :=
  let below := if m = Nat.pow 2 52 ∧ Binary64.least < e then 4 * m - 1 else 4 * m - 2
  let even := m % 2 == 0
  match e - 2 with
  | .ofNat k => ⟨below * Nat.pow 2 k, 4 * m * Nat.pow 2 k, (4 * m + 2) * Nat.pow 2 k, 1, even⟩
  | .negSucc k => ⟨below, 4 * m, 4 * m + 2, Nat.pow 2 (k + 1), even⟩

def Bracket.scaled (b : Bracket) : Int → Bracket
  | .ofNat k => { b with scale := b.scale * Nat.pow 10 k }
  | .negSucc k =>
      { b with
        low := b.low * Nat.pow 10 (k + 1)
        value := b.value * Nat.pow 10 (k + 1)
        high := b.high * Nat.pow 10 (k + 1) }

def Bracket.holds (b : Bracket) (n : Nat) : Bool :=
  let x := n * b.scale
  if b.closed then decide (b.low ≤ x) && decide (x ≤ b.high)
  else decide (b.low < x) && decide (x < b.high)

def Bracket.pick (b : Bracket) : Option Nat :=
  let n := b.value / b.scale
  let r := b.value % b.scale
  let up := b.scale < 2 * r || (2 * r == b.scale && n % 2 == 1)
  match b.holds n, b.holds (n + 1) with
  | true, true => some (if up then n + 1 else n)
  | true, false => some n
  | false, true => some (n + 1)
  | false, false => none

def leadingZeros : Nat → Nat → Nat → Nat
  | 0, _, _ => 0
  | fuel + 1, n, d => if d ≤ 10 * n then 0 else leadingZeros fuel (10 * n) d + 1

def pointPlace (n d : Nat) : Int :=
  if d ≤ n then (Nat.toDigits 10 (n / d)).length else -(leadingZeros 400 n d : Int)

def shortestFrom (b : Bracket) (point : Int) : Nat → Nat → Decimal
  | _, 0 => ⟨b.value / b.scale, 0⟩
  | places, more + 1 =>
      let e := point - places
      match (b.scaled e).pick with
      | some n => ⟨n, e⟩
      | none => shortestFrom b point (places + 1) more

def shortest (m : Nat) (e : Int) : Decimal :=
  let b := Bracket.of m e
  shortestFrom b (pointPlace b.value b.scale) 1 17

def stripZeros : Nat → Nat → Int → Decimal
  | 0, n, e => ⟨n, e⟩
  | fuel + 1, n, e => if n % 10 = 0 then stripZeros fuel (n / 10) (e + 1) else ⟨n, e⟩

def zeros (n : Nat) : Text :=
  List.replicate n '0'

def Decimal.text (d : Decimal) : Text :=
  let d := stripZeros 20 d.digits d.exponent
  let ds := Nat.toDigits 10 d.digits
  let point := ds.length + d.exponent
  if ds.length ≤ point ∧ point ≤ 21 then ds ++ zeros (point - ds.length).toNat
  else if 0 < point ∧ point ≤ 21 then ds.take point.toNat ++ "." ++ ds.drop point.toNat
  else if -6 < point ∧ point ≤ 0 then "0." ++ zeros (-point).toNat ++ ds
  else
    let e := point - 1
    let mark : Text := if e < 0 then "e-" else "e+"
    let body : Text := if ds.length = 1 then ds else ds.take 1 ++ "." ++ ds.drop 1
    body ++ mark ++ Nat.toDigits 10 e.natAbs

def Binary64.text : Binary64 → Text
  | .nan => "NaN"
  | .infinite negative => if negative then "-Infinity" else "Infinity"
  | .finite negative m e =>
      if m = 0 then "0"
      else if negative then "-" ++ (shortest m e).text
      else (shortest m e).text

end WorksheetTex.Numeral
