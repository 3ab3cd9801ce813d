
namespace WorksheetTex.Numeral

inductive Binary64 where
  | finite (negative : Bool) (significand : Nat) (exponent : Int)
  | infinite (negative : Bool)
  | nan
deriving DecidableEq, Repr

def roundHalfEven (n d : Nat) : Nat :=
  let q := n / d
  let r := n % d
  if 2 * r < d then q
  else if d < 2 * r then q + 1
  else if q % 2 = 0 then q
  else q + 1

def unscale (n d : Nat) : Int → Nat × Nat
  | .ofNat k => (n, d * Nat.pow 2 k)
  | .negSucc k => (n * Nat.pow 2 (k + 1), d)

def floorLog2 (n d : Nat) : Int :=
  let guess : Int := (n.log2 : Int) - (d.log2 : Int)
  let (a, b) := unscale n d guess
  if b ≤ a then guess else guess - 1

namespace Binary64

def least : Int := -1074

def greatest : Int := 971

def zero (negative : Bool) : Binary64 :=
  .finite negative 0 least

def nearest (negative : Bool) (n d : Nat) : Binary64 :=
  if n = 0 then zero negative
  else
    let e := max (floorLog2 n d - 52) least
    let (a, b) := unscale n d e
    let m := roundHalfEven a b
    let (m, e) := if m = Nat.pow 2 53 then (Nat.pow 2 52, e + 1) else (m, e)
    if greatest < e then .infinite negative else .finite negative m e

def isInteger : Binary64 → Bool
  | .finite _ _ (.ofNat _) => true
  | .finite _ m (.negSucc k) => m % Nat.pow 2 (k + 1) == 0
  | _ => false

def ceil : Binary64 → Nat
  | .finite true _ _ => 0
  | .finite false m (.ofNat k) => m * Nat.pow 2 k
  | .finite false m (.negSucc k) => (m + Nat.pow 2 (k + 1) - 1) / Nat.pow 2 (k + 1)
  | .infinite true => 0
  | .infinite false => Nat.pow 2 1024
  | .nan => Nat.pow 2 1024

end Binary64

end WorksheetTex.Numeral
