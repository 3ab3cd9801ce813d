
namespace WorksheetTex

abbrev Text := List Char

instance : Coe String Text := ⟨String.toList⟩

namespace Text

def isLatin (c : Char) : Bool :=
  c.isAlpha

def isWord (c : Char) : Bool :=
  c.isAlphanum || c == '_'

def isParen (c : Char) : Bool :=
  c == '(' || c == ')'

def occursIn (w : Text) : Text → Bool
  | [] => w.isEmpty
  | c :: r => w.isPrefixOf (c :: r) || occursIn w r

theorem occursIn_iff {w t : Text} : occursIn w t = true ↔ w <:+: t := by
  induction t with
  | nil => simp [occursIn]
  | cons c r ih => simp [occursIn, ih, List.infix_cons_iff]

def latinAlphabet : Text :=
  "abcdefghijklmnopqrstuvwxyzABCDEFGHIJKLMNOPQRSTUVWXYZ"

def isLatinStretch (t : Text) : Bool :=
  occursIn t latinAlphabet

def dropClosing (t : Text) : Text :=
  if t.getLast? = some ')' then t.dropLast else t

theorem length_dropClosing_le (t : Text) : (dropClosing t).length ≤ t.length := by
  unfold dropClosing
  split <;> simp

def endsIn (before w : Text) : Bool :=
  w.reverse.isPrefixOf before

theorem endsIn_iff {before w : Text} : endsIn before w = true ↔ w <:+ before.reverse := by
  simp [endsIn, ← List.reverse_prefix]

def joinWith (separator : Text) (ts : List Text) : Text :=
  separator.intercalate ts

end Text

end WorksheetTex
