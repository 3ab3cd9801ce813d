import WorksheetTex.Text.Basic

namespace WorksheetTex.Text

def blankRanges : List (Nat × Nat) :=
  [ (0x9, 0xd), (0x20, 0x20), (0xa0, 0xa0), (0x1680, 0x1680), (0x2000, 0x200a), (0x2028, 0x2029),
    (0x202f, 0x202f), (0x205f, 0x205f), (0x3000, 0x3000), (0xfeff, 0xfeff) ]

def isBlank (c : Char) : Bool :=
  blankRanges.any fun r => decide (r.1 ≤ c.toNat) && decide (c.toNat ≤ r.2)

def isGap (c : Char) : Bool :=
  c == ' ' || c == '\t' || c == '\n' || c == '\r'

theorem isBlank_of_isGap {c : Char} (h : isGap c = true) : isBlank c = true := by
  simp only [isGap, Bool.or_eq_true, beq_iff_eq] at h
  rcases h with ((rfl | rfl) | rfl) | rfl <;> decide

def allBlank (t : Text) : Bool :=
  t.all isBlank

def trimStart (t : Text) : Text :=
  t.dropWhile isBlank

def trimEnd (t : Text) : Text :=
  (t.reverse.dropWhile isBlank).reverse

def trim (t : Text) : Text :=
  trimEnd (trimStart t)

theorem length_trim_le (t : Text) : (trim t).length ≤ t.length := by
  have h := (List.dropWhile_sublist isBlank (l := t)).length_le
  have h' := (List.dropWhile_sublist isBlank (l := (trimStart t).reverse)).length_le
  simp only [trim, trimEnd, trimStart, List.length_reverse] at h h' ⊢
  omega

def words : Text → List Text
  | [] => []
  | c :: r =>
      if isBlank c then words r
      else
        match r with
        | [] => [[c]]
        | d :: _ =>
            if isBlank d then [c] :: words r
            else
              match words r with
              | [] => [[c]]
              | w :: ws => (c :: w) :: ws

def collapseBlanks (t : Text) : Text :=
  joinWith [' '] (words t)

end WorksheetTex.Text
