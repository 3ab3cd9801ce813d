import WorksheetTex.Text.Basic

namespace WorksheetTex.Text

def isWide (c : Char) : Bool :=
  decide (0x10000 ≤ c.toNat)

def unitWidth (c : Char) : Nat :=
  if isWide c then 2 else 1

theorem unitWidth_pos (c : Char) : 0 < unitWidth c := by
  unfold unitWidth
  split <;> omega

def unitLength : Text → Nat
  | [] => 0
  | c :: r => unitWidth c + unitLength r

@[simp] theorem unitLength_append (s t : Text) :
    unitLength (s ++ t) = unitLength s + unitLength t := by
  induction s with
  | nil => simp [unitLength]
  | cons c r ih => simp [unitLength, ih, Nat.add_assoc]

theorem length_le_unitLength (t : Text) : t.length ≤ unitLength t := by
  induction t with
  | nil => simp
  | cons c r ih =>
      have := unitWidth_pos c
      simp only [List.length_cons, unitLength]
      omega

def fromUnit : Nat → Text → Option Text
  | 0, c :: r => some (c :: r)
  | _, [] => none
  | n + 1, c :: r => if unitWidth c ≤ n + 1 then fromUnit (n + 1 - unitWidth c) r else none

def dropUnits : Nat → Text → Text
  | 0, t => t
  | _, [] => []
  | n + 1, c :: r => dropUnits (n + 1 - unitWidth c) r

theorem length_dropUnits_le (n : Nat) (t : Text) : (dropUnits n t).length ≤ t.length := by
  induction t generalizing n with
  | nil => cases n <;> simp [dropUnits]
  | cons c r ih =>
      cases n with
      | zero => simp [dropUnits]
      | succ n => exact Nat.le_succ_of_le (ih _)

theorem length_dropUnits_succ (n : Nat) (c : Char) (r : Text) :
    (dropUnits (n + 1) (c :: r)).length ≤ r.length :=
  length_dropUnits_le _ r

end WorksheetTex.Text
