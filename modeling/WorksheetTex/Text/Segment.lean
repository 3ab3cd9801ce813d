import WorksheetTex.Text.Basic

namespace WorksheetTex.Text

abbrev Rule (β : Type) := Text → Text → Option (Nat × β)

inductive Segment (β : Type) where
  | keep (c : Char)
  | hit (b : β)
deriving DecidableEq, Repr

variable {β : Type}

def segmentsFrom (rule : Rule β) : Text → Nat → Text → List (Segment β)
  | _, _, [] => []
  | before, k + 1, c :: r => segmentsFrom rule (c :: before) k r
  | before, 0, c :: r =>
      match rule before (c :: r) with
      | some (n + 1, b) => .hit b :: segmentsFrom rule (c :: before) n r
      | _ => .keep c :: segmentsFrom rule (c :: before) 0 r

def segments (rule : Rule β) (t : Text) : List (Segment β) :=
  segmentsFrom rule [] 0 t

def Segment.text : Segment Text → Text
  | .keep c => [c]
  | .hit t => t

def replaceAll (rule : Rule Text) (t : Text) : Text :=
  (segments rule t).flatMap Segment.text

theorem segmentsFrom_of_none {rule : Rule β} (h : ∀ before t, rule before t = none)
    (before t : Text) : segmentsFrom rule before 0 t = t.map .keep := by
  induction t generalizing before with
  | nil => rfl
  | cons c r ih => simp [segmentsFrom, h, ih]

end WorksheetTex.Text
