import WorksheetTex.Text.Blank
import WorksheetTex.Text.Units

namespace WorksheetTex.Form

open Text

inductive Cut where
  | atGaps
  | atGapsAndParens
deriving DecidableEq, Repr

def release (held : Text) : List Text :=
  if allBlank held then [] else [trim held.reverse]

def splitFrom (cut : Cut) (depth : Int) (held : Text) : Text → List Text
  | [] => release held
  | c :: r =>
      if c = '(' then
        if cut = .atGapsAndParens ∧ depth = 0 then release held ++ splitFrom cut 1 [c] r
        else splitFrom cut (depth + 1) (c :: held) r
      else if c = ')' then splitFrom cut (depth - 1) (c :: held) r
      else if isGap c ∧ depth = 0 then release held ++ splitFrom cut 0 [] r
      else splitFrom cut depth (c :: held) r

theorem length_le_of_mem_release {held p : Text} (h : p ∈ release held) :
    p.length ≤ held.length := by
  unfold release at h
  split at h
  · simp at h
  · obtain rfl := List.mem_singleton.mp h
    simpa using length_trim_le held.reverse

theorem length_le_of_mem_splitFrom {cut : Cut} {t p : Text} {depth : Int} {held : Text}
    (h : p ∈ splitFrom cut depth held t) : p.length ≤ held.length + t.length := by
  induction t generalizing depth held with
  | nil => simpa using length_le_of_mem_release h
  | cons c r ih =>
      have release_le (h : p ∈ release held) : p.length ≤ held.length + (c :: r).length :=
        Nat.le_add_right_of_le (length_le_of_mem_release h)
      simp only [splitFrom] at h
      split at h
      · split at h
        · rcases List.mem_append.mp h with h | h
          · exact release_le h
          · have := ih h
            grind
        · have := ih h
          grind
      · split at h
        · have := ih h
          grind
        · split at h
          · rcases List.mem_append.mp h with h | h
            · exact release_le h
            · have := ih h
              grind
          · have := ih h
            grind

def split (cut : Cut) (t : Text) : List Text :=
  splitFrom cut 0 [] t

def arguments (e : Text) : List Text :=
  split .atGapsAndParens
    (dropClosing ((e.drop 1).dropWhile fun c => !isGap c && c != '('))

def operands (e : Text) : List Text :=
  split .atGapsAndParens (dropUnits 2 (dropClosing e))

theorem length_lt_of_mem_operands {e p : Text} (h : p ∈ operands e) : p.length < e.length := by
  have hp : p.length ≤ (dropUnits 2 (dropClosing e)).length := by
    simpa using length_le_of_mem_splitFrom h
  have hl := length_dropClosing_le e
  cases hd : dropClosing e with
  | nil => simp [operands, hd, split, splitFrom, release, dropUnits, allBlank] at h
  | cons c r =>
      have := length_dropUnits_succ 1 c r
      grind

end WorksheetTex.Form
