import WorksheetTex.Proofs.Depth
import WorksheetTex.Options

namespace WorksheetTex

open Text Paren Vocabulary Form Evaluation

theorem Paren.exists_of_closeFrom {position depth q : Nat} {t : Text}
    (h : closeFrom position depth t = some q) :
    ∃ u v, t = u ++ ')' :: v ∧ q = position + unitLength u ∧ depthFrom depth u = some 0 := by
  have hw : unitWidth '(' = 1 ∧ unitWidth ')' = 1 := by decide
  induction t generalizing position depth with
  | nil => cases h
  | cons c r ih =>
      have extend {position' depth' : Nat} (hp : position' = position + unitWidth c)
          (hd : ∀ u, depthFrom depth (c :: u) = depthFrom depth' u)
          (h : closeFrom position' depth' r = some q) :
          ∃ u v, c :: r = u ++ ')' :: v ∧ q = position + unitLength u ∧
            depthFrom depth u = some 0 := by
        obtain ⟨u, v, rfl, rfl, hu⟩ := ih h
        exact ⟨c :: u, v, rfl, by rw [hp, unitLength, Nat.add_assoc], (hd u).trans hu⟩
      rcases paren_cases c with rfl | rfl | hc
      · simp only [closeFrom, if_true] at h
        exact extend (by rw [hw.1]) (fun u => depthFrom_open depth u) h
      · cases depth with
        | zero =>
            obtain rfl : position = q := by simpa [closeFrom] using h
            exact ⟨[], r, rfl, rfl, rfl⟩
        | succ d =>
            replace h : closeFrom (position + 1) d r = some q := by simpa [closeFrom] using h
            exact extend (by rw [hw.2]) (fun u => depthFrom_close_succ d u) h
      · simp only [closeFrom, ne_of_not_paren hc, if_false] at h
        exact extend rfl (fun u => depthFrom_other hc depth u) h

theorem Paren.isWhole_iff {e : Text} :
    isWhole e = true ↔ ∃ t, Balanced t ∧ e = '(' :: (t ++ [')']) := by
  refine ⟨fun h => ?_, fun ⟨t, ht, he⟩ => he ▸ isWhole_enclose ht⟩
  have hw : unitWidth '(' = 1 ∧ unitWidth ')' = 1 := by decide
  rw [isWhole, beq_iff_eq] at h
  cases e with
  | nil => cases h
  | cons c r =>
      by_cases hc : c = '('
      · subst hc
        change closeFrom 1 0 r = _ at h
        obtain ⟨u, v, rfl, hq, hu⟩ := exists_of_closeFrom h
        have hlen := length_le_unitLength v
        simp only [unitLength, unitLength_append, hw] at hq
        obtain rfl : v = [] := List.eq_nil_of_length_eq_zero (by omega)
        exact ⟨u, hu, rfl⟩
      · have hunit : fromUnit 0 (c :: r) = some (c :: r) := rfl
        simp [matchingClose, hunit, hc] at h

theorem Form.exists_body {e : Text} {op : Operator} (hop : operator? e = some op)
    (hw : isWhole e = true) : ∃ body, e = '(' :: op.symbol :: (body ++ [')']) := by
  obtain ⟨t, -, rfl⟩ := isWhole_iff.mp hw
  obtain ⟨r, hr⟩ := exists_of_operator? hop
  cases t with
  | nil =>
      have hs : ')' = op.symbol := (List.cons.inj (List.cons.inj hr).2).1
      cases op <;> exact absurd hs (by decide)
  | cons c body =>
      obtain rfl : c = op.symbol := (List.cons.inj (List.cons.inj hr).2).1
      exact ⟨body, rfl⟩

namespace Layer

def spacedOperands (e : Text) : List Text :=
  split .atGaps (trim ((e.drop 2).dropLast))

variable {e : Text} {op : Operator}

theorem operands_eq_flatMap (hop : operator? e = some op) (hw : isWhole e = true) :
    operands e = (spacedOperands e).flatMap (split .atGapsAndParens) := by
  obtain ⟨body, rfl⟩ := exists_body hop hw
  have hspaced : spacedOperands ('(' :: op.symbol :: (body ++ [')'])) = split .atGaps body := by
    rw [spacedOperands, split_trim]
    simp
  rw [hspaced, operands_enclose]
  exact split_eq_flatMap body

theorem readEvaluation_of_operator? (lex : Lexicon) (hop : operator? e = some op) :
    readEvaluation lex e =
      if isWhole e = true ∧ 2 ≤ (spacedOperands e).length then
        .ok (.arithmetic op (spacedOperands e))
      else (collapse lex e).map fun t =>
        if t = e then .arithmetic op (operands e) else .done t := by
  rw [readEvaluation, hop]
  change (if isWhole e && decide (2 ≤ (spacedOperands e).length) then
    Except.ok (Layer.arithmetic op (spacedOperands e)) else _) = _
  simp only [Bool.and_eq_true, decide_eq_true_eq]
  split
  · rfl
  · cases collapse lex e with
    | error fault => rfl
    | ok t => by_cases ht : t = e <;> simp [ht, Except.map, bind, Except.bind, pure, Except.pure]

end Layer

end WorksheetTex
