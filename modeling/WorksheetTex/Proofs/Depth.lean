import WorksheetTex.Paren.Balance
import WorksheetTex.Paren.Matching
import WorksheetTex.Proofs.Splitting

namespace WorksheetTex.Paren

open Text Form

def depthFrom : Nat → Text → Option Nat
  | d, [] => some d
  | d, c :: r =>
      if c = '(' then depthFrom (d + 1) r
      else if c = ')' then
        match d with
        | 0 => none
        | d + 1 => depthFrom d r
      else depthFrom d r

def Balanced (t : Text) : Prop :=
  depthFrom 0 t = some 0

instance (t : Text) : Decidable (Balanced t) :=
  inferInstanceAs (Decidable (depthFrom 0 t = some 0))

@[simp] theorem depthFrom_open (d : Nat) (r : Text) :
    depthFrom d ('(' :: r) = depthFrom (d + 1) r := by
  simp [depthFrom]

@[simp] theorem depthFrom_close_zero (r : Text) : depthFrom 0 (')' :: r) = none := by
  simp [depthFrom]

@[simp] theorem depthFrom_close_succ (d : Nat) (r : Text) :
    depthFrom (d + 1) (')' :: r) = depthFrom d r := by
  simp [depthFrom]

theorem depthFrom_other {c : Char} (h : isParen c = false) (d : Nat) (r : Text) :
    depthFrom d (c :: r) = depthFrom d r := by
  simp only [isParen, Bool.or_eq_false_iff, beq_eq_false_iff_ne] at h
  simp [depthFrom, h.1, h.2]

theorem paren_cases (c : Char) : c = '(' ∨ c = ')' ∨ isParen c = false := by
  by_cases ho : c = '('
  · exact .inl ho
  · by_cases hc : c = ')'
    · exact .inr (.inl hc)
    · exact .inr (.inr (by simp [isParen, ho, hc]))

theorem ne_of_not_paren {c : Char} (h : isParen c = false) : c ≠ '(' ∧ c ≠ ')' := by
  simpa [isParen] using h

theorem depthFrom_append (d : Nat) (s t : Text) :
    depthFrom d (s ++ t) = (depthFrom d s).bind (depthFrom · t) := by
  induction s generalizing d with
  | nil => rfl
  | cons c r ih =>
      rcases paren_cases c with rfl | rfl | hc
      · simp [ih]
      · cases d with
        | zero => simp
        | succ d => simp [ih]
      · simp [depthFrom_other hc, ih]

structure Tallies (opening closing : Char) (f : Nat → Text → Option Nat) : Prop where
  nil (d : Nat) : f d [] = some d
  opens (d : Nat) (t : Text) : f d (opening :: t) = f (d + 1) t
  stops (t : Text) : f 0 (closing :: t) = none
  closes (d : Nat) (t : Text) : f (d + 1) (closing :: t) = f d t
  skips {c : Char} (d : Nat) (t : Text) : c ≠ opening → c ≠ closing → f d (c :: t) = f d t

theorem forall_prefix_cons {P : Text → Prop} {c : Char} {t : Text} :
    (∀ s, s <+: c :: t → P s) ↔ P [] ∧ ∀ s, s <+: t → P (c :: s) := by
  constructor
  · intro h
    exact ⟨h [] List.nil_prefix, fun s hs => h (c :: s) (by simpa using hs)⟩
  · rintro ⟨hnil, h⟩ s hs
    rcases List.prefix_cons_iff.mp hs with rfl | ⟨u, rfl, hu⟩
    · exact hnil
    · exact h u hu

theorem Tallies.eq_some_iff {opening closing : Char} {f : Nat → Text → Option Nat}
    (h : Tallies opening closing f) (hne : opening ≠ closing) {d e : Nat} {t : Text} :
    f d t = some e ↔ (∀ s, s <+: t → s.count closing ≤ d + s.count opening) ∧
      e + t.count closing = d + t.count opening := by
  induction t generalizing d with
  | nil => simp [h.nil, eq_comm]
  | cons c t ih =>
      rw [forall_prefix_cons]
      by_cases hopen : c = opening
      · subst hopen
        rw [h.opens, ih]
        simp [hne, Nat.add_comm, Nat.add_left_comm]
      · by_cases hclose : c = closing
        · subst hclose
          cases d with
          | zero =>
              have hnot : ¬∀ s, s <+: t → (c :: s).count c ≤ 0 + (c :: s).count opening :=
                fun hall => absurd (hall [] List.nil_prefix) (by simp [hopen])
              simp only [h.stops, hnot, reduceCtorEq, false_and, and_false]
          | succ d =>
              rw [h.closes, ih]
              simp [hopen, Nat.add_right_comm d 1, ← Nat.add_assoc e]
        · rw [h.skips d t hopen hclose, ih]
          simp [hopen, hclose]

theorem tallies_depthFrom : Tallies '(' ')' depthFrom where
  nil _ := rfl
  opens := depthFrom_open
  stops := depthFrom_close_zero
  closes := depthFrom_close_succ
  skips d t hopen hclose := depthFrom_other (by simp [isParen, hopen, hclose]) d t

theorem depthFrom_eq_some_iff {d e : Nat} {t : Text} :
    depthFrom d t = some e ↔
      (∀ s, s <+: t → s.count ')' ≤ d + s.count '(') ∧ e + t.count ')' = d + t.count '(' :=
  tallies_depthFrom.eq_some_iff (by decide)

theorem depthFrom_add {d d' : Nat} {t : Text} (h : depthFrom d t = some d') (k : Nat) :
    depthFrom (d + k) t = some (d' + k) := by
  induction t generalizing d with
  | nil =>
      obtain rfl : d = d' := by simpa [depthFrom] using h
      rfl
  | cons c r ih =>
      rcases paren_cases c with rfl | rfl | hc
      · rw [depthFrom_open] at h ⊢
        rw [Nat.add_right_comm]
        exact ih h
      · cases d with
        | zero => simp at h
        | succ d =>
            rw [depthFrom_close_succ] at h
            rw [Nat.add_right_comm, depthFrom_close_succ]
            exact ih h
      · rw [depthFrom_other hc] at h ⊢
        exact ih h

theorem depthFrom_flat {t : Text} (h : ∀ c ∈ t, isParen c = false) (d : Nat) :
    depthFrom d t = some d := by
  induction t with
  | nil => rfl
  | cons c r ih =>
      rw [depthFrom_other (h c (by simp))]
      exact ih fun x hx => h x (by simp [hx])

theorem Balanced.depthFrom {t : Text} (h : Balanced t) (d : Nat) : depthFrom d t = some d := by
  simpa using depthFrom_add h d

theorem balanced_flat {t : Text} (h : ∀ c ∈ t, isParen c = false) : Balanced t :=
  depthFrom_flat h 0

theorem level_eq {d e : Nat} {t : Text} (h : depthFrom d t = some e) : (d : Int) + level t = e := by
  induction t generalizing d with
  | nil =>
      obtain rfl := Option.some.inj h
      simp [level]
  | cons c t ih =>
      rcases paren_cases c with rfl | rfl | hc
      · have := ih (by simpa using h)
        simp [level, weight] at this ⊢
        omega
      · cases d with
        | zero => simp at h
        | succ d =>
            have := ih (by simpa using h)
            simp [level, weight] at this ⊢
            omega
      · rw [depthFrom_other hc] at h
        simpa [level, weight, ne_of_not_paren hc] using ih h

theorem Balanced.append {s t : Text} (hs : Balanced s) (ht : Balanced t) : Balanced (s ++ t) := by
  unfold Balanced at *
  rw [depthFrom_append, hs]
  exact ht

theorem Balanced.enclose {t : Text} (h : Balanced t) : Balanced ('(' :: (t ++ [')'])) := by
  unfold Balanced
  rw [depthFrom_open, depthFrom_append, h.depthFrom]
  rfl

theorem splitFrom_inside (cut : Cut) {d d' : Nat} {t : Text} (h : depthFrom d t = some d')
    (held k : Text) :
    splitFrom cut (d + 1) held (t ++ k) = splitFrom cut (d' + 1) (t.reverse ++ held) k := by
  induction t generalizing d held with
  | nil =>
      obtain rfl : d = d' := by simpa [depthFrom] using h
      rfl
  | cons c r ih =>
      have hd : ((d : Int) + 1 = 0) = False := by
        simp only [eq_iff_iff, iff_false]
        omega
      rcases paren_cases c with rfl | rfl | hc
      · rw [depthFrom_open] at h
        have := ih h ('(' :: held)
        simpa [splitFrom, hd] using this
      · cases d with
        | zero => simp at h
        | succ d =>
            rw [depthFrom_close_succ] at h
            have := ih h (')' :: held)
            simpa [splitFrom] using this
      · rw [depthFrom_other hc] at h
        have := ih h (c :: held)
        simpa [splitFrom, ne_of_not_paren hc, hd] using this

theorem closeFrom_append {d d' : Nat} {t : Text} (h : depthFrom d t = some d')
    (position : Nat) (k : Text) :
    closeFrom position d (t ++ k) = closeFrom (position + unitLength t) d' k := by
  induction t generalizing d position with
  | nil =>
      obtain rfl : d = d' := by simpa [depthFrom] using h
      rfl
  | cons c r ih =>
      rcases paren_cases c with rfl | rfl | hc
      · rw [depthFrom_open] at h
        have hw : unitWidth '(' = 1 := by decide
        simpa [closeFrom, unitLength, hw, Nat.add_assoc] using ih h (position + 1)
      · cases d with
        | zero => simp at h
        | succ d =>
            rw [depthFrom_close_succ] at h
            have hw : unitWidth ')' = 1 := by decide
            simpa [closeFrom, unitLength, hw, Nat.add_assoc] using ih h (position + 1)
      · rw [depthFrom_other hc] at h
        simpa [closeFrom, unitLength, ne_of_not_paren hc, Nat.add_assoc] using
          ih h (position + unitWidth c)

theorem isWhole_enclose {t : Text} (h : Balanced t) : isWhole ('(' :: (t ++ [')'])) = true := by
  have hw : unitWidth '(' = 1 ∧ unitWidth ')' = 1 := by decide
  have hc : closeFrom 1 0 (t ++ [')']) = some (1 + unitLength t) := by
    rw [closeFrom_append h]
    simp [closeFrom]
  have hm : matchingClose ('(' :: (t ++ [')'])) 0 = closeFrom 1 0 (t ++ [')']) := by
    simp [matchingClose, fromUnit]
  simp [isWhole, hm, hc, unitLength, hw, Nat.add_comm]

theorem balanceFrom_append {d d' : Nat} {t : Text} (h : depthFrom d t = some d') (k : Text) :
    balanceFrom d (t ++ k) = t ++ balanceFrom d' k := by
  induction t generalizing d with
  | nil =>
      obtain rfl : d = d' := by simpa [depthFrom] using h
      rfl
  | cons c r ih =>
      rcases paren_cases c with rfl | rfl | hc
      · rw [depthFrom_open] at h
        simp [balanceFrom, ih h]
      · cases d with
        | zero => simp at h
        | succ d =>
            rw [depthFrom_close_succ] at h
            simp [balanceFrom, ih h]
      · rw [depthFrom_other hc] at h
        simp [balanceFrom, ne_of_not_paren hc, ih h]

theorem depthFrom_replicate {d n d' : Nat}
    (h : depthFrom d (List.replicate n ')') = some d') : d = d' + n := by
  induction n generalizing d with
  | zero => exact Option.some.inj h
  | succ n ih =>
      cases d with
      | zero => cases h
      | succ d =>
          rw [List.replicate_succ, depthFrom_close_succ] at h
          have := ih h
          omega

theorem depthFrom_of_replicate {t : Text} {n : Nat} (h : Balanced (t ++ List.replicate n ')')) :
    depthFrom 0 t = some n := by
  rw [Balanced, depthFrom_append, Option.bind_eq_some_iff] at h
  obtain ⟨d, hd, hclose⟩ := h
  obtain rfl : d = n := by simpa using depthFrom_replicate hclose
  exact hd

theorem balance_clipped {t : Text} {n : Nat} (h : Balanced (t ++ List.replicate n ')')) :
    balance t = t ++ List.replicate n ')' := by
  have hbalance := balanceFrom_append (depthFrom_of_replicate h) []
  rw [List.append_nil] at hbalance
  exact hbalance

theorem balance_extended {t : Text} (h : Balanced t) (n : Nat) :
    balance (t ++ List.replicate n ')') = t := by
  have hdrop : balanceFrom 0 (List.replicate n ')') = [] := by
    induction n with
    | zero => rfl
    | succ n ih => exact ih
  rw [balance, balanceFrom_append h, hdrop, List.append_nil]

theorem depthFrom_balanceFrom (d : Nat) (t : Text) : depthFrom d (balanceFrom d t) = some 0 := by
  induction t generalizing d with
  | nil =>
      induction d with
      | zero => rfl
      | succ d ih => exact ih
  | cons c t ih =>
      rcases paren_cases c with rfl | rfl | hc
      · exact ih (d + 1)
      · cases d with
        | zero => exact ih 0
        | succ d => exact ih d
      · have hstep : balanceFrom d (c :: t) = c :: balanceFrom d t := by
          simp [balanceFrom, ne_of_not_paren hc]
        rw [hstep, depthFrom_other hc]
        exact ih d

theorem balanced_balance (t : Text) : Balanced (balance t) :=
  depthFrom_balanceFrom 0 t

theorem balance_of_balanced {t : Text} (h : Balanced t) : balance t = t := by
  simpa using balance_extended h 0

end WorksheetTex.Paren
