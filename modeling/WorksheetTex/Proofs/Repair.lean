import WorksheetTex.Proofs.Diagnosis

namespace WorksheetTex.Paren

open Text

inductive Sheds : Nat → Text → Text → Prop
  | nil : Sheds 0 [] []
  | keep {n : Nat} {t u : Text} (c : Char) : Sheds n t u → Sheds n (c :: t) (c :: u)
  | drop {n : Nat} {t u : Text} : Sheds n t u → Sheds (n + 1) (')' :: t) u

def Repairs (t : Text) (d a : Nat) (r : Text) : Prop :=
  ∃ u, Sheds d t u ∧ r = u ++ List.replicate a ')'

theorem imbalance?_eq_none_iff {t : Text} : imbalance? t = none ↔ Balanced t := by
  refine ⟨fun h => Decidable.not_not.mp fun hnot => ?_, imbalance?_of_balanced⟩
  obtain ⟨w, hw, -⟩ := exists_imbalance_of_not_balanced hnot
  rw [h] at hw
  cases hw

theorem Sheds.depthFrom {n k e : Nat} {t u : Text} (h : Sheds n t u)
    (hu : depthFrom k u = some e) : depthFrom (k + n) t = some e := by
  induction h generalizing k with
  | nil => exact hu
  | @keep n t u c _ ih =>
      rcases paren_cases c with rfl | rfl | hc
      · rw [depthFrom_open] at hu ⊢
        rw [Nat.add_right_comm]
        exact ih hu
      · cases k with
        | zero => cases hu
        | succ k =>
            rw [depthFrom_close_succ] at hu
            rw [Nat.add_right_comm, depthFrom_close_succ]
            exact ih hu
      · rw [depthFrom_other hc] at hu ⊢
        exact ih hu
  | drop _ ih =>
      rw [← Nat.add_assoc, depthFrom_close_succ]
      exact ih hu

theorem Repairs.depthFrom {t r : Text} {d a : Nat} (h : Repairs t d a r) (hr : Balanced r) :
    depthFrom d t = some a := by
  obtain ⟨u, hu, rfl⟩ := h
  simpa using hu.depthFrom (depthFrom_of_replicate hr)

structure ScanRepairs (k : Nat) (t : Text) (d a : Nat) : Prop where
  repairs : Repairs t d a (balanceFrom k t)
  reads : depthFrom (k + d) t = some a
  least : ∀ j < d, depthFrom (k + j) t = none

theorem ScanRepairs.keep {c : Char} {k k' d a : Nat} {t : Text} (h : ScanRepairs k' t d a)
    (hbalance : balanceFrom k (c :: t) = c :: balanceFrom k' t)
    (hdepth : ∀ j, Paren.depthFrom (k + j) (c :: t) = Paren.depthFrom (k' + j) t) :
    ScanRepairs k (c :: t) d a where
  repairs := by
    obtain ⟨u, hu, htext⟩ := h.repairs
    exact ⟨c :: u, .keep c hu, by rw [hbalance, htext]; rfl⟩
  reads := (hdepth d).trans h.reads
  least j hj := (hdepth j).trans (h.least j hj)

theorem ScanRepairs.drop {d a : Nat} {t : Text} (h : ScanRepairs 0 t d a) :
    ScanRepairs 0 (')' :: t) (d + 1) a where
  repairs := by
    obtain ⟨u, hu, htext⟩ := h.repairs
    exact ⟨u, .drop hu, htext⟩
  reads := by
    rw [← Nat.add_assoc, depthFrom_close_succ]
    exact h.reads
  least j hj := by
    cases j with
    | zero => exact depthFrom_close_zero t
    | succ j =>
        rw [← Nat.add_assoc, depthFrom_close_succ]
        exact h.least j (Nat.lt_of_succ_lt_succ hj)

theorem exists_scanRepairs (k : Nat) (t : Text) : ∃ d a, ScanRepairs k t d a := by
  induction t generalizing k with
  | nil => exact ⟨0, k, ⟨[], .nil, rfl⟩, rfl, fun j hj => absurd hj (Nat.not_lt_zero j)⟩
  | cons c t ih =>
      rcases paren_cases c with rfl | rfl | hc
      · obtain ⟨d, a, h⟩ := ih (k + 1)
        refine ⟨d, a, h.keep rfl fun j => ?_⟩
        rw [depthFrom_open, Nat.add_right_comm]
      · cases k with
        | zero =>
            obtain ⟨d, a, h⟩ := ih 0
            exact ⟨d + 1, a, h.drop⟩
        | succ k =>
            obtain ⟨d, a, h⟩ := ih k
            refine ⟨d, a, h.keep rfl fun j => ?_⟩
            rw [Nat.add_right_comm, depthFrom_close_succ]
      · obtain ⟨d, a, h⟩ := ih k
        refine ⟨d, a, h.keep ?_ fun j => depthFrom_other hc (k + j) t⟩
        simp [balanceFrom, ne_of_not_paren hc]

theorem balance_eq_self_iff {t : Text} : balance t = t ↔ Balanced t :=
  ⟨fun h => h ▸ balanced_balance t, balance_of_balanced⟩

theorem balance_least (t : Text) :
    imbalance? (balance t) = none ∧ (balance t = t ↔ imbalance? t = none) ∧
      balance (balance t) = balance t ∧
      ∃ d a, Repairs t d a (balance t) ∧
        ∀ d' a' r, Repairs t d' a' r → imbalance? r = none → d ≤ d' ∧ a ≤ a' := by
  rw [imbalance?_eq_none_iff, imbalance?_eq_none_iff, balance_eq_self_iff]
  refine ⟨balanced_balance t, Iff.rfl, balance_of_balanced (balanced_balance t), ?_⟩
  obtain ⟨d, a, hscan⟩ := exists_scanRepairs 0 t
  refine ⟨d, a, hscan.repairs, fun d' a' r hrepairs hr => ?_⟩
  have hdepth' := hrepairs.depthFrom (imbalance?_eq_none_iff.mp hr)
  have hle : d ≤ d' := by
    refine Nat.le_of_not_lt fun hlt => ?_
    have hnone := hscan.least d' hlt
    rw [Nat.zero_add, hdepth'] at hnone
    cases hnone
  have hdepth := hscan.reads
  rw [Nat.zero_add] at hdepth
  obtain ⟨k, rfl⟩ := Nat.exists_eq_add_of_le hle
  rw [depthFrom_add hdepth k] at hdepth'
  obtain rfl := Option.some.inj hdepth'
  exact ⟨hle, Nat.le_add_right a k⟩

theorem balance_least_mixed :
    ∃ d a, Repairs ")a(b)(".toList d a (balance ")a(b)(".toList) ∧
      Repairs ")a(b)(".toList 2 2 "a(b())".toList ∧ d ≤ 2 ∧ a ≤ 2 := by
  have hother : Repairs ")a(b)(".toList 2 2 "a(b())".toList :=
    ⟨"a(b(".toList, .drop (.keep _ (.keep _ (.keep _ (.drop (.keep _ .nil))))), rfl⟩
  obtain ⟨-, -, -, d, a, hrepairs, hleast⟩ := balance_least ")a(b)(".toList
  exact ⟨d, a, hrepairs, hother, hleast 2 2 _ hother (by decide)⟩

end WorksheetTex.Paren
