import Mathlib.Data.Set.Basic
import Mathlib.Order.Bounds.Defs
import WorksheetTex.Proofs.Imbalance

namespace WorksheetTex

open Text Paren Tex

namespace Text

def takeUnits : Nat → Text → Text
  | 0, _ => []
  | _, [] => []
  | n + 1, c :: r => c :: takeUnits (n + 1 - unitWidth c) r

theorem takeUnits_append (u : Text) (n : Nat) (v : Text) :
    takeUnits (unitLength u + n) (u ++ v) = u ++ takeUnits n v := by
  induction u with
  | nil => simp [unitLength]
  | cons c u ih =>
      obtain ⟨k, hk⟩ := Nat.exists_eq_succ_of_ne_zero (Nat.ne_of_gt (unitWidth_pos c))
      have hstep : unitLength (c :: u) + n = (k + unitLength u + n) + 1 := by
        rw [unitLength, hk]
        omega
      have hrest : k + unitLength u + n + 1 - unitWidth c = unitLength u + n := by
        rw [hk]
        omega
      rw [hstep, List.cons_append, takeUnits, hrest, ih, List.cons_append]

theorem takeUnits_prefix_of_le {u : Text} {n : Nat} (h : n ≤ unitLength u) (v : Text) :
    takeUnits n (u ++ v) <+: u := by
  induction u generalizing n with
  | nil =>
      obtain rfl : n = 0 := by simpa [unitLength] using h
      simp [takeUnits]
  | cons c u ih =>
      cases n with
      | zero => simp [takeUnits]
      | succ n =>
          rw [unitLength] at h
          rw [List.cons_append, takeUnits, List.cons_prefix_cons]
          exact ⟨rfl, ih (by omega)⟩

theorem takeUnits_prefix (n : Nat) (t : Text) : takeUnits n t <+: t := by
  induction t generalizing n with
  | nil => cases n <;> exact List.prefix_rfl
  | cons d t ih =>
      cases n with
      | zero => exact List.nil_prefix
      | succ n => exact List.cons_prefix_cons.mpr ⟨rfl, ih _⟩

theorem fromUnit_append (u : Text) (c : Char) (v : Text) :
    fromUnit (unitLength u) (u ++ c :: v) = some (c :: v) := by
  induction u with
  | nil => rfl
  | cons d u ih =>
      obtain ⟨k, hk⟩ := Nat.exists_eq_succ_of_ne_zero (Nat.ne_of_gt (unitWidth_pos d))
      have hstep : unitLength (d :: u) = (k + unitLength u) + 1 := by
        rw [unitLength, hk]
        omega
      have hle : unitWidth d ≤ k + unitLength u + 1 := by omega
      have hrest : k + unitLength u + 1 - unitWidth d = unitLength u := by omega
      rw [hstep, List.cons_append, fromUnit, if_pos hle, hrest, ih]

theorem eq_append_of_fromUnit {n : Nat} {t r : Text} (h : fromUnit n t = some r) :
    ∃ u, t = u ++ r ∧ n = unitLength u := by
  induction t generalizing n with
  | nil => cases n <;> cases h
  | cons c t ih =>
      cases n with
      | zero =>
          obtain rfl := Option.some.inj h
          exact ⟨[], rfl, rfl⟩
      | succ n =>
          rw [fromUnit] at h
          split at h
          · next hle =>
              obtain ⟨u, rfl, hu⟩ := ih h
              refine ⟨c :: u, rfl, ?_⟩
              rw [unitLength, ← hu]
              omega
          · cases h

theorem unitLength_le_of_prefix {u v : Text} (h : u <+: v) : unitLength u ≤ unitLength v := by
  obtain ⟨w, rfl⟩ := h
  rw [unitLength_append]
  omega

end Text

namespace Paren

def ParensMatch (t : Text) : Prop :=
  (∀ s, s <+: t → s.count ')' ≤ s.count '(') ∧ t.count ')' = t.count '('

theorem balanced_iff {t : Text} : Balanced t ↔ ParensMatch t := by
  rw [Balanced, depthFrom_eq_some_iff, ParensMatch]
  simp

def overclosed (t : Text) : Set Nat :=
  { i | (takeUnits (i + 1) t).count '(' < (takeUnits (i + 1) t).count ')' }

def unpartnered (t : Text) : Set Nat :=
  { i | (∃ r, fromUnit i t = some ('(' :: r)) ∧ matchingClose t i = none }

def Imbalance.Locates (w : Imbalance) (t : Text) : Prop :=
  (IsLeast (overclosed t) w.position ∧
      w.message = "Unmatched ')' at position ".toList ++ Nat.toDigits 10 w.position) ∨
    (overclosed t = ∅ ∧ IsGreatest (unpartnered t) w.position ∧
      w.message = "Unclosed '(' at position ".toList ++ Nat.toDigits 10 w.position)

theorem exists_extra_close {d : Nat} {t : Text} (h : depthFrom d t = none) :
    ∃ u v, t = u ++ ')' :: v ∧ depthFrom d u = some 0 := by
  induction t generalizing d with
  | nil => cases h
  | cons c t ih =>
      rcases paren_cases c with rfl | rfl | hc
      · rw [depthFrom_open] at h
        obtain ⟨u, v, rfl, hu⟩ := ih h
        exact ⟨'(' :: u, v, rfl, by rwa [depthFrom_open]⟩
      · cases d with
        | zero => exact ⟨[], t, rfl, rfl⟩
        | succ d =>
            rw [depthFrom_close_succ] at h
            obtain ⟨u, v, rfl, hu⟩ := ih h
            exact ⟨')' :: u, v, rfl, by rwa [depthFrom_close_succ]⟩
      · rw [depthFrom_other hc] at h
        obtain ⟨u, v, rfl, hu⟩ := ih h
        exact ⟨c :: u, v, rfl, by rwa [depthFrom_other hc]⟩

theorem imbalance?_of_extra_close {u : Text} (hu : Balanced u) (v : Text) :
    imbalance? (u ++ ')' :: v) = some (.extraClose (unitLength u)) := by
  obtain ⟨left, hleft, heq⟩ := imbalanceFrom_append hu [] rfl 0 [] (')' :: v)
  obtain rfl := List.length_eq_zero_iff.mp hleft
  simp only [List.append_nil, Nat.zero_add] at heq
  exact heq

theorem isLeast_overclosed {u : Text} (hu : Balanced u) (v : Text) :
    IsLeast (overclosed (u ++ ')' :: v)) (unitLength u) := by
  obtain ⟨hstart, htotal⟩ := balanced_iff.mp hu
  constructor
  · have hwidth : unitWidth ')' = 1 := by decide
    have htake : takeUnits (unitLength u + 1) (u ++ ')' :: v) = u ++ [')'] := by
      rw [takeUnits_append, takeUnits, hwidth]
      simp [takeUnits]
    change (takeUnits (unitLength u + 1) _).count '(' < (takeUnits (unitLength u + 1) _).count ')'
    rw [htake, List.count_append, List.count_append, htotal]
    simp
  · intro i hi
    refine Nat.le_of_not_lt fun hlt => ?_
    have hpre := takeUnits_prefix_of_le (u := u) (n := i + 1) (by omega) (')' :: v)
    exact absurd (hstart _ hpre) (Nat.not_le.mpr hi)

theorem overclosed_eq_empty {t : Text} {d : Nat} (h : depthFrom 0 t = some d) :
    overclosed t = ∅ := by
  obtain ⟨hstart, -⟩ := depthFrom_eq_some_iff.mp h
  refine Set.eq_empty_iff_forall_notMem.mpr fun i hi => ?_
  have hpre := takeUnits_prefix (i + 1) t
  have hcount := hstart _ hpre
  rw [Nat.zero_add] at hcount
  exact absurd hcount (Nat.not_le.mpr hi)

theorem closeFrom_eq_none_iff {position d : Nat} {t : Text} :
    closeFrom position d t = none ↔ ∀ s, s <+: t → s.count ')' ≤ d + s.count '(' := by
  induction t generalizing position d with
  | nil => simp [closeFrom]
  | cons c t ih =>
      rw [forall_prefix_cons]
      rcases paren_cases c with rfl | rfl | hc
      · simp [closeFrom, ih, Nat.add_comm, Nat.add_left_comm]
      · cases d with
        | zero =>
            have hnot : ¬∀ s, s <+: t → (')' :: s).count ')' ≤ 0 + (')' :: s).count '(' :=
              fun hall => absurd (hall [] List.nil_prefix) (by simp)
            simp only [hnot, and_false, iff_false]
            simp [closeFrom]
        | succ d => simp [closeFrom, ih, Nat.add_right_comm d 1]
      · simp [closeFrom, ih, ne_of_not_paren hc]

theorem matchingClose_append (u v : Text) :
    matchingClose (u ++ '(' :: v) (unitLength u) = closeFrom (unitLength u + 1) 0 v := by
  rw [← Int.ofNat_eq_natCast, matchingClose, fromUnit_append]
  rfl

theorem mem_unpartnered_iff {t : Text} {i : Nat} :
    i ∈ unpartnered t ↔ ∃ u, Unclosed t u ∧ i = unitLength u := by
  constructor
  · rintro ⟨⟨v, hv⟩, hnone⟩
    obtain ⟨u, rfl, rfl⟩ := eq_append_of_fromUnit hv
    rw [matchingClose_append, closeFrom_eq_none_iff] at hnone
    exact ⟨u, ⟨v, rfl, by simpa using hnone⟩, rfl⟩
  · rintro ⟨u, ⟨v, rfl, hv⟩, rfl⟩
    refine ⟨⟨v, fromUnit_append u '(' v⟩, ?_⟩
    rw [matchingClose_append, closeFrom_eq_none_iff]
    simpa using hv

theorem LastUnclosed.isGreatest {t u : Text} (h : LastUnclosed t u) :
    IsGreatest (unpartnered t) (unitLength u) := by
  obtain ⟨v, hv, -⟩ := h.unclosed
  refine ⟨mem_unpartnered_iff.mpr ⟨u, h.unclosed, rfl⟩, fun i hi => ?_⟩
  obtain ⟨w, hw, rfl⟩ := mem_unpartnered_iff.mp hi
  obtain ⟨x, hx, -⟩ := id hw
  have hpre : w <+: u := List.prefix_of_prefix_length_le ⟨_, hx.symm⟩ ⟨_, hv.symm⟩ (h.last w hw)
  exact unitLength_le_of_prefix hpre

theorem exists_imbalance_of_not_balanced {t : Text} (h : ¬ Balanced t) :
    ∃ w, imbalance? t = some w ∧ w.Locates t := by
  cases hdepth : depthFrom 0 t with
  | none =>
      obtain ⟨u, v, rfl, hu⟩ := exists_extra_close hdepth
      exact ⟨_, imbalance?_of_extra_close hu v, .inl ⟨isLeast_overclosed hu v, rfl⟩⟩
  | some d =>
      cases d with
      | zero => exact absurd hdepth h
      | succ d =>
          have hempty := overclosed_eq_empty hdepth
          obtain ⟨u, v, rfl, hu, hv⟩ := exists_last_open hdepth
          exact ⟨_, imbalance?_of_open hu hv,
            .inr ⟨hempty, (lastUnclosed_of_balanced u hv).isGreatest, rfl⟩⟩

end Paren

theorem report_strict {o : Options} {s : Setting} (hs : o.setting = .ok s) {t latex : Text}
    (hlatex : s.typeset t = .ok latex) (hstrict : o.isStrict = true) {w : Imbalance}
    (hw : imbalance? t = some w) :
    report (.record o) t = .error (.unbalanced w (spaceCommands latex)) := by
  change (o.setting >>= fun s => s.report o.isStrict t) = _
  rw [hs]
  change s.report o.isStrict t = _
  rw [Setting.report, hlatex, hw, hstrict]
  rfl

theorem report_exact (o : Options) {off on : Given Bool} (hoff : off.getD false false = false)
    (hon : on.getD false false = true) {s : Setting} (hs : o.setting = .ok s) {t latex : Text}
    (hlatex : s.typeset t = .ok latex) :
    ∃ r, report (.record { o with strict := off }) t = .ok r ∧
      (r.warnings = [] ↔ ParensMatch t) ∧
      (ParensMatch t → report (.record { o with strict := on }) t = .ok r) ∧
      (¬ ParensMatch t → ∃ w, r.warnings = [w] ∧ w.Locates t ∧
        report (.record { o with strict := on }) t = .error (.unbalanced w r.latex)) := by
  have hlenient := report_record (o := { o with strict := off }) hs hlatex (.inl hoff)
  refine ⟨_, hlenient, ?_⟩
  rw [← balanced_iff]
  by_cases hbalanced : Balanced t
  · have hnone := imbalance?_of_balanced hbalanced
    have hagree := report_record (o := { o with strict := on }) hs hlatex (.inr hnone)
    exact ⟨by simp [hnone, hbalanced], fun _ => hagree, fun h => absurd hbalanced h⟩
  · obtain ⟨w, hw, hlocates⟩ := exists_imbalance_of_not_balanced hbalanced
    have hrefused := report_strict (o := { o with strict := on }) hs hlatex hon hw
    exact ⟨by simp [hw, hbalanced], fun h => absurd h hbalanced,
      fun _ => ⟨w, by simp [hw], hlocates, hrefused⟩⟩

theorem report_exact_wide :
    ∃ r w, report (.record {}) "(+ 𝛼 b)) (".toList = .ok r ∧ r.warnings = [w] ∧
      w.Locates "(+ 𝛼 b)) (".toList ∧
      report (.record { strict := .value true }) "(+ 𝛼 b)) (".toList =
        .error (.unbalanced w r.latex) := by
  have hlatex : Setting.typeset ⟨.ofDeclarations {}, defaultLimit⟩ "(+ 𝛼 b)) (".toList =
      .ok "𝛼 + b)) (".toList := by decide +kernel
  have hopen : ¬ ParensMatch "(+ 𝛼 b)) (".toList :=
    fun h => absurd (balanced_iff.mpr h) (by decide)
  obtain ⟨r, hlenient, -, -, hstrict⟩ :=
    @report_exact {} .missing (.value true) rfl rfl _ rfl _ _ hlatex
  obtain ⟨w, hw, hlocates, hrefused⟩ := hstrict hopen
  exact ⟨r, w, hlenient, hw, hlocates, hrefused⟩

end WorksheetTex
