import WorksheetTex.Conversion
import WorksheetTex.Proofs.Depth

namespace WorksheetTex.Paren

open Text

def Unclosed (x u : Text) : Prop :=
  ∃ v, x = u ++ '(' :: v ∧ ∀ s, s <+: v → s.count ')' ≤ s.count '('

structure LastUnclosed (x u : Text) : Prop where
  unclosed : Unclosed x u
  last : ∀ w, Unclosed x w → w.length ≤ u.length

theorem lastUnclosed_of_balanced (u : Text) {v : Text} (hv : Balanced v) :
    LastUnclosed (u ++ '(' :: v) u := by
  obtain ⟨hstart, htotal⟩ := depthFrom_eq_some_iff.mp hv
  refine ⟨⟨v, rfl, by simpa using hstart⟩, fun w ⟨r, hwr, hr⟩ => ?_⟩
  rcases List.append_eq_append_iff.mp hwr with ⟨z, rfl, hz⟩ | ⟨z, rfl, hz⟩
  · cases z with
    | nil => simp
    | cons c z =>
        obtain ⟨rfl, rfl⟩ := List.cons.inj hz
        have hbefore := hstart z (List.prefix_append _ _)
        have hbehind := hr r (List.prefix_refl r)
        simp at htotal hbefore hbehind
        omega
  · simp

theorem imbalanceFrom_append {d e : Nat} {v : Text} (h : depthFrom d v = some e)
    (inner : List Nat) (hinner : inner.length = d) (position : Nat) (outer : List Nat) (k : Text) :
    ∃ left : List Nat, left.length = e ∧
      imbalanceFrom position (inner ++ outer) (v ++ k) =
        imbalanceFrom (position + unitLength v) (left ++ outer) k := by
  -- What is opened last is closed first, so the outer parentheses are never touched.
  induction v generalizing d inner position with
  | nil =>
      obtain rfl := Option.some.inj h
      exact ⟨inner, hinner, rfl⟩
  | cons c v ih =>
      rcases paren_cases c with rfl | rfl | hc
      · rw [depthFrom_open] at h
        obtain ⟨left, hleft, heq⟩ := ih h (position :: inner) (by simp [hinner]) (position + 1)
        refine ⟨left, hleft, ?_⟩
        have hw : unitWidth '(' = 1 := by decide
        rw [unitLength, hw, ← Nat.add_assoc, ← heq]
        rfl
      · cases d with
        | zero => simp at h
        | succ d =>
            rw [depthFrom_close_succ] at h
            obtain ⟨p, inner, rfl⟩ := List.exists_cons_of_length_eq_add_one hinner
            obtain ⟨left, hleft, heq⟩ := ih h inner (by simpa using hinner) (position + 1)
            refine ⟨left, hleft, ?_⟩
            have hw : unitWidth ')' = 1 := by decide
            rw [unitLength, hw, ← Nat.add_assoc, ← heq]
            rfl
      · rw [depthFrom_other hc] at h
        obtain ⟨left, hleft, heq⟩ := ih h inner hinner (position + unitWidth c)
        refine ⟨left, hleft, ?_⟩
        rw [unitLength, ← Nat.add_assoc, ← heq]
        simp [imbalanceFrom, ne_of_not_paren hc]

theorem imbalance?_of_balanced {t : Text} (h : Balanced t) : imbalance? t = none := by
  obtain ⟨left, hleft, heq⟩ := imbalanceFrom_append h [] rfl 0 [] []
  obtain rfl := List.length_eq_zero_iff.mp hleft
  simp only [List.append_nil] at heq
  exact heq

theorem imbalance?_of_open {u v : Text} {d : Nat} (hu : depthFrom 0 u = some d) (hv : Balanced v) :
    imbalance? (u ++ '(' :: v) = some (.missingClose (unitLength u)) := by
  obtain ⟨held, _, hopen⟩ := imbalanceFrom_append hu [] rfl 0 [] ('(' :: v)
  obtain ⟨left, hleft, hclose⟩ := imbalanceFrom_append hv [] rfl (unitLength u + 1)
    (unitLength u :: held) []
  obtain rfl := List.length_eq_zero_iff.mp hleft
  simp only [List.append_nil, List.nil_append, Nat.zero_add] at hopen hclose
  exact hopen.trans hclose

theorem exists_last_open {x : Text} {d : Nat} (h : depthFrom 0 x = some (d + 1)) :
    ∃ u v, x = u ++ '(' :: v ∧ depthFrom 0 u = some d ∧ Balanced v := by
  induction hn : x.length using Nat.strongRecOn generalizing x d with
  | ind n ih =>
      rcases List.eq_nil_or_concat x with rfl | ⟨y, c, rfl⟩
      · cases h
      · rw [List.concat_eq_append] at *
        rw [depthFrom_append, Option.bind_eq_some_iff] at h
        obtain ⟨e, hy, hc⟩ := h
        have hshort : y.length < n := by
          rw [List.length_append, List.length_singleton] at hn
          omega
        rcases paren_cases c with rfl | rfl | hother
        · obtain rfl : e = d := Nat.succ.inj (Option.some.inj hc)
          exact ⟨y, [], rfl, hy, rfl⟩
        · obtain rfl : e = d + 1 + 1 := by
            cases e with
            | zero => cases hc
            | succ e => rw [Option.some.inj hc]
          obtain ⟨u, v, rfl, hu, hv⟩ := ih _ hshort hy rfl
          obtain ⟨u, w, rfl, hu, hw⟩ := ih u.length (by simp at hshort; omega) hu rfl
          exact ⟨u, w ++ '(' :: (v ++ [')']), by simp, hu, hw.append hv.enclose⟩
        · obtain rfl : e = d + 1 := by
            rw [depthFrom_other hother] at hc
            exact Option.some.inj hc
          obtain ⟨u, v, rfl, hu, hv⟩ := ih _ hshort hy rfl
          exact ⟨u, v ++ [c], by simp, hu, hv.append (balanced_flat (by simpa using hother))⟩

end WorksheetTex.Paren

namespace WorksheetTex

open Tex Paren

theorem report_record {o : Options} {s : Setting} (hs : o.setting = .ok s) {x latex : Text}
    (hlatex : s.typeset x = .ok latex) (h : o.isStrict = false ∨ imbalance? x = none) :
    report (.record o) x = .ok ⟨spaceCommands latex, (imbalance? x).toList⟩ := by
  have hreport : report (.record o) x = s.report o.isStrict x := by
    change (o.setting >>= fun s => s.report o.isStrict x) = _
    rw [hs]
    rfl
  rw [hreport, Setting.report, hlatex]
  rcases h with h | h
  · rw [h]
    cases imbalance? x <;> rfl
  · rw [h]
    rfl

end WorksheetTex
