import Mathlib.Data.Set.Function
import WorksheetTex.Proofs.CommandUnit
import WorksheetTex.Proofs.Repair

namespace WorksheetTex.Text

def places (c : Char) (t : Text) : Set Nat :=
  { i | (units t)[i]? = some c.toNat }

section Units

variable {c : Char} {t u v : Text} {i n : Nat}

theorem length_units (t : Text) : (units t).length = unitLength t := by
  induction t with
  | nil => rfl
  | cons d t ih =>
      rw [units_cons, List.length_append, ih, unitLength, charUnits, unitWidth]
      split <;> rfl

theorem lt_unitLength_of_mem_places (h : i ∈ places c t) : i < unitLength t := by
  rw [← length_units]
  exact (List.getElem?_eq_some_iff.mp h).1

theorem not_mem_charUnits {d : Char} (hd : isWide d = true) : c.toNat ∉ charUnits d := by
  intro hmem
  have hplain := unitIs_toNat (fun _ => true) c
  rw [unitIs, isSurrogate_of_mem hd hmem] at hplain
  cases hplain

theorem mem_places_iff (hc : isWide c = false) :
    i ∈ places c t ↔ ∃ u v, t = u ++ c :: v ∧ i = unitLength u := by
  constructor
  · intro h
    induction t generalizing i with
    | nil => cases h
    | cons d t ih =>
        have hget : (charUnits d ++ units t)[i]? = some c.toNat := h
        rcases Nat.lt_or_ge i (charUnits d).length with hi | hi
        · rw [List.getElem?_append_left hi] at hget
          have hmem := List.mem_of_getElem? hget
          have hd : isWide d = false := Bool.eq_false_iff.mpr fun hd => not_mem_charUnits hd hmem
          rw [charUnits_of_not_wide hd, List.mem_singleton, Char.toNat_inj] at hmem
          rw [charUnits_of_not_wide hd] at hi
          obtain rfl : i = 0 := Nat.lt_one_iff.mp hi
          exact ⟨[], t, by rw [hmem]; rfl, rfl⟩
        · rw [List.getElem?_append_right hi] at hget
          obtain ⟨u, v, rfl, hu⟩ := ih hget
          refine ⟨d :: u, v, rfl, ?_⟩
          have hwidth : (charUnits d).length = unitWidth d := by
            rw [charUnits, unitWidth]
            split <;> rfl
          rw [unitLength, ← hu, ← hwidth]
          omega
  · rintro ⟨u, v, rfl, rfl⟩
    have hget : (units u ++ (charUnits c ++ units v))[unitLength u]? = some c.toNat := by
      rw [← length_units, List.getElem?_append_right (Nat.le_refl _), Nat.sub_self,
        charUnits_of_not_wide hc]
      rfl
    rw [← units_cons, ← units_append] at hget
    exact hget

theorem count_take_units (hc : isWide c = false) (n : Nat) (t : Text) :
    ((units t).take n).count c.toNat = (takeUnits n t).count c := by
  induction t generalizing n with
  | nil => cases n <;> rfl
  | cons d t ih =>
      cases n with
      | zero => rfl
      | succ n =>
          rw [units_cons, takeUnits, unitWidth]
          by_cases hd : isWide d = true
          · have hne : d ≠ c := by
              rintro rfl
              rw [hd] at hc
              cases hc
            have hnone := List.count_eq_zero.mpr (not_mem_charUnits (c := c) hd)
            have htake : ((charUnits d).take (n + 1)).count c.toNat = 0 :=
              Nat.eq_zero_of_le_zero (hnone ▸ (List.take_sublist _ _).count_le _)
            have hlength : (charUnits d).length = 2 := by rw [charUnits, if_pos hd]; rfl
            rw [List.take_append, List.count_append, htake, hlength, ih, if_pos hd,
              List.count_cons_of_ne hne, Nat.zero_add]
          · rw [charUnits_of_not_wide (Bool.not_eq_true _ ▸ hd), if_neg hd, List.singleton_append,
              List.take_succ_cons, List.count_cons, List.count_cons, ih, Nat.add_sub_cancel]
            simp only [beq_iff_eq, Char.toNat_inj]

end Units

end WorksheetTex.Text

namespace WorksheetTex.Paren

open Text

def height (t : Text) (n : Nat) : Int :=
  ((units t).take n).count '('.toNat - ((units t).take n).count ')'.toNat

section Height

variable {t u v : Text} {i j n : Nat}

theorem height_eq (t : Text) (n : Nat) :
    height t n = (takeUnits n t).count '(' - (takeUnits n t).count ')' := by
  rw [height, count_take_units (by decide), count_take_units (by decide)]

theorem height_zero (t : Text) : height t 0 = 0 := by
  simp [height]

theorem height_step (t : Text) (i : Nat) :
    (i ∈ places '(' t ∧ height t (i + 1) = height t i + 1) ∨
      (i ∈ places ')' t ∧ height t (i + 1) = height t i - 1) ∨
      (i ∉ places '(' t ∧ i ∉ places ')' t ∧ height t (i + 1) = height t i) := by
  have hcount (a : Nat) : ((units t).take (i + 1)).count a =
      ((units t).take i).count a + if (units t)[i]? = some a then 1 else 0 := by
    rw [List.take_add_one, List.count_append]
    cases (units t)[i]? with
    | none => simp
    | some b => simp [List.count_singleton]
  rw [height, height, hcount, hcount]
  by_cases hopen : (units t)[i]? = some '('.toNat
  · have hclose : (units t)[i]? ≠ some ')'.toNat := by
      rw [hopen]
      decide
    rw [if_pos hopen, if_neg hclose]
    exact .inl ⟨hopen, by omega⟩
  · rw [if_neg hopen]
    by_cases hclose : (units t)[i]? = some ')'.toNat
    · rw [if_pos hclose]
      exact .inr (.inl ⟨hclose, by omega⟩)
    · rw [if_neg hclose]
      exact .inr (.inr ⟨hopen, hclose, by omega⟩)

theorem mem_places_of_lt (h : height t i < height t (i + 1)) :
    i ∈ places '(' t ∧ height t (i + 1) = height t i + 1 := by
  rcases height_step t i with hi | ⟨-, hi⟩ | ⟨-, -, hi⟩
  · exact hi
  · omega
  · omega

theorem mem_places_of_gt (h : height t (i + 1) < height t i) :
    i ∈ places ')' t ∧ height t (i + 1) = height t i - 1 := by
  rcases height_step t i with ⟨-, hi⟩ | hi | ⟨-, -, hi⟩
  · omega
  · exact hi
  · omega

theorem height_open (h : i ∈ places '(' t) : height t (i + 1) = height t i + 1 := by
  rcases height_step t i with ⟨-, hi⟩ | ⟨hclose, -⟩ | ⟨hopen, -, -⟩
  · exact hi
  · cases Option.some.inj (h.symm.trans hclose)
  · exact absurd h hopen

theorem height_close (h : i ∈ places ')' t) : height t (i + 1) = height t i - 1 := by
  rcases height_step t i with ⟨hopen, -⟩ | ⟨-, hi⟩ | ⟨-, hclose, -⟩
  · cases Option.some.inj (h.symm.trans hopen)
  · exact hi
  · exact absurd h hclose

theorem exists_last_climb {a b : Nat} {x : Int} (hab : a ≤ b) (ha : height t a ≤ x)
    (hb : x < height t b) :
    ∃ i, a ≤ i ∧ i < b ∧ i ∈ places '(' t ∧ height t i = x ∧
      ∀ k, i < k → k ≤ b → x < height t k := by
  induction b, hab using Nat.le_induction with
  | base => omega
  | succ b hab ih =>
      by_cases hx : x < height t b
      · obtain ⟨i, hai, hib, hi, hix, habove⟩ := ih hx
        refine ⟨i, hai, by omega, hi, hix, fun k hik hkb => ?_⟩
        rcases Nat.le_succ_iff.mp hkb with hkb | rfl
        · exact habove k hik hkb
        · exact hb
      · obtain ⟨hopen, hstep⟩ := mem_places_of_lt (t := t) (i := b) (by omega)
        refine ⟨b, hab, Nat.lt_succ_self b, hopen, by omega, fun k hbk hkb => ?_⟩
        obtain rfl : k = b + 1 := by omega
        exact hb

theorem exists_first_fall {a b : Nat} {x : Int} (hab : a ≤ b) (ha : x < height t a)
    (hb : height t b ≤ x) :
    ∃ j, a ≤ j ∧ j < b ∧ height t (j + 1) = x ∧ ∀ k, a ≤ k → k ≤ j → x < height t k := by
  induction hn : b - a generalizing a with
  | zero =>
      obtain rfl : a = b := by omega
      omega
  | succ n ih =>
      by_cases hx : x < height t (a + 1)
      · obtain ⟨j, haj, hjb, hjx, habove⟩ := ih (by omega) hx (by omega)
        refine ⟨j, by omega, hjb, hjx, fun k hak hkj => ?_⟩
        rcases Nat.eq_or_lt_of_le hak with rfl | hak
        · exact ha
        · exact habove k hak hkj
      · have hstep := (mem_places_of_gt (t := t) (i := a) (by omega)).2
        refine ⟨a, Nat.le_refl a, by omega, by omega, fun k hak hka => ?_⟩
        obtain rfl : k = a := by omega
        exact ha

theorem height_append (u v : Text) (n : Nat) :
    height (u ++ v) (unitLength u + n) = height (u ++ v) (unitLength u) + height v n := by
  have hcount (a k : Nat) : ((units (u ++ v)).take (unitLength u + k)).count a =
      (units u).count a + ((units v).take k).count a := by
    rw [units_append, ← length_units, List.take_length_add_append, List.count_append]
  have hzero := hcount (k := 0)
  simp only [Nat.add_zero, List.take_zero, List.count_nil] at hzero
  simp only [height, hcount, hzero]
  omega

theorem forall_prefix_iff (d : Nat) (t : Text) :
    (∀ s, s <+: t → s.count ')' ≤ d + s.count '(') ↔ ∀ n, -(d : Int) ≤ height t n := by
  constructor
  · intro h n
    have hpre := takeUnits_prefix n t
    have := h _ hpre
    rw [height_eq]
    omega
  · rintro h s ⟨r, rfl⟩
    have hs := h (unitLength s)
    have htake : takeUnits (unitLength s) (s ++ r) = s := by
      simpa [takeUnits] using takeUnits_append s 0 r
    rw [height_eq, htake] at hs
    omega

theorem balanced_iff_height :
    Balanced t ↔ (∀ n, 0 ≤ height t n) ∧ height t (unitLength t) = 0 := by
  have htake : takeUnits (unitLength t) t = t := by
    simpa [takeUnits] using takeUnits_append t 0 []
  have hend : height t (unitLength t) = t.count '(' - t.count ')' := by
    rw [height_eq, htake]
  have hprefix := forall_prefix_iff 0 t
  simp only [Nat.zero_add, Int.natCast_zero, Int.neg_zero] at hprefix
  rw [balanced_iff, ParensMatch, hprefix, hend]
  exact and_congr_right fun _ => by omega

end Height

structure Encloses (t : Text) (i j : Nat) : Prop where
  opens : i ∈ places '(' t
  lt : i < j
  falls : height t (j + 1) = height t i
  above : ∀ k, i < k → k ≤ j → height t i < height t k

namespace Encloses

variable {t : Text} {i i' j j' : Nat}

theorem closes (h : Encloses t i j) : j ∈ places ')' t := by
  have habove := h.above j h.lt (Nat.le_refl j)
  exact (mem_places_of_gt (by rw [h.falls]; exact habove)).1

theorem nested (h : Encloses t i j) (h' : Encloses t i' j') (hi : i < i') :
    j < i' ∨ j' < j := by
  by_contra hnot
  obtain ⟨hle, hle'⟩ := not_or.mp hnot
  have hne : i' ≠ j := by
    rintro rfl
    cases Option.some.inj (h'.opens.symm.trans h.closes)
  have hstart := h.above i' hi (by omega)
  have hends := h.falls
  rcases Nat.eq_or_lt_of_le (Nat.le_of_not_lt hle') with rfl | hlt
  · have := h'.falls
    omega
  · have := h'.above (j + 1) (by omega) hlt
    omega

theorem unique (h : Encloses t i j) (h' : Encloses t i j') : j = j' := by
  have hfalls := h.falls
  have hfalls' := h'.falls
  rcases Nat.lt_trichotomy j j' with hlt | heq | hlt
  · have := h'.above (j + 1) (Nat.lt_succ_of_lt h.lt) hlt
    omega
  · exact heq
  · have := h.above (j' + 1) (Nat.lt_succ_of_lt h'.lt) hlt
    omega

theorem inj (h : Encloses t i j) (h' : Encloses t i' j) : i = i' := by
  rcases Nat.lt_trichotomy i i' with hlt | heq | hlt
  · have := h.nested h' hlt
    have := h'.lt
    omega
  · exact heq
  · have := h'.nested h hlt
    have := h.lt
    omega

end Encloses

section Matching

variable {t : Text} {i j : Nat}

theorem height_behind_open (u v : Text) (n : Nat) :
    height (u ++ '(' :: v) (unitLength u + 1 + n) =
      height (u ++ '(' :: v) (unitLength u) + 1 + height v n := by
  have hopen : unitLength u ∈ places '(' (u ++ '(' :: v) :=
    (mem_places_iff (by decide)).mpr ⟨u, v, rfl, rfl⟩
  have hlength : unitLength (u ++ ['(']) = unitLength u + 1 := unitLength_append u ['(']
  have happend := height_append (u ++ ['(']) v n
  rw [hlength, List.append_assoc, List.singleton_append] at happend
  rw [happend, height_open hopen]

theorem encloses_of_balanced (u w : Text) {v : Text} (hv : Balanced v) :
    Encloses (u ++ '(' :: (v ++ ')' :: w)) (unitLength u) (unitLength u + 1 + unitLength v) := by
  obtain ⟨hlow, hend⟩ := balanced_iff_height.mp hv
  have hinner {n : Nat} (hn : n ≤ unitLength v) : height (v ++ ')' :: w) n = height v n := by
    rw [height, height, units_append, List.take_append_of_le_length (by rwa [length_units])]
  have hclose : unitLength u + 1 + unitLength v ∈ places ')' (u ++ '(' :: (v ++ ')' :: w)) := by
    refine (mem_places_iff (by decide)).mpr ⟨u ++ '(' :: v, w, by simp, ?_⟩
    rw [unitLength_append, Nat.add_assoc]
    rfl
  refine ⟨(mem_places_iff (by decide)).mpr ⟨u, _, rfl, rfl⟩, by omega, ?_, fun k huk hkv => ?_⟩
  · rw [height_close hclose, height_behind_open, hinner (Nat.le_refl _), hend]
    omega
  · obtain ⟨n, rfl⟩ := Nat.exists_eq_add_of_le (Nat.succ_le_of_lt huk)
    have := hlow n
    rw [Nat.succ_eq_add_one, height_behind_open, hinner (by omega)]
    omega

theorem matchingClose_eq_some_iff : matchingClose t i = some j ↔ Encloses t i j := by
  have hsound {j : Nat} (h : matchingClose t i = some j) : Encloses t i j := by
    rw [← Int.ofNat_eq_natCast, matchingClose] at h
    split at h
    · next r hfrom =>
        obtain ⟨u, rfl, rfl⟩ := eq_append_of_fromUnit hfrom
        obtain ⟨v, w, rfl, rfl, hv⟩ := exists_of_closeFrom h
        exact encloses_of_balanced u w hv
    · cases h
  refine ⟨hsound, fun h => ?_⟩
  cases hclose : matchingClose t i with
  | some j' => rw [h.unique (hsound hclose)]
  | none =>
      obtain ⟨u, v, rfl, rfl⟩ := (mem_places_iff (by decide)).mp h.opens
      rw [matchingClose_append, closeFrom_eq_none_iff, forall_prefix_iff] at hclose
      obtain ⟨n, hn⟩ := Nat.exists_eq_add_of_le (Nat.succ_le_of_lt (Nat.lt_succ_of_lt h.lt))
      have hfalls := h.falls
      have := hclose n
      rw [← Nat.succ_eq_add_one, hn, Nat.succ_eq_add_one, height_behind_open] at hfalls
      omega

def evenPlaces (t : Text) (i : Nat) : Set Nat :=
  { k | i < k ∧ k < (units t).length ∧
    ((units t).extract i (k + 1)).count '('.toNat = ((units t).extract i (k + 1)).count ')'.toNat }

theorem count_extract_iff {k : Nat} (h : i ≤ k + 1) :
    ((units t).extract i (k + 1)).count '('.toNat = ((units t).extract i (k + 1)).count ')'.toNat ↔
      height t (k + 1) = height t i := by
  have hcount (a : Nat) : ((units t).take (k + 1)).count a =
      ((units t).take i).count a + ((units t).extract i (k + 1)).count a := by
    have hsplit : i + (k + 1 - i) = k + 1 := by omega
    rw [List.extract_eq_take_drop, ← List.count_append, ← List.take_add, hsplit]
  rw [height, height, hcount, hcount]
  omega

theorem encloses_iff_isLeast : Encloses t i j ↔ i ∈ places '(' t ∧ IsLeast (evenPlaces t i) j := by
  constructor
  · intro h
    have hlt := h.lt
    refine ⟨h.opens, ⟨hlt, ?_, (count_extract_iff (by omega)).mpr h.falls⟩, fun k hk => ?_⟩
    · rw [length_units]
      exact lt_unitLength_of_mem_places h.closes
    · obtain ⟨hik, -, heven⟩ := hk
      rw [count_extract_iff (by omega)] at heven
      refine Nat.le_of_not_lt fun hkj => ?_
      have := h.above (k + 1) (by omega) hkj
      omega
  · rintro ⟨hopen, ⟨hij, hj, heven⟩, hleast⟩
    refine ⟨hopen, hij, (count_extract_iff (by omega)).mp heven, fun k hik => ?_⟩
    induction k, hik using Nat.le_induction with
    | base =>
        intro _
        rw [Nat.succ_eq_add_one, height_open hopen]
        omega
    | succ k hik ih =>
        intro hkj
        have habove := ih (by omega)
        have hne : height t (k + 1) ≠ height t i := fun heq => by
          have := hleast ⟨hik, by omega, (count_extract_iff (by omega)).mpr heq⟩
          omega
        rcases height_step t k with ⟨-, hstep⟩ | ⟨-, hstep⟩ | ⟨-, -, hstep⟩ <;> omega

end Matching

section Bijection

variable {t : Text}

theorem Balanced.exists_encloses (h : Balanced t) {i : Nat} (hi : i ∈ places '(' t) :
    ∃ j, Encloses t i j := by
  obtain ⟨hlow, hend⟩ := balanced_iff_height.mp h
  have hlt := lt_unitLength_of_mem_places hi
  have hopen := height_open hi
  have hzero := hlow i
  obtain ⟨j, hij, -, hfalls, habove⟩ := exists_first_fall (t := t) (a := i + 1) (x := height t i)
    hlt (by omega) (by omega)
  exact ⟨j, hi, hij, hfalls, habove⟩

theorem Balanced.exists_enclosed (h : Balanced t) {j : Nat} (hj : j ∈ places ')' t) :
    ∃ i, Encloses t i j := by
  have hclose := height_close hj
  have hzero := height_zero t
  have hlow := (balanced_iff_height.mp h).1 (j + 1)
  obtain ⟨i, -, hij, hopen, hix, habove⟩ := exists_last_climb (t := t) (x := height t (j + 1))
    (Nat.zero_le j) (by omega) (by omega)
  exact ⟨i, hopen, hij, hix.symm, by rwa [hix]⟩

theorem Balanced.bijOn_matchingClose (h : Balanced t) :
    Set.BijOn (fun i : Nat => matchingClose t i) (places '(' t) (some '' places ')' t) := by
  refine ⟨fun i hi => ?_, fun i hi i' hi' heq => ?_, ?_⟩
  · obtain ⟨j, hj⟩ := h.exists_encloses hi
    exact ⟨j, hj.closes, (matchingClose_eq_some_iff.mpr hj).symm⟩
  · obtain ⟨j, hj⟩ := h.exists_encloses hi
    exact hj.inj (matchingClose_eq_some_iff.mp (heq.symm.trans (matchingClose_eq_some_iff.mpr hj)))
  · rintro _ ⟨j, hj, rfl⟩
    obtain ⟨i, hi⟩ := h.exists_enclosed hj
    exact ⟨i, hi.opens, matchingClose_eq_some_iff.mpr hi⟩

theorem balanced_of_bijOn
    (h : Set.BijOn (fun i : Nat => matchingClose t i) (places '(' t) (some '' places ')' t)) :
    Balanced t := by
  have hlow (n : Nat) : 0 ≤ height t n := by
    induction n using Nat.strongRecOn with
    | ind n ih =>
        cases n with
        | zero => rw [height_zero]
        | succ n =>
            have hn := ih n (Nat.lt_succ_self n)
            rcases height_step t n with ⟨-, hstep⟩ | ⟨hclose, -⟩ | ⟨-, -, hstep⟩
            · omega
            · obtain ⟨i, -, hi⟩ := h.surjOn ⟨n, hclose, rfl⟩
              have hencloses := matchingClose_eq_some_iff.mp hi
              rw [hencloses.falls]
              exact ih i (Nat.lt_succ_of_lt hencloses.lt)
            · omega
  refine balanced_iff_height.mpr ⟨hlow, ?_⟩
  by_contra hne
  have hpos := hlow (unitLength t)
  have hzero := height_zero t
  obtain ⟨i, -, -, hopen, hix, habove⟩ := exists_last_climb (t := t)
    (x := height t (unitLength t) - 1) (Nat.zero_le (unitLength t)) (by omega) (by omega)
  obtain ⟨j, hj, hpartner⟩ := h.mapsTo hopen
  have hencloses := matchingClose_eq_some_iff.mp hpartner.symm
  have hlt := lt_unitLength_of_mem_places hj
  have hij := hencloses.lt
  have hfalls := hencloses.falls
  have := habove (j + 1) (by omega) hlt
  omega

end Bijection

theorem exists_of_matchingClose {t : Text} {start : Int} {j : Nat}
    (h : matchingClose t start = some j) : ∃ i : Nat, start = i ∧ Encloses t i j := by
  cases start with
  | ofNat i => exact ⟨i, rfl, matchingClose_eq_some_iff.mp h⟩
  | negSucc i => cases h

theorem matchingClose_agrees (t : Text) :
    (imbalance? t = none ↔
      Set.BijOn (fun i : Nat => matchingClose t i) (places '(' t) (some '' places ')' t)) ∧
    (∀ (start : Int) (j : Nat), matchingClose t start = some j ↔
      ∃ i : Nat, start = i ∧ i ∈ places '(' t ∧ IsLeast (evenPlaces t i) j) ∧
    (∀ (i i' : Int) (j j' : Nat), matchingClose t i = some j → matchingClose t i' = some j' →
      i ≠ i' → j < i' ∨ j' < i ∨ (i < i' ∧ j' < j) ∨ (i' < i ∧ j < j')) := by
  refine ⟨imbalance?_eq_none_iff.trans ⟨Balanced.bijOn_matchingClose, balanced_of_bijOn⟩,
    fun start j => ⟨fun h => ?_, ?_⟩, fun i i' j j' h h' hne => ?_⟩
  · obtain ⟨i, hi, hencloses⟩ := exists_of_matchingClose h
    exact ⟨i, hi, encloses_iff_isLeast.mp hencloses⟩
  · rintro ⟨i, rfl, hleast⟩
    exact matchingClose_eq_some_iff.mpr (encloses_iff_isLeast.mpr hleast)
  · obtain ⟨i, rfl, hencloses⟩ := exists_of_matchingClose h
    obtain ⟨i', rfl, hencloses'⟩ := exists_of_matchingClose h'
    rcases Nat.lt_or_gt_of_ne (fun heq => hne (congrArg Int.ofNat heq)) with hlt | hlt
    · have := hencloses.nested hencloses' hlt
      omega
    · have := hencloses'.nested hencloses hlt
      omega

theorem matchingClose_agrees_surplus :
    imbalance? ")((𝛼)())(".toList ≠ none ∧ matchingClose ")((𝛼)())(".toList 2 = some 5 ∧
      (∃ i : Nat, (2 : Int) = i ∧ i ∈ places '(' ")((𝛼)())(".toList ∧
        IsLeast (evenPlaces ")((𝛼)())(".toList i) 5) ∧
      ((8 : Int) < 2 ∨ (5 : Int) < 1 ∨ ((1 : Int) < 2 ∧ 5 < 8) ∨ ((2 : Int) < 1 ∧ 8 < 5)) := by
  have hinner : matchingClose ")((𝛼)())(".toList 2 = some 5 := by decide
  obtain ⟨-, hleast, hnested⟩ := matchingClose_agrees ")((𝛼)())(".toList
  exact ⟨by decide, hinner, (hleast 2 5).mp hinner, hnested 1 2 8 5 (by decide) hinner (by decide)⟩

end WorksheetTex.Paren
