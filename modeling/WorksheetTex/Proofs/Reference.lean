import Mathlib.Data.List.Induction
import WorksheetTex.Evaluation.Piece
import WorksheetTex.Proofs.Replacement

namespace WorksheetTex.Text

variable {β : Type} {rule : Rule β}

def Rule.IsLocal (rule : Rule β) : Prop :=
  ∀ before t, rule before t = rule [] t

theorem segmentsFrom_local (h : rule.IsLocal) (before : Text) (n : Nat) (t : Text) :
    segmentsFrom rule before n t = segmentsFrom rule [] n t := by
  induction t generalizing before n with
  | nil => cases n <;> rfl
  | cons c r ih =>
      cases n with
      | zero =>
          rw [segmentsFrom, segmentsFrom, h before]
          split
          · rw [ih (c :: before), ih [c]]
          · rw [ih (c :: before), ih [c]]
      | succ n => rw [segmentsFrom, segmentsFrom, ih (c :: before), ih [c]]

theorem segments_keep (h : rule.IsLocal) {c : Char} {t : Text} (hc : rule [] (c :: t) = none) :
    segments rule (c :: t) = .keep c :: segments rule t := by
  rw [segments, segmentsFrom_keep hc, segmentsFrom_local h, segments]

theorem segments_hit (h : rule.IsLocal) {s t : Text} {b : β} (hs : s ≠ [])
    (hb : rule [] (s ++ t) = some (s.length, b)) :
    segments rule (s ++ t) = .hit b :: segments rule t := by
  rw [segments, segmentsFrom_hit hs hb, segmentsFrom_local h, segments]

end WorksheetTex.Text

namespace WorksheetTex.Evaluation

open Text Numeral

theorem isLocal_referenceRule : referenceRule.IsLocal := fun _ _ => rfl

theorem isDigit_of_mem_toDigits {n : Nat} {c : Char} (h : c ∈ Nat.toDigits 10 n) :
    c.isDigit = true :=
  Nat.isDigit_of_mem_toDigits (by decide) (by decide) h

theorem digitsValue_toDigits (n : Nat) : digitsValue 10 (Nat.toDigits 10 n) = n := by
  have hfold : ∀ (ds : Text) (a : Nat), (∀ c ∈ ds, c.isDigit = true) →
      ds.foldl (fun n c => 10 * n + digitValue c) a = Nat.ofDigitChars 10 ds a := by
    intro ds
    induction ds with
    | nil => simp
    | cons c r ih =>
        intro a hds
        rw [List.foldl_cons, Nat.ofDigitChars_cons, ih _ fun x hx => hds x (by simp [hx])]
        simp [digitValue, hds c (by simp)]
  rw [digitsValue, hfold _ _ fun c hc => isDigit_of_mem_toDigits hc]
  exact Nat.ofDigitChars_ten_toDigits

theorem not_isDigit_marks : openMark.isDigit = false ∧ closeMark.isDigit = false := by decide

theorem takeWhile_toDigits (n : Nat) (t : Text) :
    (Nat.toDigits 10 n ++ closeMark :: t).takeWhile Char.isDigit = Nat.toDigits 10 n := by
  rw [List.takeWhile_append_of_pos fun c hc => isDigit_of_mem_toDigits hc]
  simp [not_isDigit_marks.2]

theorem referenceRule_reference (n : Nat) (t : Text) :
    referenceRule [] (reference n ++ t) = some ((reference n).length, n) := by
  have htake := takeWhile_toDigits n t
  have hne : Nat.toDigits 10 n ≠ [] := Nat.toDigits_ne_nil
  have hform : reference n ++ t = openMark :: (Nat.toDigits 10 n ++ closeMark :: t) := by
    simp [reference]
  rw [hform]
  simp only [referenceRule, htake, List.drop_left]
  simp [hne, digitsValue_toDigits, reference]

theorem drop_length_takeWhile (p : Char → Bool) (t : Text) :
    t.drop (t.takeWhile p).length = t.dropWhile p :=
  calc t.drop (t.takeWhile p).length
      = (t.takeWhile p ++ t.dropWhile p).drop (t.takeWhile p).length := by
        rw [List.takeWhile_append_dropWhile]
    _ = t.dropWhile p := List.drop_left

theorem eq_of_referenceRule {t : Text} {answer : Nat × Nat}
    (h : referenceRule [] t = some answer) :
    ∃ ds r, t = openMark :: (ds ++ closeMark :: r) ∧ (∀ c ∈ ds, c.isDigit = true) ∧
      answer = (ds.length + 2, digitsValue 10 ds) := by
  cases t with
  | nil => cases h
  | cons c t =>
      rw [referenceRule] at h
      split at h
      · next hform =>
          obtain ⟨rfl, -, hclose⟩ := hform
          obtain ⟨r, hr⟩ := List.head?_eq_some_iff.mp hclose
          refine ⟨t.takeWhile Char.isDigit, r, ?_, List.all_eq_true.mp List.all_takeWhile,
            (Option.some.inj h).symm⟩
          rw [← hr, drop_length_takeWhile, List.takeWhile_append_dropWhile]
      · cases h

inductive Sealed (m : Char) (k : Nat) : Text → Prop
  | nil : Sealed m k []
  | keep {c : Char} {t : Text} : c ≠ m → Sealed m k t → Sealed m k (c :: t)
  | reference {n : Nat} {t : Text} : n < k → Sealed m k t → Sealed m k (reference n ++ t)

namespace Sealed

variable {m : Char} {k : Nat} {s t : Text}

theorem of_not_mem (h : m ∉ t) : Sealed m k t := by
  induction t with
  | nil => exact .nil
  | cons c r ih =>
      have hc : c ≠ m := fun hc => h (by simp [hc])
      exact .keep hc (ih fun hr => h (by simp [hr]))

theorem not_mem (h : Sealed m 0 t) : m ∉ t := by
  induction h with
  | nil => simp
  | keep hc _ ih => simpa using ⟨hc.symm, ih⟩
  | reference hn => exact absurd hn (Nat.not_lt_zero _)

theorem append (hs : Sealed m k s) (ht : Sealed m k t) : Sealed m k (s ++ t) := by
  induction hs with
  | nil => exact ht
  | keep hc _ ih => exact .keep hc ih
  | reference hn _ ih =>
      rw [List.append_assoc]
      exact .reference hn ih

theorem mono {l : Nat} (h : Sealed m k t) (hl : k ≤ l) : Sealed m l t := by
  induction h with
  | nil => exact .nil
  | keep hc _ ih => exact .keep hc ih
  | reference hn _ ih => exact .reference (by omega) ih

theorem not_digits_close (h : Sealed closeMark k t) {ds r : Text}
    (hds : ∀ c ∈ ds, c.isDigit = true) : t ≠ ds ++ closeMark :: r := by
  induction h generalizing ds with
  | nil => simp
  | @keep c t hc _ ih =>
      rintro heq
      cases ds with
      | nil => exact hc (List.cons.inj heq).1
      | cons d ds => exact ih (fun x hx => hds x (by simp [hx])) (List.cons.inj heq).2
  | @reference n t _ _ _ =>
      intro heq
      have hhead : (Evaluation.reference n ++ t).head? = some openMark := rfl
      rw [heq] at hhead
      cases ds with
      | nil =>
          obtain hmarks : closeMark = openMark := by simpa using hhead
          exact absurd hmarks (by decide)
      | cons d ds =>
          obtain rfl : d = openMark := by simpa using hhead
          exact absurd (hds openMark (by simp)) (by decide)

variable (hm : m = openMark ∨ m = closeMark)

include hm

theorem referenceRule_keep {c : Char} (hc : c ≠ m) (h : Sealed m k t) :
    referenceRule [] (c :: t) = none := by
  rcases hm with rfl | rfl
  · simp [referenceRule, hc]
  · cases hrule : referenceRule [] (c :: t) with
    | none => rfl
    | some answer =>
        obtain ⟨ds, r, ht, hds, -⟩ := eq_of_referenceRule hrule
        exact absurd (List.cons.inj ht).2 (h.not_digits_close hds)

theorem segments_append (hs : Sealed m k s) (ht : Sealed m k t) :
    segments referenceRule (s ++ t) = segments referenceRule s ++ segments referenceRule t := by
  induction hs with
  | nil => rfl
  | @keep c s hc hs ih =>
      rw [List.cons_append,
        segments_keep isLocal_referenceRule (referenceRule_keep hm hc (hs.append ht)),
        segments_keep isLocal_referenceRule (referenceRule_keep hm hc hs), ih]
      rfl
  | @reference n s _ _ ih =>
      have hne : Evaluation.reference n ≠ [] := by simp [Evaluation.reference]
      rw [List.append_assoc, segments_hit isLocal_referenceRule hne (referenceRule_reference n _),
        segments_hit isLocal_referenceRule hne (referenceRule_reference n _), ih]
      rfl

theorem lt_of_hit {n : Nat} (h : Sealed m k t) (hn : .hit n ∈ segments referenceRule t) :
    n < k := by
  induction h with
  | nil => cases hn
  | keep hc ht ih =>
      rw [segments_keep isLocal_referenceRule (referenceRule_keep hm hc ht)] at hn
      exact ih (by simpa using hn)
  | @reference l t hl _ ih =>
      have hne : Evaluation.reference l ≠ [] := by simp [Evaluation.reference]
      rw [segments_hit isLocal_referenceRule hne (referenceRule_reference l _)] at hn
      rcases List.mem_cons.mp hn with hn | hn
      · obtain rfl : n = l := by simpa using hn
        exact hl
      · exact ih hn

end Sealed

def Segment.fill (values : List Text) : Segment Nat → Text
  | .keep c => [c]
  | .hit n => values[n]?.getD []

def fill (values : List Text) (t : Text) : Text :=
  (segments referenceRule t).flatMap (Segment.fill values)

def values (pieces : List Text) : List Text :=
  pieces.foldl (fun vs p => vs ++ [fill vs p]) []

@[simp] theorem values_concat (pieces : List Text) (p : Text) :
    values (pieces ++ [p]) = values pieces ++ [fill (values pieces) p] := by
  simp [values]

@[simp] theorem length_values (pieces : List Text) : (values pieces).length = pieces.length := by
  induction pieces using List.reverseRecOn with
  | nil => rfl
  | append_singleton ps p ih => simp [ih]

section Fill

variable {m : Char} (hm : m = openMark ∨ m = closeMark) {k : Nat} {vs : List Text} {s t : Text}

include hm

theorem fill_append (hs : Sealed m k s) (ht : Sealed m k t) :
    fill vs (s ++ t) = fill vs s ++ fill vs t := by
  rw [fill, hs.segments_append hm ht, List.flatMap_append]
  rfl

theorem fill_keep {c : Char} (hc : c ≠ m) (ht : Sealed m k t) :
    fill vs (c :: t) = c :: fill vs t := by
  rw [fill, segments_keep isLocal_referenceRule (ht.referenceRule_keep hm hc)]
  rfl

theorem fill_extend (ht : Sealed m vs.length t) (more : List Text) :
    fill (vs ++ more) t = fill vs t := by
  have hfill : ∀ g ∈ segments referenceRule t, Segment.fill (vs ++ more) g = Segment.fill vs g := by
    intro g hg
    cases g with
    | keep c => rfl
    | hit n =>
        have hn := ht.lt_of_hit hm hg
        simp [Segment.fill, List.getElem?_append_left hn]
  rw [fill, fill, List.flatMap_def, List.flatMap_def, List.map_congr_left hfill]

end Fill

theorem fill_reference (vs : List Text) (n : Nat) (t : Text) :
    fill vs (reference n ++ t) = vs[n]?.getD [] ++ fill vs t := by
  have hne : reference n ≠ [] := by simp [reference]
  rw [fill, segments_hit isLocal_referenceRule hne (referenceRule_reference n t)]
  rfl

theorem fill_of_not_mem {vs : List Text} {t : Text} (ht : openMark ∉ t) : fill vs t = t := by
  induction t with
  | nil => rfl
  | cons c r ih =>
      have hc : c ≠ openMark := fun hc => ht (by simp [hc])
      have hr : openMark ∉ r := fun hr => ht (by simp [hr])
      rw [fill_keep (.inl rfl) hc (Sealed.of_not_mem hr (k := 0)), ih hr]

theorem mapM_ok {α β : Type} {f : α → Except Fault β} {g : α → β} {as : List α}
    (h : ∀ a ∈ as, f a = .ok (g a)) : as.mapM f = .ok (as.map g) := by
  induction as with
  | nil => rfl
  | cons a as ih =>
      rw [List.mapM_cons, h a (by simp), ih fun b hb => h b (by simp [hb])]
      rfl

def Ordered (m : Char) (pieces : List Text) : Prop :=
  ∀ i p, pieces[i]? = some p → Sealed m i p

section Expand

variable {m : Char} (hm : m = openMark ∨ m = closeMark) {pieces : List Text} {p t : Text}

theorem ordered_nil : Ordered m [] := by
  intro i p hi
  cases hi

theorem Ordered.concat (h : Ordered m pieces) (hp : Sealed m pieces.length p) :
    Ordered m (pieces ++ [p]) := by
  intro i q hi
  rcases Nat.lt_or_ge i pieces.length with hlt | hge
  · rw [List.getElem?_append_left hlt] at hi
    exact h i q hi
  · rw [List.getElem?_append_right hge] at hi
    obtain ⟨hlen, rfl⟩ := List.getElem?_eq_some_iff.mp hi
    obtain rfl : i = pieces.length := by simp at hlen; omega
    simpa using hp

theorem Ordered.of_concat (h : Ordered m (pieces ++ [p])) :
    Ordered m pieces ∧ Sealed m pieces.length p := by
  constructor
  · intro i q hi
    obtain ⟨hlt, _⟩ := List.getElem?_eq_some_iff.mp hi
    exact h i q (by rwa [List.getElem?_append_left hlt])
  · exact h pieces.length p (by simp)

include hm

theorem getElem?_values (h : Ordered m pieces) {i : Nat} (hi : pieces[i]? = some p) :
    (values pieces)[i]? = some (fill (values pieces) p) := by
  induction pieces using List.reverseRecOn with
  | nil => cases hi
  | append_singleton ps q ih =>
      obtain ⟨hps, hq⟩ := h.of_concat
      have hlast : Sealed m (values ps).length q := by rwa [length_values]
      rw [values_concat]
      rcases Nat.lt_or_ge i ps.length with hlt | hge
      · rw [List.getElem?_append_left hlt] at hi
        have hp : Sealed m (values ps).length p := by
          rw [length_values]
          exact (hps i p hi).mono (Nat.le_of_lt hlt)
        rw [List.getElem?_append_left (by rwa [length_values]), ih hps hi, fill_extend hm hp]
      · rw [List.getElem?_append_right hge] at hi
        obtain ⟨hlen, rfl⟩ := List.getElem?_eq_some_iff.mp hi
        obtain rfl : i = ps.length := by simp at hlen; omega
        simp [fill_extend hm hlast]

theorem expand_eq_fill (h : Ordered m pieces) {k fuel : Nat} (ht : Sealed m k t)
    (hk : k ≤ pieces.length) (hf : k < fuel) :
    expand pieces fuel t = .ok (fill (values pieces) t) := by
  induction fuel generalizing k t with
  | zero => omega
  | succ fuel ih =>
      rw [expand, mapM_ok (g := Segment.fill (values pieces))]
      · rfl
      · intro g hg
        cases g with
        | keep c => rfl
        | hit n =>
            have hn := ht.lt_of_hit hm hg
            have hsome : pieces[n]? = some (pieces[n]) := List.getElem?_eq_getElem (by omega)
            -- A piece refers to smaller numbers than its own, so the fuel goes down with them.
            have hpiece := ih (h n _ hsome) (by omega) (by omega)
            have hvalue := getElem?_values hm h hsome
            simp only [hsome, hpiece, Segment.fill, hvalue]
            rfl

theorem expandAll_eq_fill (h : Ordered m pieces) (ht : Sealed m pieces.length t) :
    expandAll pieces t = .ok (fill (values pieces) t) :=
  expand_eq_fill hm h ht (Nat.le_refl _) (Nat.lt_succ_self _)

end Expand

end WorksheetTex.Evaluation
