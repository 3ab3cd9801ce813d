import WorksheetTex.Form.Arguments
import WorksheetTex.Form.Head
import WorksheetTex.Proofs.Blank

namespace WorksheetTex.Form

open Text

variable {cut : Cut} {depth : Int} {held p t : Text}

def weight (c : Char) : Int :=
  if c = '(' then 1 else if c = ')' then -1 else 0

def level : Text → Int
  | [] => 0
  | c :: r => weight c + level r

@[simp] theorem level_append (s t : Text) : level (s ++ t) = level s + level t := by
  induction s with
  | nil => simp [level]
  | cons c r ih => simp [level, ih, Int.add_assoc]

theorem weight_of_isBlank {c : Char} (h : isBlank c = true) : weight c = 0 := by
  have hp : c ≠ '(' ∧ c ≠ ')' := by
    constructor <;> rintro rfl <;> revert h <;> decide
  simp [weight, hp]

theorem level_of_allBlank (h : allBlank t = true) : level t = 0 := by
  induction t with
  | nil => rfl
  | cons c r ih =>
      simp only [allBlank, List.all_cons, Bool.and_eq_true] at h
      simp [level, weight_of_isBlank h.1, ih h.2]

def Cuts (cut : Cut) (depth : Int) (c : Char) : Prop :=
  depth = 0 ∧ (isGap c = true ∨ cut = .atGapsAndParens ∧ c = '(')

instance (cut : Cut) (depth : Int) (c : Char) : Decidable (Cuts cut depth c) :=
  inferInstanceAs (Decidable (depth = 0 ∧ (isGap c = true ∨ cut = .atGapsAndParens ∧ c = '(')))

def start (c : Char) : Text :=
  if c = '(' then [c] else []

theorem start_of_isBlank {c : Char} (h : isBlank c = true) : start c = [] := by
  refine if_neg ?_
  rintro rfl
  simp [isBlank, blankRanges] at h

theorem splitFrom_cons (c : Char) (r : Text) :
    splitFrom cut depth held (c :: r) =
      if Cuts cut depth c then release held ++ splitFrom cut (depth + weight c) (start c) r
      else splitFrom cut (depth + weight c) (c :: held) r := by
  by_cases ho : c = '('
  · have hg : isGap '(' = false := rfl
    subst ho
    by_cases h : cut = .atGapsAndParens ∧ depth = 0
    · simp [splitFrom, Cuts, weight, start, h]
    · have hcuts : ¬ Cuts cut depth '(' := fun hc => h ⟨(hc.2.resolve_left (by simp [hg])).1, hc.1⟩
      simp [splitFrom, weight, h, hcuts]
  · by_cases hc : c = ')'
    · have hg : isGap ')' = false := rfl
      subst hc
      simp [splitFrom, Cuts, weight, hg, Int.sub_eq_add_neg]
    · by_cases h : isGap c = true ∧ depth = 0
      · simp [splitFrom, Cuts, weight, start, ho, hc, h]
      · have hcuts : ¬ Cuts cut depth c := fun hd => h ⟨hd.2.resolve_right (by simp [ho]), hd.1⟩
        simp [splitFrom, weight, ho, hc, h, hcuts]

@[simp] theorem splitFrom_nil : splitFrom cut depth held [] = release held := rfl

@[simp] theorem release_nil : release [] = [] := rfl

theorem release_of_allBlank (h : allBlank held = true) : release held = [] := by
  simp [release, h]

theorem release_reverse {t : Text} (hne : t ≠ []) (hhead : ∀ c ∈ t.head?, isBlank c = false)
    (hlast : ∀ c ∈ t.getLast?, isBlank c = false) : release t.reverse = [t] := by
  obtain ⟨c, hc⟩ : ∃ c, c ∈ t.head? := Option.isSome_iff_exists.mp (by simpa using hne)
  have hblank : allBlank t.reverse = false := by
    rw [allBlank, List.all_reverse]
    refine List.all_eq_false.mpr ⟨c, List.mem_of_mem_head? hc, ?_⟩
    simp [hhead c hc]
  simp [release, hblank, trim_of_ends hhead hlast]

theorem splitFrom_append {s t : Text} {c : Char} (h : Cuts cut (depth + level s) c) :
    splitFrom cut depth held (s ++ c :: t) = splitFrom cut depth held s ++ split cut (c :: t) := by
  induction s generalizing depth held with
  | nil =>
      have hcuts : Cuts cut depth c := by simpa [level] using h
      obtain rfl := hcuts.1
      rw [List.nil_append, split, splitFrom_cons, splitFrom_cons, if_pos hcuts, if_pos hcuts,
        release_nil]
      rfl
  | cons x s ih =>
      rw [level, ← Int.add_assoc] at h
      rw [List.cons_append, splitFrom_cons, splitFrom_cons]
      split
      · rw [ih h, List.append_assoc]
      · exact ih h

theorem splitFrom_of_not_cuts {s : Text}
    (h : ∀ u c v, s = u ++ c :: v → ¬ Cuts cut (depth + level u) c) :
    splitFrom cut depth held s = release (s.reverse ++ held) := by
  induction s generalizing depth held with
  | nil => rfl
  | cons x s ih =>
      have hx : ¬ Cuts cut depth x := by simpa [level] using h [] x s rfl
      rw [splitFrom_cons, if_neg hx, ih, List.reverse_cons, List.append_assoc,
        List.singleton_append]
      intro u c v hs
      have := h (x :: u) c v (by rw [hs]; rfl)
      rwa [level, ← Int.add_assoc] at this

section Blank

variable {b : Text} (hb : allBlank b = true)

include hb

theorem release_blank_append : release (b ++ held) = release held := by
  have hr : allBlank b.reverse = true := by
    rw [allBlank, List.all_reverse]
    exact hb
  have hall : allBlank (b ++ held) = allBlank held := by
    rw [allBlank] at hb
    simp only [allBlank, List.all_append, hb, Bool.true_and]
  rw [release, release, hall, List.reverse_append, trim_append_blank hr]

theorem release_append_blank : release (held ++ b) = release held := by
  have hr : allBlank b.reverse = true := by
    rw [allBlank, List.all_reverse]
    exact hb
  have hall : allBlank (held ++ b) = allBlank held := by
    rw [allBlank] at hb
    simp only [allBlank, List.all_append, hb, Bool.and_true]
  rw [release, release, hall, List.reverse_append, trim_blank_append hr]

theorem splitFrom_held_blank : splitFrom cut depth (held ++ b) t = splitFrom cut depth held t := by
  induction t generalizing depth held with
  | nil => exact release_append_blank hb
  | cons c r ih =>
      rw [splitFrom_cons, splitFrom_cons, release_append_blank hb, ← List.cons_append, ih]

theorem splitFrom_blank : splitFrom cut depth held b = release held := by
  induction b generalizing depth held with
  | nil => rfl
  | cons c r ih =>
      simp only [allBlank, List.all_cons, Bool.and_eq_true] at hb
      have hc : allBlank [c] = true := by simp [allBlank, hb.1]
      rw [splitFrom_cons, ih hb.2, ih hb.2, start_of_isBlank hb.1, ← List.singleton_append (x := c),
        release_blank_append hc]
      simp

theorem splitFrom_append_blank :
    splitFrom cut depth held (t ++ b) = splitFrom cut depth held t := by
  induction t generalizing depth held with
  | nil => exact splitFrom_blank hb
  | cons c r ih => rw [List.cons_append, splitFrom_cons, splitFrom_cons, ih, ih]

theorem splitFrom_blank_append (hheld : allBlank held = true) :
    splitFrom cut 0 held (b ++ t) = split cut t := by
  induction b generalizing held with
  | nil =>
      have : splitFrom cut 0 ([] ++ held) t = splitFrom cut 0 [] t := splitFrom_held_blank hheld
      exact this
  | cons c r ih =>
      simp only [allBlank, List.all_cons, Bool.and_eq_true] at hb
      rw [List.cons_append, splitFrom_cons, start_of_isBlank hb.1, weight_of_isBlank hb.1,
        release_of_allBlank hheld, Int.add_zero, ih hb.2 rfl,
        ih hb.2 (by simpa [allBlank, hb.1] using hheld)]
      simp

end Blank

theorem split_trim (cut : Cut) (t : Text) : split cut (trim t) = split cut t := by
  obtain ⟨b, b', hb, hb', ht⟩ := exists_trim t
  calc split cut (trim t) = split cut (trim t ++ b') := (splitFrom_append_blank hb').symm
    _ = split cut (b ++ (trim t ++ b')) := (splitFrom_blank_append hb rfl).symm
    _ = split cut t := by rw [← ht]

theorem split_reverse (cut : Cut) (held : Text) :
    split cut held.reverse = (release held).flatMap (split cut) := by
  rw [release]
  split
  · next h =>
      refine splitFrom_blank ?_
      rw [allBlank, List.all_reverse]
      exact h
  · rw [List.flatMap_singleton, split_trim]

theorem split_eq_flatMap (t : Text) :
    split .atGapsAndParens t = (split .atGaps t).flatMap (split .atGapsAndParens) := by
  -- What the splitter at gaps holds is still to be split by the other one.
  suffices h : ∀ held depth, level held.reverse = depth →
      split .atGapsAndParens (held.reverse ++ t) =
        (splitFrom .atGaps depth held t).flatMap (split .atGapsAndParens) from h [] 0 rfl
  induction t with
  | nil =>
      intro held depth _
      rw [List.append_nil, splitFrom_nil, split_reverse]
  | cons c r ih =>
      intro held depth hlevel
      rw [splitFrom_cons]
      split
      · next h =>
          obtain ⟨rfl, hgap⟩ := h
          replace hgap := hgap.resolve_right (by simp)
          have hc := isBlank_of_isGap hgap
          have hblank : allBlank [c] = true := by simp [allBlank, hc]
          have hboth : Cuts .atGapsAndParens (0 + level held.reverse) c := by
            rw [hlevel]
            exact ⟨rfl, .inl hgap⟩
          calc split .atGapsAndParens (held.reverse ++ c :: r)
              = split .atGapsAndParens held.reverse ++ split .atGapsAndParens ([c] ++ r) :=
                splitFrom_append hboth
            _ = split .atGapsAndParens held.reverse ++ split .atGapsAndParens r := by
                rw [split, split, splitFrom_blank_append hblank rfl]
            _ = _ := by
                rw [split_reverse, List.flatMap_append, start_of_isBlank hc, weight_of_isBlank hc]
                exact congrArg _ (ih [] 0 rfl)
      · have := ih (c :: held) (depth + weight c) (by simp [level, hlevel])
        simpa using this

theorem allBlank_of_release_eq_nil (h : release held = []) : allBlank held = true := by
  rw [release] at h
  split at h
  · assumption
  · cases h

theorem allBlank_of_splitFrom_eq_nil (h : splitFrom cut depth held t = []) :
    allBlank held = true ∧ allBlank t = true := by
  induction t generalizing depth held with
  | nil => exact ⟨allBlank_of_release_eq_nil h, rfl⟩
  | cons c r ih =>
      rw [splitFrom_cons] at h
      split at h
      · next hc =>
          obtain ⟨hrelease, hrest⟩ := List.append_eq_nil_iff.mp h
          obtain ⟨hstart, hr⟩ := ih hrest
          have hblank : isBlank c = true := by
            rcases hc.2 with hgap | ⟨_, rfl⟩
            · exact isBlank_of_isGap hgap
            · exact absurd hstart (by decide)
          exact ⟨allBlank_of_release_eq_nil hrelease, by simpa [allBlank, hblank] using hr⟩
      · obtain ⟨hheld, hr⟩ := ih h
        simp only [allBlank, List.all_cons, Bool.and_eq_true] at hheld hr ⊢
        exact ⟨hheld.2, hheld.1, hr⟩

def GapFree (t : Text) : Prop :=
  ∀ u c v, t = u ++ c :: v → isGap c = true → level u ≠ 0

theorem exists_release_of_mem_splitFrom (h : p ∈ splitFrom cut depth held t)
    (hheld : GapFree held.reverse) (hlevel : level held.reverse = depth) :
    ∃ q u v, p ∈ release q ∧ GapFree q.reverse ∧ held.reverse ++ t = u ++ (q.reverse ++ v) ∧
      level u = 0 ∧ (level q.reverse = 0 ∨ v = []) := by
  induction t generalizing depth held with
  | nil => exact ⟨held, [], [], h, hheld, by simp, rfl, .inr rfl⟩
  | cons c r ih =>
      rw [splitFrom_cons] at h
      split at h
      · next hc =>
          obtain ⟨rfl, hstop⟩ := hc
          rcases List.mem_append.mp h with h | h
          · exact ⟨held, [], c :: r, h, hheld, rfl, rfl, .inl hlevel⟩
          · by_cases hopen : c = '('
            · have hstart : start c = [c] := if_pos hopen
              have hfree : GapFree [c] := by
                intro u x v hu hx
                rcases List.append_eq_singleton_iff.mp hu.symm with ⟨rfl, hx'⟩ | ⟨_, hx'⟩
                · obtain ⟨rfl, -⟩ := List.cons.inj hx'
                  rw [hopen] at hx
                  cases hx
                · cases hx'
              rw [hstart] at h
              obtain ⟨q, u, v, hq, hfree, heq, hu, hend⟩ := ih h hfree (by simp [level])
              refine ⟨q, held.reverse ++ u, v, hq, hfree, ?_, by simp [hlevel, hu], hend⟩
              rw [List.append_assoc, ← heq]
              rfl
            · have hgap := hstop.resolve_right fun hparen => hopen hparen.2
              have hstart : start c = [] := if_neg hopen
              rw [hstart, weight_of_isBlank (isBlank_of_isGap hgap)] at h
              obtain ⟨q, u, v, hq, hfree, heq, hu, hend⟩ :=
                ih h (by intro u c v huv; simp at huv) rfl
              refine ⟨q, held.reverse ++ c :: u, v, hq, hfree, ?_, ?_, hend⟩
              · rw [List.append_assoc, List.cons_append, ← heq]
                rfl
              · simp [level, hlevel, hu, weight_of_isBlank (isBlank_of_isGap hgap)]
      · next hc =>
          have hlonger : GapFree (c :: held).reverse := by
            intro u x v huv hx
            rw [List.reverse_cons] at huv
            rcases List.eq_nil_or_concat v with rfl | ⟨w, y, rfl⟩
            · obtain ⟨rfl, hcx⟩ := List.append_inj' huv rfl
              obtain rfl : c = x := by simpa using hcx
              intro hzero
              exact hc ⟨hlevel ▸ hzero, .inl hx⟩
            · have : held.reverse = u ++ x :: w := by
                rw [List.concat_eq_append, ← List.cons_append, ← List.append_assoc] at huv
                exact (List.append_inj' huv rfl).1
              exact hheld u x w this hx
          obtain ⟨q, u, v, hq, hfree, heq, hu, hend⟩ := ih h hlonger (by simp [level, hlevel])
          exact ⟨q, u, v, hq, hfree, by rw [← heq]; simp, hu, hend⟩

def Touches (p : Text) : Prop :=
  ∃ u v, u ≠ [] ∧ level u = 0 ∧ p = u ++ '(' :: v

theorem mem_release (h : p ∈ release held) :
    ∃ b b', allBlank b = true ∧ allBlank b' = true ∧ held.reverse = b ++ (p ++ b') ∧ trim p = p ∧
      ∃ c r, p = c :: r ∧ isBlank c = false := by
  rw [release] at h
  split at h
  · cases h
  · next hblank =>
      obtain rfl := List.mem_singleton.mp h
      have hreverse : allBlank held.reverse = false := by
        rw [allBlank, List.all_reverse]
        exact Bool.eq_false_iff.mpr hblank
      obtain ⟨b, b', hb, hb', heq⟩ := exists_trim held.reverse
      exact ⟨b, b', hb, hb', heq, trim_trim _, exists_cons_trim hreverse⟩

theorem mem_split (h : p ∈ split cut t) :
    trim p = p ∧ GapFree p ∧ ∃ c r, p = c :: r ∧ isBlank c = false := by
  obtain ⟨q, -, -, hq, hfree, -⟩ := exists_release_of_mem_splitFrom h
    (by intro u c v huv; simp at huv) rfl
  obtain ⟨b, b', hb, _, heq, htrim, hhead⟩ := mem_release hq
  refine ⟨htrim, fun u c v huv hc => ?_, hhead⟩
  have := hfree (b ++ u) c (v ++ b') (by rw [heq, huv]; simp) hc
  rwa [level_append, level_of_allBlank hb, Int.zero_add] at this

theorem split_ne_nil {c : Char} {r : Text} (hc : isBlank c = false) : split cut (c :: r) ≠ [] := by
  intro h
  have := (allBlank_of_splitFrom_eq_nil h).2
  simp [allBlank, hc] at this

theorem split_eq_singleton {c : Char} {r : Text} (hc : isBlank c = false)
    (htrim : trim (c :: r) = c :: r)
    (hrest : ∀ u x v, r = u ++ x :: v → ¬ Cuts cut (level (c :: u)) x) :
    split cut (c :: r) = [c :: r] := by
  have hhead : split cut (c :: r) = splitFrom cut (weight c) [c] r := by
    rw [split, splitFrom_cons, Int.zero_add]
    split
    · next hcuts =>
        rcases hcuts.2 with hgap | ⟨_, rfl⟩
        · rw [isBlank_of_isGap hgap] at hc
          cases hc
        · rfl
    · rfl
  have hblank : allBlank (r.reverse ++ [c]) = false := by simp [allBlank, hc]
  rw [hhead, splitFrom_of_not_cuts hrest, release, hblank]
  simp [htrim]

theorem split_eq_singleton_iff (h : p ∈ split .atGaps t) :
    split .atGapsAndParens p = [p] ↔ ¬ Touches p := by
  obtain ⟨htrim, hfree, c, r, rfl, hc⟩ := mem_split h
  constructor
  · rintro hsplit ⟨u, v, hu, hlevel, huv⟩
    have hcuts : Cuts .atGapsAndParens (0 + level u) '(' := ⟨by rw [hlevel]; rfl, .inr ⟨rfl, rfl⟩⟩
    have hparts : split .atGapsAndParens (c :: r) =
        split .atGapsAndParens u ++ split .atGapsAndParens ('(' :: v) := by
      rw [huv]
      exact splitFrom_append hcuts
    obtain ⟨d, w, rfl⟩ := List.exists_cons_of_ne_nil hu
    obtain rfl : c = d := (List.cons.inj huv).1
    rw [hsplit] at hparts
    rcases List.append_eq_singleton_iff.mp hparts.symm with ⟨hnil, _⟩ | ⟨_, hnil⟩
    · exact split_ne_nil hc hnil
    · exact split_ne_nil (by decide) hnil
  · intro htouch
    refine split_eq_singleton hc htrim ?_
    rintro u x v rfl ⟨hlevel, hgap | ⟨_, rfl⟩⟩
    · exact hfree (c :: u) x v rfl hgap hlevel
    · exact htouch ⟨c :: u, v, by simp, hlevel, rfl⟩

theorem flatMap_split_of_not_touches {ps : List Text} (hps : ∀ p ∈ ps, p ∈ split .atGaps t)
    (h : ∀ p ∈ ps, ¬ Touches p) : ps.flatMap (split .atGapsAndParens) = ps := by
  have hsingle : ∀ p ∈ ps, split .atGapsAndParens p = [p] := fun p hp =>
    (split_eq_singleton_iff (hps p hp)).mpr (h p hp)
  rw [List.flatMap_def, List.map_congr_left hsingle, ← List.flatMap_def, List.flatMap_singleton']

theorem dropClosing_concat (t : Text) : dropClosing (t ++ [')']) = t := by
  simp [dropClosing]

theorem operands_enclose (op : Operator) (body : Text) :
    operands ('(' :: op.symbol :: (body ++ [')'])) = split .atGapsAndParens body := by
  have hwidth : unitWidth '(' = 1 ∧ unitWidth op.symbol = 1 := by cases op <;> decide
  have hclose : dropClosing ('(' :: op.symbol :: body ++ [')']) = '(' :: op.symbol :: body :=
    dropClosing_concat _
  rw [List.cons_append, List.cons_append] at hclose
  rw [operands, hclose]
  simp only [dropUnits, hwidth, Nat.add_sub_cancel, Nat.sub_self]

theorem exists_of_operator? {e : Text} {op : Operator} (h : operator? e = some op) :
    ∃ r, e = '(' :: op.symbol :: r := by
  unfold operator? at h
  split at h
  · next c r =>
      have hc := List.find?_some h
      exact ⟨r, by rw [beq_iff_eq.mp hc]⟩
  · cases h

end WorksheetTex.Form
