import WorksheetTex.Proofs.PolishRule

namespace WorksheetTex.Tex.Polish

open Text

def adjoins (c : Char) : Bool :=
  c == '\\' || isLatin c

def isGlued (before : Text) : Bool :=
  before.head?.any adjoins

def isBlocked (before : Text) : Bool :=
  isGlued before || uprightOpenings.any (endsIn before ·)

theorem adjoins_of_isNumeral {c : Char} (h : isNumeral c = true) : adjoins c = false := by
  rw [isNumeral, Bool.or_eq_true, beq_iff_eq] at h
  rcases h with h | rfl
  · have hdigit : c.val ≤ '9'.val := of_decide_eq_true (Bool.and_eq_true_iff.mp h).2
    have hbelow {d : Char} (hd : ¬ d.val ≤ '9'.val) (hc : d.val ≤ c.val) : False :=
      hd (UInt32.le_trans hc hdigit)
    refine Bool.eq_false_iff.mpr fun hadjoins => ?_
    rw [adjoins, Bool.or_eq_true, beq_iff_eq] at hadjoins
    rcases hadjoins with rfl | hlatin
    · cases h
    · have hcases : (c.isUpper || c.isLower) = true := hlatin
      rw [Bool.or_eq_true] at hcases
      rcases hcases with hupper | hlower
      · exact @hbelow 'A' (by decide) (of_decide_eq_true hupper).1
      · exact @hbelow 'a' (by decide) (of_decide_eq_true (Bool.and_eq_true_iff.mp hlower).1)
  · rfl

theorem functionRule_eq_none_iff {before t : Text} :
    functionRule before t = none ↔
      (t.takeWhile isLatin ∈ namedFunctions → isBlocked before = true) := by
  have hrule : functionRule before t =
      if namedFunctions.contains (t.takeWhile isLatin) && !isGlued before &&
        !uprightOpenings.any (endsIn before ·) then
        some ((t.takeWhile isLatin).length, '\\' :: t.takeWhile isLatin)
      else none := rfl
  rw [hrule, ite_eq_right_iff, isBlocked, ← List.contains_iff_mem]
  cases namedFunctions.contains (t.takeWhile isLatin) <;> cases isGlued before <;>
    cases uprightOpenings.any (endsIn before ·) <;> simp

theorem functionRule_of_not_latin {before t : Text} (h : t.head?.any isLatin = false) :
    functionRule before t = none := by
  refine functionRule_eq_none_iff.mpr fun hmem => ?_
  cases t with
  | nil => exact absurd rfl (mem_namedFunctions hmem).1
  | cons c t =>
      rw [List.takeWhile_cons_of_neg (by simpa using h)] at hmem
      exact absurd rfl (mem_namedFunctions hmem).1

section Quiet

variable {before w s t : Text} {c : Char}

theorem quiet_of_not_latin (hs : s.all (!isLatin ·) = true)
    (h : functionRule.Quiet (s.reverse ++ before) t) : functionRule.Quiet before (s ++ t) := by
  induction s generalizing before with
  | nil => exact h
  | cons c s ih =>
      rw [List.all_cons, Bool.and_eq_true, Bool.not_eq_true'] at hs
      rw [List.reverse_cons, List.append_assoc] at h
      exact .cons (functionRule_of_not_latin hs.1) (ih hs.2 h)

theorem quiet_of_blocked (hbefore : isBlocked before = true) (hw : w.all isLatin = true)
    (h : functionRule.Quiet (w.reverse ++ before) t) : functionRule.Quiet before (w ++ t) := by
  induction w generalizing before with
  | nil => exact h
  | cons c w ih =>
      rw [List.all_cons, Bool.and_eq_true] at hw
      rw [List.reverse_cons, List.append_assoc] at h
      have hglued : isBlocked (c :: before) = true := by simp [isBlocked, isGlued, adjoins, hw.1]
      exact .cons (functionRule_eq_none_iff.mpr fun _ => hbefore) (ih hglued hw.2 h)

def isCommand : Text → Bool
  | '\\' :: w => w.all isLatin
  | _ => false

theorem quiet_command (hw : isCommand w = true) (h : functionRule.Quiet (w.reverse ++ before) t) :
    functionRule.Quiet before (w ++ t) := by
  unfold isCommand at hw
  split at hw
  · next w =>
      rw [List.reverse_cons, List.append_assoc] at h
      exact .cons (functionRule_of_not_latin rfl) (quiet_of_blocked rfl hw h)
  · cases hw

theorem takeWhile_of_not_latin (hne : s ≠ []) (hs : s.all (!isLatin ·) = true) (t : Text) :
    (s ++ t).takeWhile isLatin = [] := by
  cases s with
  | nil => exact absurd rfl hne
  | cons c s =>
      rw [List.all_cons, Bool.and_eq_true, Bool.not_eq_true'] at hs
      rw [List.cons_append, List.takeWhile_cons_of_neg (by simp [hs.1])]

theorem takeWhile_command (hw : isCommand w = true) (t : Text) :
    (w ++ t).takeWhile isLatin = [] := by
  unfold isCommand at hw
  split at hw
  · rfl
  · cases hw

end Quiet

section Follows

theorem endsIn_concat {before w : Text} {c d : Char} :
    endsIn (c :: before) (w ++ [d]) = true ↔ d = c ∧ endsIn before w = true := by
  simp [endsIn]

theorem endsIn_reverse (w before : Text) : endsIn (w.reverse ++ before) w = true := by
  simp [endsIn]

theorem isGlued_of_endsIn {before v : Text} (hv : v.all isLatin = true)
    (h : endsIn before ('\\' :: v) = true) : isGlued before = true := by
  cases before with
  | nil => simp [endsIn] at h
  | cons c before =>
      rcases List.eq_nil_or_concat v with rfl | ⟨v, d, rfl⟩
      · obtain rfl : '\\' = c := by simpa [endsIn] using h
        rfl
      · rw [List.concat_eq_append, List.all_append, Bool.and_eq_true] at hv
        rw [List.concat_eq_append, ← List.cons_append, endsIn_concat] at h
        rw [h.1] at hv
        simpa [isGlued, adjoins] using Or.inr hv.2

theorem endsIn_of_name {before v w : Text} (hv : v.all isLatin = true) (hw : w.all isLatin = true)
    (h : endsIn (w ++ before) ('\\' :: v) = true) : isGlued before = true := by
  induction w generalizing v with
  | nil => exact isGlued_of_endsIn hv h
  | cons c w ih =>
      rw [List.all_cons, Bool.and_eq_true] at hw
      rcases List.eq_nil_or_concat v with rfl | ⟨v, d, rfl⟩
      · obtain rfl : '\\' = c := by simpa [endsIn] using h
        cases hw.1
      · rw [List.concat_eq_append, List.all_append, Bool.and_eq_true] at hv
        rw [List.concat_eq_append, ← List.cons_append, List.cons_append, endsIn_concat] at h
        exact ih hv.1 hw.2 h.2

structure Follows (t before before' : Text) : Prop where
  glued : t.head?.any isLatin = true → isGlued before = true → isGlued before' = true
  command {w : Text} : w.all isLatin = true → endsIn before ('\\' :: w) = true →
    endsIn before' ('\\' :: w) = true
  opening {w : Text} : w.all isLatin = true → endsIn before ('\\' :: (w ++ ['{'])) = true →
    endsIn before' ('\\' :: (w ++ ['{'])) = true

namespace Follows

variable {t r w before before' : Text}

theorem refl (t before : Text) : Follows t before before :=
  ⟨fun _ h => h, fun _ h => h, fun _ h => h⟩

theorem blocked (h : Follows t before before') (ht : t.head?.any isLatin = true)
    (hbefore : isBlocked before = true) : isBlocked before' = true := by
  have hshape : ∀ o ∈ uprightOpenings,
      ∃ w : Text, w.all isLatin = true ∧ o = '\\' :: (w ++ ['{']) := by
    simp only [uprightOpenings, List.forall_mem_cons]
    exact ⟨⟨"mathrm", by decide, by decide⟩, ⟨"operatorname", by decide, by decide⟩,
      ⟨"text", by decide, by decide⟩, by simp⟩
  rw [isBlocked, Bool.or_eq_true, List.any_eq_true] at hbefore ⊢
  refine hbefore.imp (h.glued ht) ?_
  rintro ⟨o, ho, hends⟩
  obtain ⟨w, hw, rfl⟩ := hshape o ho
  exact ⟨_, ho, h.opening hw hends⟩

theorem cons (h : Follows t before before') (c : Char) (r : Text) :
    Follows r (c :: before) (c :: before') where
  glued _ hglued := hglued
  command := by
    intro w hw hends
    rcases List.eq_nil_or_concat w with rfl | ⟨w, d, rfl⟩
    · simpa [endsIn] using hends
    · rw [List.concat_eq_append, List.all_append, Bool.and_eq_true] at hw
      rw [List.concat_eq_append, ← List.cons_append, endsIn_concat] at hends ⊢
      exact ⟨hends.1, h.command hw.1 hends.2⟩
  opening := by
    intro w hw hends
    rw [← List.cons_append, endsIn_concat] at hends ⊢
    exact ⟨hends.1, h.command hw hends.2⟩

theorem backslash (t before before' : Text) : Follows t ('\\' :: before) ('\\' :: before') where
  glued _ hglued := hglued
  command := by
    intro w hw hends
    rcases List.eq_nil_or_concat w with rfl | ⟨w, d, rfl⟩
    · simp [endsIn]
    · rw [List.concat_eq_append, List.all_append, Bool.and_eq_true] at hw
      rw [List.concat_eq_append, ← List.cons_append, endsIn_concat] at hends
      rw [hends.1] at hw
      cases hw.2
  opening := by
    intro w hw hends
    rw [← List.cons_append, endsIn_concat] at hends
    cases hends.1

theorem name (hr : r.head?.any isLatin = false) (hne : w ≠ []) (hw : w.all isLatin = true)
    (hbefore : isGlued before = false) (before' : Text) :
    Follows r (w.reverse ++ before) before' where
  glued hlatin := by rw [hr] at hlatin; cases hlatin
  command := by
    intro v hv hends
    rw [endsIn_of_name hv (by rwa [List.all_reverse]) hends] at hbefore
    cases hbefore
  opening := by
    intro v hv hends
    obtain ⟨u, d, rfl⟩ := (List.eq_nil_or_concat w).resolve_left hne
    rw [List.concat_eq_append, List.all_append, Bool.and_eq_true] at hw
    rw [List.concat_eq_append, List.reverse_append, ← List.cons_append] at hends
    obtain ⟨rfl, -⟩ := endsIn_concat.mp hends
    cases hw.2

end Follows

end Follows

structure Stays (before t out : Text) : Prop where
  run : before.head?.any isLatin = true → out.takeWhile isLatin = t.takeWhile isLatin
  quiet {before' : Text} : Follows t before before' → functionRule.Quiet before' out

namespace Stays

variable {before s t out : Text} {c : Char}

theorem nil (before : Text) : Stays before [] [] := ⟨fun _ => rfl, fun _ => .nil _⟩

theorem keep (hnone : functionRule before (c :: t) = none) (h : Stays (c :: before) t out) :
    Stays before (c :: t) (c :: out) := by
  have hrun : (c :: out).takeWhile isLatin = (c :: t).takeWhile isLatin := by
    by_cases hc : isLatin c = true
    · rw [List.takeWhile_cons_of_pos hc, List.takeWhile_cons_of_pos hc, h.run hc]
    · rw [List.takeWhile_cons_of_neg hc, List.takeWhile_cons_of_neg hc]
  refine ⟨fun _ => hrun, fun hfollows => .cons ?_ (h.quiet (hfollows.cons c t))⟩
  by_cases hc : isLatin c = true
  · rw [functionRule_eq_none_iff, hrun]
    exact fun hmem => hfollows.blocked hc (functionRule_eq_none_iff.mp hnone hmem)
  · exact functionRule_of_not_latin (by simpa using hc)

theorem append (hquiet : functionRule.Quiet before (s ++ t))
    (h : Stays (s.reverse ++ before) t out) : Stays before (s ++ t) (s ++ out) := by
  induction s generalizing before with
  | nil => exact h
  | cons c s ih =>
      rw [List.reverse_cons, List.append_assoc] at h
      cases hquiet with
      | cons hnone hquiet => exact .keep hnone (ih hquiet h)

theorem command {w : Text} (hw : isCommand w = true) (hs : s.head? = some '\\')
    (hquiet : functionRule.Quiet before (s ++ t)) (h : Stays (s.reverse ++ before) t out) :
    Stays before (s ++ t) (w ++ s ++ out) := by
  obtain ⟨s, rfl⟩ := List.head?_eq_some_iff.mp hs
  rw [List.reverse_cons, List.append_assoc] at h
  rw [List.append_assoc]
  refine ⟨fun _ => takeWhile_command hw _, fun _ => quiet_command hw ?_⟩
  cases hquiet with
  | cons _ hquiet =>
      exact .cons (functionRule_of_not_latin rfl) ((append hquiet h).quiet (.backslash _ _ _))

theorem quantity {value x unit thin w : Text} (hvalue : value ≠ [])
    (hplain : ∀ c ∈ value ++ x, adjoins c = false) (hunit : unit ≠ [])
    (hlatin : unit.all isLatin = true) (ht : t.head?.any isLatin = false)
    (hthin : thin.all (!isLatin ·) = true) (hw : isCommand w = true)
    (hupright : w ++ ['{'] ∈ uprightOpenings)
    (h : Stays ((value ++ (x ++ unit)).reverse ++ before) t out) :
    Stays before (value ++ (x ++ unit) ++ t) (value ++ thin ++ (w ++ group unit) ++ out) := by
  have hnot : value.all (!isLatin ·) = true := List.all_eq_true.mpr fun c hc => by
    have := hplain c (by simp [hc])
    simp_all [adjoins]
  have hout : value ++ thin ++ (w ++ group unit) ++ out =
      value ++ (thin ++ (w ++ (['{'] ++ (unit ++ (['}'] ++ out))))) := by simp [group]
  have hbefore : (value ++ (x ++ unit)).reverse ++ before =
      unit.reverse ++ ((value ++ x).reverse ++ before) := by simp
  have hglued : isGlued ((value ++ x).reverse ++ before) = false := by
    obtain ⟨v, c, hvx⟩ := (List.eq_nil_or_concat (value ++ x)).resolve_left (by simp [hvalue])
    rw [List.concat_eq_append] at hvx
    rw [hvx, List.reverse_append]
    exact hplain c (by simp [hvx])
  rw [hout]
  refine ⟨fun _ => ?_, fun _ => ?_⟩
  · rw [List.append_assoc, takeWhile_of_not_latin hvalue hnot, takeWhile_of_not_latin hvalue hnot]
  · refine quiet_of_not_latin hnot (quiet_of_not_latin hthin (quiet_command hw
      (quiet_of_not_latin rfl (quiet_of_blocked ?_ hlatin (quiet_of_not_latin rfl (h.quiet ?_))))))
    · refine Bool.or_eq_true_iff.mpr (.inr (List.any_eq_true.mpr ⟨_, hupright, ?_⟩))
      rw [← List.append_assoc, ← List.reverse_append]
      exact endsIn_reverse _ _
    · rw [hbefore]
      exact .name ht hunit hlatin hglued _

end Stays

theorem quiet_nameFunctions (t : Text) : functionRule.Quiet [] (nameFunctions t) := by
  refine (hitsOnly_functionRule.induct Stays.nil (fun _ _ _ _ => .keep) ?_ t).quiet (.refl t [])
  intro before s t b out hne hhit ih
  cases hhit with
  | intro hmem hr hglued _ =>
      have hlatin := (mem_namedFunctions hmem).2
      refine ⟨fun hlast => ?_, fun _ => ?_⟩
      · cases before with
        | nil => cases hlast
        | cons c before => simp_all
      · exact quiet_command hlatin (ih.quiet (.name hr hne hlatin hglued _))

theorem quiet_replaceAll {rule : Rule Text} {P : Text → Text → Text → Text → Prop}
    (hrule : rule.HitsOnly P)
    (hstays : ∀ before s t b out, P before s t b → functionRule.Quiet before (s ++ t) →
      Stays (s.reverse ++ before) t out → Stays before (s ++ t) (b ++ out))
    {t : Text} (h : functionRule.Quiet [] t) : functionRule.Quiet [] (replaceAll rule t) := by
  refine (hrule.induct
    (motive := fun before t out => functionRule.Quiet before t → Stays before t out)
    (fun before _ => .nil before) ?_ ?_ t h).quiet (.refl t [])
  · intro before c t out _ ih hquiet
    cases hquiet with
    | cons hnone hquiet => exact .keep hnone (ih hquiet)
  · intro before s t b out _ hhit ih hquiet
    exact hstays before s t b out hhit hquiet (ih hquiet.of_append)

theorem quiet_displayLimits {t : Text} (h : functionRule.Quiet [] t) :
    functionRule.Quiet [] (displayLimits t) := by
  refine quiet_replaceAll hitsOnly_displayRule (fun before s t b out hhit hquiet hstays => ?_) h
  cases hhit with
  | @intro command lower upper _ hcommand _ _ _ =>
      have hall : ∀ w ∈ bigCommands, w.head? = some '\\' := by decide
      have hhead : (command ++ sub lower ++ sup upper).head? = some '\\' := by
        simp [hall command hcommand]
      exact .command (by decide) hhead hquiet hstays

theorem quiet_setQuantities {t : Text} (h : functionRule.Quiet [] t) :
    functionRule.Quiet [] (setQuantities t) := by
  refine quiet_replaceAll hitsOnly_quantityRule (fun before s t b out hhit _ hstays => ?_) h
  cases hhit with
  | @intro value x unit _ hvalue hnumeral hx hunit hlatin ht =>
      refine .quantity hvalue ?_ hunit hlatin ht (by decide) (by decide) (by decide) hstays
      intro c hc
      rcases List.mem_append.mp hc with hc | hc
      · exact adjoins_of_isNumeral (List.all_eq_true.mp hnumeral c hc)
      · obtain rfl : c = ' ' := by simpa [isSpace] using List.all_eq_true.mp hx c hc
        rfl

theorem quiet_of_nameless {before t : Text} (h : ∀ w ∈ namedFunctions, ¬ w <:+: t) :
    functionRule.Quiet before t := by
  induction t generalizing before with
  | nil => exact .nil _
  | cons c t ih =>
      refine .cons (functionRule_eq_none_iff.mpr fun hmem => ?_) (ih fun w hw hinfix => ?_)
      · exact absurd (List.takeWhile_prefix isLatin).isInfix (h _ hmem)
      · exact h w hw (List.infix_cons hinfix)

theorem quiet_append {s t : Text} (hs : functionRule.Quiet [] s)
    (hhead : t.head?.any isLatin = false) (ht : ∀ w ∈ namedFunctions, ¬ w <:+: t) :
    functionRule.Quiet [] (s ++ t) := by
  have hrun : t.takeWhile isLatin = [] := by
    cases t with
    | nil => rfl
    | cons c t => exact List.takeWhile_cons_of_neg (by simpa using hhead)
  have hstays : Stays (s.reverse ++ []) [] t := ⟨fun _ => hrun, fun _ => quiet_of_nameless ht⟩
  rw [← List.append_nil s] at hs
  exact (Stays.append hs hstays).quiet (.refl _ _)

end WorksheetTex.Tex.Polish
