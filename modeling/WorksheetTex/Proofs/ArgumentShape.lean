import WorksheetTex.Proofs.Splitting

namespace WorksheetTex.Form

open Text

structure IsArgument (cut : Cut) (p : Text) : Prop where
  ne_nil : p ≠ []
  trimmed : trim p = p
  gapFree : GapFree p
  whole : cut = .atGapsAndParens → ¬ Touches p

structure IsArgumentList (cut : Cut) (ps : List Text) : Prop where
  argument : ∀ p ∈ ps, IsArgument cut p
  closed : ∀ p ∈ ps.dropLast, p.count '(' = p.count ')'

variable {cut : Cut} {depth : Int} {held p q t : Text}

theorem level_eq_sub (t : Text) : level t = t.count '(' - t.count ')' := by
  induction t with
  | nil => rfl
  | cons c t ih =>
      rw [level, ih, weight]
      by_cases ho : c = '('
      · subst ho
        simp
        omega
      · by_cases hc : c = ')'
        · subst hc
          simp
          omega
        · simp [ho, hc]

def Unbroken (cut : Cut) (q : Text) : Prop :=
  ∀ u c v, q = u ++ c :: v → Cuts cut (level u) c → u = [] ∧ c = '('

theorem unbroken_nil : Unbroken cut [] := by
  intro u c v h
  simp at h

theorem unbroken_start {c : Char} : Unbroken cut (start c) := by
  intro u x v h _
  by_cases hc : c = '('
  · rw [start, if_pos hc] at h
    rcases List.append_eq_singleton_iff.mp h.symm with ⟨rfl, hx⟩ | ⟨-, hx⟩
    · exact ⟨rfl, (List.cons.inj hx).1.trans hc⟩
    · cases hx
  · rw [start, if_neg hc] at h
    simp at h

theorem Unbroken.concat {c : Char} (hq : Unbroken cut q) (hc : ¬ Cuts cut (level q) c) :
    Unbroken cut (q ++ [c]) := by
  intro u x v h hx
  rcases List.eq_nil_or_concat v with rfl | ⟨w, y, rfl⟩
  · obtain ⟨rfl, hcx⟩ := List.append_inj' h rfl
    obtain rfl : c = x := by simpa using hcx
    exact absurd hx hc
  · rw [List.concat_eq_append, ← List.cons_append, ← List.append_assoc] at h
    exact hq u x w (List.append_inj' h rfl).1 hx

theorem level_start {c : Char} (h : Cuts cut depth c) : level (start c) = weight c := by
  rcases h.2 with hgap | ⟨-, rfl⟩
  · have hc := isBlank_of_isGap hgap
    rw [start_of_isBlank hc, weight_of_isBlank hc]
    rfl
  · rfl

theorem filter_start {c : Char} (h : Cuts cut depth c) :
    (start c).filter (!isBlank ·) = [c].filter (!isBlank ·) := by
  rcases h.2 with hgap | ⟨-, rfl⟩
  · have hc := isBlank_of_isGap hgap
    simp [start_of_isBlank hc, hc]
  · rfl

theorem exists_stretches (hheld : Unbroken cut held.reverse) (hlevel : level held.reverse = depth) :
    ∃ qs q, splitFrom cut depth held t = (qs ++ [q]).flatMap (release ·.reverse) ∧
      (∀ s ∈ qs ++ [q], Unbroken cut s) ∧ (∀ s ∈ qs, level s = 0) ∧
      (qs ++ [q]).flatten.filter (!isBlank ·) = (held.reverse ++ t).filter (!isBlank ·) := by
  induction t generalizing depth held with
  | nil => exact ⟨[], held.reverse, by simp, by simpa using hheld, by simp, by simp⟩
  | cons c t ih =>
      rw [splitFrom_cons]
      split
      · next hc =>
          have hreverse : (start c).reverse = start c := by
            rw [start]
            split <;> rfl
          obtain ⟨qs, q, hsplit, hunbroken, hclosed, hfilter⟩ := @ih (depth + weight c) (start c)
            (hreverse.symm ▸ unbroken_start) (by rw [hreverse, level_start hc, hc.1, Int.zero_add])
          refine ⟨held.reverse :: qs, q, ?_, ?_, ?_, ?_⟩
          · rw [hsplit]
            simp
          · rw [List.cons_append, List.forall_mem_cons]
            exact ⟨hheld, hunbroken⟩
          · rw [List.forall_mem_cons]
            exact ⟨hlevel.trans hc.1, hclosed⟩
          · rw [List.cons_append, List.flatten_cons, List.filter_append, hfilter, hreverse,
              List.filter_append, filter_start hc, ← List.filter_append, ← List.filter_append]
            rfl
      · next hc =>
          obtain ⟨qs, q, hsplit, hunbroken, hclosed, hfilter⟩ :=
            @ih (depth + weight c) (c :: held)
              (by rw [List.reverse_cons]; exact hheld.concat (hlevel.symm ▸ hc))
              (by simp [level, hlevel])
          exact ⟨qs, q, hsplit, hunbroken, hclosed, by simpa using hfilter⟩

theorem isArgument_of_mem_release (hq : Unbroken cut q) (h : p ∈ release q.reverse) :
    IsArgument cut p ∧ level p = level q := by
  obtain ⟨b, b', hb, hb', heq, htrim, c, r, hp, -⟩ := mem_release h
  rw [List.reverse_reverse] at heq
  have hcut {u v : Text} {x : Char} (huv : p = u ++ x :: v) (hx : Cuts cut (level u) x) :
      u = [] ∧ x = '(' := by
    have hplace := hq (b ++ u) x (v ++ b') (by rw [heq, huv]; simp)
    rw [level_append, level_of_allBlank hb, Int.zero_add] at hplace
    exact ⟨(List.append_eq_nil_iff.mp (hplace hx).1).2, (hplace hx).2⟩
  refine ⟨⟨by simp [hp], htrim, ?_, ?_⟩, ?_⟩
  · intro u x v huv hgap hlevel
    obtain ⟨-, rfl⟩ := hcut huv ⟨hlevel, .inl hgap⟩
    cases hgap
  · rintro hboth ⟨u, v, hu, hlevel, huv⟩
    exact hu (hcut huv ⟨hlevel, .inr ⟨hboth, rfl⟩⟩).1
  · rw [heq, level_append, level_append, level_of_allBlank hb, level_of_allBlank hb', Int.zero_add,
      Int.add_zero]

theorem filter_flatten_release (q : Text) :
    (release q.reverse).flatten.filter (!isBlank ·) = q.filter (!isBlank ·) := by
  have hblank {b : Text} (hb : allBlank b = true) : b.filter (!isBlank ·) = [] :=
    List.filter_eq_nil_iff.mpr fun c hc => by simp [List.all_eq_true.mp hb c hc]
  rw [release]
  split
  · next h =>
      rw [allBlank, List.all_reverse] at h
      rw [hblank h]
      rfl
  · obtain ⟨b, b', hb, hb', heq⟩ := exists_trim q
    calc [trim q.reverse.reverse].flatten.filter (!isBlank ·)
        = (trim q).filter (!isBlank ·) := by rw [List.reverse_reverse, List.flatten_singleton]
      _ = (b ++ (trim q ++ b')).filter (!isBlank ·) := by
          rw [List.filter_append, List.filter_append, hblank hb, hblank hb', List.nil_append,
            List.append_nil]
      _ = q.filter (!isBlank ·) := by rw [← heq]

theorem mem_flatMap_of_mem_dropLast {f : Text → List Text} {qs : List Text}
    (hf : ∀ q, (f q).length ≤ 1) (h : p ∈ ((qs ++ [q]).flatMap f).dropLast) : p ∈ qs.flatMap f := by
  have hq := hf q
  rw [List.flatMap_append, List.flatMap_singleton] at h
  rcases hlast : f q with _ | ⟨x, _ | ⟨y, ys⟩⟩
  · rw [hlast, List.append_nil] at h
    exact (List.dropLast_sublist _).subset h
  · rwa [hlast, List.dropLast_concat] at h
  · rw [hlast] at hq
    simp at hq

theorem length_release_le (held : Text) : (release held).length ≤ 1 := by
  rw [release]
  split <;> simp

theorem isArgumentList_split (cut : Cut) (t : Text) : IsArgumentList cut (split cut t) := by
  obtain ⟨qs, q, hsplit, hunbroken, hclosed, -⟩ :=
    @exists_stretches cut 0 [] t unbroken_nil rfl
  rw [split, hsplit]
  constructor
  · intro p hp
    obtain ⟨s, hs, hp⟩ := List.mem_flatMap.mp hp
    exact (isArgument_of_mem_release (hunbroken s hs) hp).1
  · intro p hp
    obtain ⟨s, hs, hp⟩ := List.mem_flatMap.mp
      (mem_flatMap_of_mem_dropLast (fun s => length_release_le s.reverse) hp)
    have hlevel := (isArgument_of_mem_release (hunbroken s (by simp [hs])) hp).2
    rw [hclosed s hs, level_eq_sub] at hlevel
    omega

theorem filter_flatten_split (cut : Cut) (t : Text) :
    (split cut t).flatten.filter (!isBlank ·) = t.filter (!isBlank ·) := by
  obtain ⟨qs, q, hsplit, -, -, hfilter⟩ :=
    @exists_stretches cut 0 [] t unbroken_nil rfl
  rw [split, hsplit]
  refine Eq.trans ?_ hfilter
  generalize qs ++ [q] = ss
  induction ss with
  | nil => rfl
  | cons s ss ih =>
      rw [List.flatMap_cons, List.flatten_append, List.filter_append, filter_flatten_release, ih,
        List.flatten_cons, List.filter_append]

theorem IsArgument.split_eq (h : IsArgument cut p) : split cut p = [p] := by
  obtain ⟨c, r, rfl⟩ := List.exists_cons_of_ne_nil h.ne_nil
  have hc : isBlank c = false := by
    have hhead := head_trim_not_blank (c :: r)
    rw [h.trimmed] at hhead
    exact hhead c rfl
  refine split_eq_singleton hc h.trimmed ?_
  rintro u x v rfl ⟨hlevel, hgap | ⟨hboth, rfl⟩⟩
  · exact h.gapFree (c :: u) x v rfl hgap hlevel
  · exact h.whole hboth ⟨c :: u, v, by simp, hlevel, rfl⟩

theorem IsArgumentList.split_joinWith {ps : List Text} (h : IsArgumentList cut ps) :
    split cut (joinWith [' '] ps) = ps := by
  induction ps with
  | nil => rfl
  | cons p ps ih =>
      obtain ⟨hp, hps⟩ := List.forall_mem_cons.mp h.argument
      cases ps with
      | nil => simpa [joinWith] using hp.split_eq
      | cons q ps =>
          obtain ⟨hclosed, hrest⟩ := List.forall_mem_cons.mp h.closed
          have hspace : Cuts cut (0 + level p) ' ' := by
            refine ⟨?_, .inl rfl⟩
            rw [level_eq_sub]
            omega
          calc split cut (joinWith [' '] (p :: q :: ps))
              = split cut (p ++ ' ' :: joinWith [' '] (q :: ps)) := by
                rw [joinWith_cons (List.cons_ne_nil q ps), List.append_assoc]
                rfl
            _ = split cut p ++ split cut ([' '] ++ joinWith [' '] (q :: ps)) :=
                splitFrom_append hspace
            _ = [p] ++ split cut (joinWith [' '] (q :: ps)) := by
                rw [hp.split_eq, split, splitFrom_blank_append (by decide) rfl]
            _ = p :: q :: ps := by
                rw [ih ⟨hps, hrest⟩]
                rfl

theorem split_invertible (cut : Cut) (t : Text) :
    IsArgumentList cut (split cut t) ∧
      (split cut t).flatten.filter (!isBlank ·) = t.filter (!isBlank ·) ∧
      (∀ ps, IsArgumentList cut ps → split cut (joinWith [' '] ps) = ps) ∧
      split cut (joinWith [' '] (split cut t)) = split cut t :=
  ⟨isArgumentList_split cut t, filter_flatten_split cut t, fun _ h => h.split_joinWith,
    (isArgumentList_split cut t).split_joinWith⟩

theorem split_invertible_unbalanced :
    IsArgumentList .atGapsAndParens ["x".toList, "(@SUB 1)".toList, ")(".toList, "(( b".toList] ∧
      split .atGapsAndParens "x (@SUB 1) )( (( b".toList =
        ["x".toList, "(@SUB 1)".toList, ")(".toList, "(( b".toList] := by
  have hsplit : split .atGapsAndParens "x(@SUB 1)\t )( (( b ".toList =
      ["x".toList, "(@SUB 1)".toList, ")(".toList, "(( b".toList] := by decide
  obtain ⟨hshape, -, hjoin, -⟩ :=
    split_invertible .atGapsAndParens "x(@SUB 1)\t )( (( b ".toList
  rw [hsplit] at hshape
  exact ⟨hshape, hjoin _ hshape⟩

end WorksheetTex.Form
