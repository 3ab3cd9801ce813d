import WorksheetTex.Proofs.Blank
import WorksheetTex.Proofs.FunctionName
import WorksheetTex.Proofs.Reference

namespace WorksheetTex.Tex.Polish

open Text

structure IsRun (x r : Text) : Prop where
  spaces : x.all isSpace = true
  ends : r.head?.any isSpace = false

theorem IsRun.unique {x y r s : Text} (hx : IsRun x r) (hy : IsRun y s) (h : x ++ r = y ++ s) :
    x = y ∧ r = s := by
  have hrun {x r : Text} (h : IsRun x r) : (x ++ r).takeWhile isSpace = x := by
    refine takeWhile_append_of_head (List.all_eq_true.mp h.spaces) fun c hc => ?_
    have hends := h.ends
    rwa [hc] at hends
  have hxy : x = y := by rw [← hrun hx, h, hrun hy]
  exact ⟨hxy, List.append_cancel_left (hxy ▸ h)⟩

theorem IsRun.dropWhile {x r : Text} (h : IsRun x r) : (x ++ r).dropWhile isSpace = r := by
  rw [List.dropWhile_append_of_pos (List.all_eq_true.mp h.spaces)]
  refine dropWhile_of_head? fun c hc => ?_
  have hends := h.ends
  rwa [hc] at hends

theorem exists_isRun (t : Text) : ∃ x r, t = x ++ r ∧ IsRun x r := by
  obtain ⟨x, r, ht, -, -, hx, hr⟩ := exists_run isSpace t
  exact ⟨x, r, ht, hx, hr⟩

theorem eq_of_isSpace {c : Char} (h : isSpace c = true) : c = ' ' :=
  eq_of_beq h

theorem not_isSpace_of_isLatin {c : Char} (h : isLatin c = true) : isSpace c = false := by
  refine Bool.eq_false_iff.mpr fun hspace => ?_
  obtain rfl := eq_of_isSpace hspace
  cases h

theorem head_spaces {x r : Text} (hx : x.all isSpace = true) (hr : r.head?.any isLatin = false) :
    (x ++ r).head?.any isLatin = false := by
  cases x with
  | nil => exact hr
  | cons c x =>
      obtain rfl := eq_of_isSpace (List.all_eq_true.mp hx c List.mem_cons_self)
      rfl

def GoOnAlike (c : Char) (s s' : Text) : Prop :=
  adjoins c = true → s.head?.any isLatin = s'.head?.any isLatin

inductive Respaced (ok : Text → Text → Prop) : Text → Text → Prop
  | nil : Respaced ok [] []
  | cons {c : Char} {x x' r r' : Text} : IsRun x r → IsRun x' r' → ok x x' →
      GoOnAlike c (x ++ r) (x' ++ r') → Respaced ok r r' →
      Respaced ok (c :: (x ++ r)) (c :: (x' ++ r'))

namespace Respaced

variable {ok : Text → Text → Prop} {c : Char} {t t' x r : Text}

theorem head (h : Respaced ok t t') : t.head? = t'.head? := by
  cases h <;> rfl

theorem symm (h : Respaced ok t t') : Respaced (fun x x' => ok x' x) t' t := by
  induction h with
  | nil => exact .nil
  | cons hx hx' hok halike _ ih => exact .cons hx' hx hok (fun hc => (halike hc).symm) ih

theorem filter_eq (h : Respaced ok t t') : t.filter (!isSpace ·) = t'.filter (!isSpace ·) := by
  have hrun {x : Text} (hx : x.all isSpace = true) : x.filter (!isSpace ·) = [] :=
    List.filter_eq_nil_iff.mpr fun c hc => by simp [List.all_eq_true.mp hx c hc]
  induction h with
  | nil => rfl
  | @cons c x x' r r' hx hx' _ _ _ ih =>
      rw [List.filter_cons, List.filter_cons, List.filter_append, List.filter_append,
        hrun hx.spaces, hrun hx'.spaces, ih]

theorem of_cons (h : Respaced ok (c :: (x ++ r)) t') (hx : IsRun x r) :
    ∃ x' r', t' = c :: (x' ++ r') ∧ IsRun x' r' ∧ ok x x' ∧ GoOnAlike c (x ++ r) (x' ++ r') ∧
      Respaced ok r r' := by
  generalize ht : c :: (x ++ r) = t at h
  cases h with
  | nil => cases ht
  | @cons d y y' s s' hy hy' hok halike h =>
      obtain ⟨rfl, heq⟩ := List.cons.inj ht
      obtain ⟨rfl, rfl⟩ := hx.unique hy heq
      exact ⟨y', s', rfl, hy', hok, halike, h⟩

theorem of_word {w : Text} (hw : w.all isLatin = true) (hc : w ≠ [] → adjoins c = true)
    (h : Respaced ok (c :: (w ++ (x ++ r))) t') (hx : IsRun x r) :
    ∃ x' r', t' = c :: (w ++ (x' ++ r')) ∧ IsRun x' r' ∧ ok x x' ∧
      GoOnAlike c (x ++ r) (x' ++ r') ∧ Respaced ok r r' := by
  induction w generalizing c t' with
  | nil =>
      have hrest : Respaced ok (c :: (x ++ r)) t' := h
      exact hrest.of_cons hx
  | cons d w ih =>
      rw [List.all_cons, Bool.and_eq_true] at hw
      have hd := not_isSpace_of_isLatin hw.1
      have hempty : IsRun [] (d :: (w ++ (x ++ r))) := ⟨rfl, hd⟩
      obtain ⟨y, s, rfl, hy, -, halike, hrest⟩ := Respaced.of_cons (x := []) h hempty
      have hlatin : isLatin d = (y ++ s).head?.any isLatin := halike (hc (List.cons_ne_nil d w))
      have hnil : y = [] := by
        cases y with
        | nil => rfl
        | cons e y =>
            have he : isSpace e = true := List.all_eq_true.mp hy.spaces e List.mem_cons_self
            rw [hw.1] at hlatin
            rw [not_isSpace_of_isLatin hlatin.symm] at he
            cases he
      have hadjoins : adjoins d = true := by simp [adjoins, hw.1]
      obtain ⟨x', r', rfl, hx', hok, hnext, hrest⟩ := ih hw.2 (fun _ => hadjoins) hrest
      exact ⟨x', r', by rw [hnil]; rfl, hx', hok, fun _ => hnext hadjoins, hrest⟩

theorem word {w y y' r' : Text} (hw : w.all isLatin = true) (hc : w ≠ [] → adjoins c = true)
    (hy : IsRun y r) (hy' : IsRun y' r') (hok : ok y y') (hnil : ok [] [])
    (halike : GoOnAlike c (y ++ r) (y' ++ r')) (h : Respaced ok r r') :
    Respaced ok (c :: (w ++ (y ++ r))) (c :: (w ++ (y' ++ r'))) := by
  induction w generalizing c with
  | nil =>
      have hcons : Respaced ok (c :: (y ++ r)) (c :: (y' ++ r')) := .cons hy hy' hok halike h
      exact hcons
  | cons d w ih =>
      rw [List.all_cons, Bool.and_eq_true] at hw
      have hd := not_isSpace_of_isLatin hw.1
      have hadjoins : adjoins d = true := by simp [adjoins, hw.1]
      have hrest := ih hw.2 (fun _ => hadjoins) fun _ => halike (hc (List.cons_ne_nil d w))
      have hcons : Respaced ok (c :: ([] ++ d :: (w ++ (y ++ r))))
          (c :: ([] ++ d :: (w ++ (y' ++ r')))) :=
        .cons ⟨rfl, hd⟩ ⟨rfl, hd⟩ hnil (fun _ => rfl) hrest
      exact hcons

end Respaced

def isOperator : Text → Bool
  | [] => false
  | a :: w => !isSpace a && !isLatin a && w.all isLatin && w.isEmpty == (a != '\\')

theorem isOperator_of_mem {op : Text} (h : op ∈ binaryOperators) : isOperator op = true := by
  have hall : ∀ op ∈ binaryOperators, isOperator op = true := by decide
  exact hall op h

theorem exists_of_isOperator {op : Text} (h : isOperator op = true) :
    ∃ a w, op = a :: w ∧ isSpace a = false ∧ isLatin a = false ∧ w.all isLatin = true ∧
      (w ≠ [] → adjoins a = true) := by
  cases op with
  | nil => cases h
  | cons a w =>
      simp only [isOperator, Bool.and_eq_true, Bool.not_eq_true', beq_iff_eq] at h
      obtain ⟨⟨⟨hspace, hlatin⟩, hw⟩, hempty⟩ := h
      refine ⟨a, w, rfl, hspace, hlatin, hw, fun hne => ?_⟩
      have ha : a = '\\' := by simpa [List.isEmpty_eq_false_iff.mpr hne] using hempty
      rw [ha]
      rfl

theorem isCut_cons_iff {a : Char} (ha : isLatin a = false) (w t : Text) :
    isCut (a :: w) t = true ↔ (adjoins a = true → t.head?.any isLatin = false) := by
  have hadjoins : adjoins a = (a == '\\') := by rw [adjoins, ha, Bool.or_false]
  rw [hadjoins]
  by_cases h : a = '\\' <;> simp [isCut, h]

structure Stands (op : Text) (c : Char) (x y r : Text) : Prop where
  ends : endsOperand c = true
  left : x.all isSpace = true
  right : y.all isSpace = true
  cut : isCut op (y ++ r) = true
  starts : r.head?.any startsOperand = true

def spaceOperator (op t : Text) : Text :=
  replaceAll (operatorRule op) t

section Operator

variable {op : Text} (hop : isOperator op = true) {ok : Text → Text → Prop} {c : Char}
  {x y r t t' : Text}

theorem isLocal_operatorRule (op : Text) : (operatorRule op).IsLocal := fun _ _ => rfl

theorem Stands.isRun (h : Stands op c x y r) : IsRun y r := by
  refine ⟨h.right, ?_⟩
  have hstarts := h.starts
  cases r with
  | nil => rfl
  | cons d r =>
      refine Bool.eq_false_iff.mpr fun hspace => ?_
      obtain rfl := eq_of_isSpace hspace
      cases hstarts

theorem spaceOperator_keep (h : operatorRule op [] (c :: t) = none) :
    spaceOperator op (c :: t) = c :: spaceOperator op t := by
  rw [spaceOperator, replaceAll, segments_keep (isLocal_operatorRule op) h]
  rfl

theorem spaceOperator_spaces (hx : x.all isSpace = true) (t : Text) :
    spaceOperator op (x ++ t) = x ++ spaceOperator op t := by
  induction x with
  | nil => rfl
  | cons d x ih =>
      rw [List.all_cons, Bool.and_eq_true] at hx
      obtain rfl := eq_of_isSpace hx.1
      rw [List.cons_append, spaceOperator_keep rfl, ih hx.2, List.cons_append]

theorem operatorRule_cases (op : Text) (c : Char) (t : Text) :
    operatorRule op [] (c :: t) = none ∨
      ∃ x y r, t = x ++ (op ++ (y ++ r)) ∧ Stands op c x y r := by
  cases hrule : operatorRule op [] (c :: t) with
  | none => exact .inl rfl
  | some p =>
      obtain ⟨s, r, ht, -, -, hhit⟩ := hitsOnly_operatorRule op [] (c :: t) p.1 p.2 hrule
      generalize p.2 = b at hhit
      cases hhit with
      | @intro x y _ d hends hx hy hcut hstarts =>
          obtain ⟨rfl, rfl⟩ := List.cons.inj ht
          exact .inr ⟨x, y, r, by simp, hends, hx, hy, hcut, hstarts⟩

include hop

theorem head_operator (t : Text) : (op ++ t).head?.any isSpace = false ∧
    (op ++ t).head?.any isLatin = false := by
  obtain ⟨a, w, rfl, hspace, hlatin, -, -⟩ := exists_of_isOperator hop
  exact ⟨hspace, hlatin⟩

theorem operatorRule_of_stands (h : Stands op c x y r) :
    operatorRule op [] (c :: (x ++ (op ++ (y ++ r)))) =
      some ((c :: (x ++ (op ++ y))).length, c :: " " ++ op ++ " ") := by
  have hleft : IsRun x (op ++ (y ++ r)) := ⟨h.left, (head_operator hop _).1⟩
  have hstart : op.isPrefixOf (op ++ (y ++ r)) = true :=
    List.isPrefixOf_iff_prefix.mpr (List.prefix_append op _)
  rw [operatorRule, hleft.dropWhile]
  simp only [List.drop_left, h.isRun.dropWhile, hstart, h.ends, h.cut, h.starts, Bool.and_self,
    if_true]
  congr 2
  simp
  omega

theorem spaceOperator_hit (h : Stands op c x y r) :
    spaceOperator op (c :: (x ++ (op ++ (y ++ r)))) =
      c :: ([' '] ++ (op ++ ([' '] ++ spaceOperator op r))) := by
  have hsource : c :: (x ++ (op ++ (y ++ r))) = c :: (x ++ (op ++ y)) ++ r := by simp
  have hrule := operatorRule_of_stands hop h
  rw [hsource] at hrule ⊢
  rw [spaceOperator, replaceAll, segments_hit (isLocal_operatorRule op) (by simp) hrule]
  simp [Segment.text, spaceOperator, replaceAll]

theorem spaceOperator_induct {motive : Text → Text → Prop} (nil : motive [] [])
    (keep : ∀ c x r, IsRun x r → operatorRule op [] (c :: (x ++ r)) = none →
      motive r (spaceOperator op r) → motive (c :: (x ++ r)) (c :: (x ++ spaceOperator op r)))
    (hit : ∀ c x y r, Stands op c x y r → motive r (spaceOperator op r) →
      motive (c :: (x ++ (op ++ (y ++ r)))) (c :: ([' '] ++ (op ++ ([' '] ++ spaceOperator op r)))))
    (t : Text) : motive t (spaceOperator op t) := by
  induction hn : t.length using Nat.strongRecOn generalizing t with
  | ind n ih =>
      cases t with
      | nil => exact nil
      | cons c t =>
          rcases operatorRule_cases op c t with hnone | ⟨x, y, r, rfl, hstands⟩
          · obtain ⟨x, r, rfl, hx⟩ := exists_isRun t
            rw [spaceOperator_keep hnone, spaceOperator_spaces hx.spaces]
            exact keep c x r hx hnone (ih r.length (by simp at hn; omega) r rfl)
          · rw [spaceOperator_hit hop hstands]
            exact hit c x y r hstands (ih r.length (by simp at hn; omega) r rfl)

theorem Stands.respaced (h : Stands op c x y r)
    (ht : Respaced ok (c :: (x ++ (op ++ (y ++ r)))) t') :
    ∃ x' y' r', t' = c :: (x' ++ (op ++ (y' ++ r'))) ∧ Stands op c x' y' r' ∧ ok x x' ∧ ok y y' ∧
      Respaced ok r r' := by
  have hleft : IsRun x (op ++ (y ++ r)) := ⟨h.left, (head_operator hop _).1⟩
  obtain ⟨x', s, rfl, hx', hok, -, hrest⟩ := ht.of_cons hleft
  obtain ⟨a, w, rfl, -, hlatin, hw, hadjoins⟩ := exists_of_isOperator hop
  obtain ⟨y', r', rfl, hy', hok', halike, hrest⟩ := hrest.of_word hw hadjoins h.isRun
  have hcut : isCut (a :: w) (y' ++ r') = true := (isCut_cons_iff hlatin w _).mpr fun ha =>
    (halike ha).symm.trans ((isCut_cons_iff hlatin w _).mp h.cut ha)
  have hstarts : r'.head?.any startsOperand = true := hrest.head ▸ h.starts
  exact ⟨x', y', r', rfl, ⟨h.ends, hx'.spaces, hy'.spaces, hcut, hstarts⟩, hok, hok', hrest⟩

theorem operatorRule_respaced (h : Respaced ok (c :: t) (c :: t'))
    (hnone : operatorRule op [] (c :: t) = none) : operatorRule op [] (c :: t') = none := by
  rcases operatorRule_cases op c t' with hnone' | ⟨x, y, r, rfl, hstands⟩
  · exact hnone'
  · obtain ⟨x', y', r', heq, hstands', -⟩ := hstands.respaced hop h.symm
    rw [heq, operatorRule_of_stands hop hstands'] at hnone
    cases hnone

theorem Stands.respaced_spaced {r' : Text} (h : Stands op c x y r) (hx : ok x [' '])
    (hy : ok y [' ']) (hnil : ok [] []) (hrest : Respaced ok r r') :
    Respaced ok (c :: (x ++ (op ++ (y ++ r)))) (c :: ([' '] ++ (op ++ ([' '] ++ r')))) := by
  have hright : IsRun [' '] r' := ⟨rfl, hrest.head ▸ h.isRun.ends⟩
  have hop' : Respaced ok (op ++ (y ++ r)) (op ++ ([' '] ++ r')) := by
    obtain ⟨a, w, rfl, -, hlatin, hw, hadjoins⟩ := exists_of_isOperator hop
    exact .word hw hadjoins h.isRun hright hy hnil ((isCut_cons_iff hlatin w _).mp h.cut) hrest
  have hhead := head_operator hop
  exact .cons ⟨h.left, (hhead _).1⟩ ⟨rfl, (hhead _).1⟩ hx
    (fun _ => head_spaces h.left (hhead _).2) hop'

theorem respaced_spaceOperator (t : Text) :
    Respaced (fun x x' => x' = x ∨ x' = [' ']) t (spaceOperator op t) := by
  refine spaceOperator_induct hop (motive := Respaced _) .nil ?_ ?_ t
  · intro c x r hx _ ih
    have hhead : (x ++ r).head? = (x ++ spaceOperator op r).head? := by
      rw [List.head?_append, List.head?_append, ih.head]
    have hends : (spaceOperator op r).head?.any isSpace = false := ih.head ▸ hx.ends
    exact .cons hx ⟨hx.spaces, hends⟩ (.inl rfl) (fun _ => by rw [hhead]) ih
  · intro c x y r h ih
    exact h.respaced_spaced hop (.inr rfl) (.inr rfl) (.inl rfl) ih

theorem spaceOperator_idem (t : Text) :
    spaceOperator op (spaceOperator op t) = spaceOperator op t := by
  refine spaceOperator_induct hop (motive := fun _ out => spaceOperator op out = out) rfl ?_ ?_ t
  · intro c x r hx hnone ih
    have hrespaced := respaced_spaceOperator hop (c :: (x ++ r))
    rw [spaceOperator_keep hnone, spaceOperator_spaces hx.spaces] at hrespaced
    rw [spaceOperator_keep (operatorRule_respaced hop hrespaced hnone),
      spaceOperator_spaces hx.spaces, ih]
  · intro c x y r h ih
    have hhead := (respaced_spaceOperator hop r).head
    obtain ⟨a, w, rfl, -, hlatin, -, -⟩ := exists_of_isOperator hop
    have hspaced : Stands (a :: w) c [' '] [' '] (spaceOperator (a :: w) r) :=
      ⟨h.ends, rfl, rfl, (isCut_cons_iff hlatin w _).mpr fun _ => rfl, hhead ▸ h.starts⟩
    rw [spaceOperator_hit hop hspaced, ih]

theorem spaceOperator_of_respaced (hok : ∀ x', ok [' '] x' → x' = [' '])
    (ht : spaceOperator op t = t) (h : Respaced ok t t') : spaceOperator op t' = t' := by
  refine spaceOperator_induct hop
    (motive := fun t out => out = t → ∀ t', Respaced ok t t' → spaceOperator op t' = t')
    ?_ ?_ ?_ t ht t' h
  · intro _ t' h
    cases h
    rfl
  · intro c x r hx hnone ih heq t' h
    have hr : spaceOperator op r = r := List.append_cancel_left (List.cons.inj heq).2
    obtain ⟨x', r', rfl, hx', -, -, hrest⟩ := h.of_cons hx
    rw [spaceOperator_keep (operatorRule_respaced hop h hnone), spaceOperator_spaces hx'.spaces,
      ih hr r' hrest]
  · intro c x y r hstands ih heq t' h
    have hhead := (respaced_spaceOperator hop r).head
    have hends := (head_operator hop · |>.1)
    obtain ⟨rfl, hbehind⟩ :=
      IsRun.unique ⟨rfl, hends _⟩ ⟨hstands.left, hends _⟩ (List.cons.inj heq).2
    obtain ⟨rfl, hr⟩ := IsRun.unique ⟨rfl, hhead ▸ hstands.isRun.ends⟩ hstands.isRun
      (List.append_cancel_left hbehind)
    obtain ⟨x', y', r', rfl, hstands', hx', hy', hrest⟩ := hstands.respaced hop h
    rw [spaceOperator_hit hop hstands', ih hr r' hrest, hok x' hx', hok y' hy']

end Operator

section Operators

variable {ops : List Text} (hops : ∀ op ∈ ops, isOperator op = true)

theorem foldl_spaceOperator_of_fixed {t : Text} (h : ∀ op ∈ ops, spaceOperator op t = t) :
    ops.foldl (fun t op => spaceOperator op t) t = t :=
  List.foldlRecOn (motive := (· = t)) ops _ rfl fun u hu op hop => by rw [hu, h op hop]

include hops

theorem spaceOperator_foldl_of_fixed {op : Text} (hop : isOperator op = true) {t : Text}
    (h : spaceOperator op t = t) :
    spaceOperator op (ops.foldl (fun t op => spaceOperator op t) t) =
      ops.foldl (fun t op => spaceOperator op t) t := by
  refine List.foldlRecOn (motive := fun u => spaceOperator op u = u) ops _ h fun u hu op' hop' => ?_
  exact spaceOperator_of_respaced hop (by simp) hu (respaced_spaceOperator (hops op' hop') u)

theorem spaceOperator_foldl {op : Text} (hop : op ∈ ops) (t : Text) :
    spaceOperator op (ops.foldl (fun t op => spaceOperator op t) t) =
      ops.foldl (fun t op => spaceOperator op t) t := by
  induction ops generalizing t with
  | nil => cases hop
  | cons op' ops ih =>
      rw [List.forall_mem_cons] at hops
      rcases List.mem_cons.mp hop with rfl | hop
      · exact spaceOperator_foldl_of_fixed hops.2 hops.1 (spaceOperator_idem hops.1 t)
      · exact ih hops.2 hop _

theorem filter_foldl_spaceOperator (t : Text) :
    (ops.foldl (fun t op => spaceOperator op t) t).filter (!isSpace ·) = t.filter (!isSpace ·) := by
  refine List.foldlRecOn (motive := fun u : Text => u.filter (!isSpace ·) = t.filter (!isSpace ·))
    ops _ rfl fun u hu op hop => ?_
  rw [← (respaced_spaceOperator (hops op hop) u).filter_eq, hu]

end Operators

end WorksheetTex.Tex.Polish

namespace WorksheetTex

open Text Tex Polish

theorem spaceOperators_stable (t : Text) :
    spaceOperators (spaceOperators t) = spaceOperators t ∧
    (∀ op ∈ binaryOperators, replaceAll (operatorRule op) (spaceOperators t) = spaceOperators t) ∧
    (spaceOperators t).filter (· != ' ') = t.filter (· != ' ') := by
  have hops : ∀ op ∈ binaryOperators, isOperator op = true := fun op => isOperator_of_mem
  have hfixed : ∀ op ∈ binaryOperators, spaceOperator op (spaceOperators t) = spaceOperators t :=
    fun op hop => spaceOperator_foldl hops hop t
  exact ⟨foldl_spaceOperator_of_fixed hfixed, hfixed, filter_foldl_spaceOperator hops t⟩

theorem spaceOperators_stable_commands :
    replaceAll (operatorRule "\\times") "a \\times \\times   b + \\leq - c".toList =
        "a \\times \\times   b + \\leq - c".toList ∧
      spaceOperators "a\\times\\times   b+\\leq-c".toList =
        "a \\times \\times   b + \\leq - c".toList := by
  have hspaced : spaceOperators "a\\times\\times   b+\\leq-c".toList =
      "a \\times \\times   b + \\leq - c".toList := by decide +kernel
  obtain ⟨-, hfixed, -⟩ := spaceOperators_stable "a\\times\\times   b+\\leq-c".toList
  rw [hspaced] at hfixed
  exact ⟨hfixed _ (by decide), hspaced⟩

end WorksheetTex
