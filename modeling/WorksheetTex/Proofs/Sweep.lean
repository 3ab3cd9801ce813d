import WorksheetTex.Proofs.Sealed

namespace WorksheetTex.Evaluation

open Text Paren Vocabulary Form Tex

def sweep (rule : Rule Text) (pieces : List Text) (t : Text) : Text × List Text :=
  stow pieces (segments rule t)

section Sweep

variable {rule : Rule Text} (hrule : AtForms rule) {pieces : List Text} {s t p : Text}

@[simp] theorem sweep_nil : sweep rule pieces [] = ([], pieces) := rfl

include hrule

theorem sweep_keep {c : Char} (h : rule [] (c :: t) = none) :
    sweep rule pieces (c :: t) = (c :: (sweep rule pieces t).1, (sweep rule pieces t).2) := by
  rw [sweep, segments_keep hrule.isLocal h]
  rfl

theorem sweep_hit (hs : s ≠ []) (h : rule [] (s ++ t) = some (s.length, p)) :
    sweep rule pieces (s ++ t) =
      (reference pieces.length ++ (sweep rule (pieces ++ [p]) t).1,
        (sweep rule (pieces ++ [p]) t).2) := by
  rw [sweep, segments_hit hrule.isLocal hs h]
  rfl

theorem sweep_flat (hs : '(' ∉ s) :
    sweep rule pieces (s ++ t) = (s ++ (sweep rule pieces t).1, (sweep rule pieces t).2) := by
  induction s with
  | nil => rfl
  | cons c s ih =>
      have hc : c ≠ '(' := fun hc => hs (by simp [hc])
      rw [List.cons_append, sweep_keep hrule (hrule.opens _ hc), ih fun hmem => hs (by simp [hmem])]
      rfl

end Sweep

theorem dropTags_keep {c : Char} {t : Text} (h : bareTagRule [] (c :: t) = none) :
    dropTags (c :: t) = c :: dropTags t := by
  rw [dropTags, replaceAll, segments_keep atForms_bareTagRule.isLocal h]
  rfl

theorem dropTags_hit {s t : Text} (hs : s ≠ [])
    (h : bareTagRule [] (s ++ t) = some (s.length, [])) :
    dropTags (s ++ t) = dropTags t := by
  rw [dropTags, replaceAll, segments_hit atForms_bareTagRule.isLocal hs h]
  rfl

theorem dropTags_flat {s t : Text} (hs : '(' ∉ s) : dropTags (s ++ t) = s ++ dropTags t := by
  induction s with
  | nil => rfl
  | cons c s ih =>
      have hc : c ≠ '(' := fun hc => hs (by simp [hc])
      rw [List.cons_append, dropTags_keep (atForms_bareTagRule.opens _ hc),
        ih fun hmem => hs (by simp [hmem])]
      rfl

theorem dropTags_of_not_mem {t : Text} (h : '(' ∉ t) : dropTags t = t := by
  have hflat := dropTags_flat h (t := [])
  rwa [List.append_nil, show dropTags [] = [] from rfl, List.append_nil] at hflat

theorem not_isParen_of_mem_reference (n : Nat) : ∀ c ∈ reference n, isParen c = false := by
  intro c hc
  rcases paren_cases c with rfl | rfl | hp
  · exact absurd hc (not_mem_reference isBreak_paren.1 n)
  · exact absurd hc (not_mem_reference isBreak_paren.2 n)
  · exact hp

structure State.Valid (m : Char) (s : State) : Prop where
  ordered : Ordered m s.pieces
  text : Sealed m s.pieces.length s.text

section Valid

variable {m : Char} (hm : m = openMark ∨ m = closeMark) {rule : Rule Text} {pieces : List Text}
  {t : Text}

theorem Rewrites.induct_sealed {k : Nat} (hrule : Rewrites (Sealed m k) (Sealed m k) rule)
    {motive : Text → Prop} (nil : motive [])
    (keep : ∀ c t, c ≠ m → rule [] (c :: t) = none → Sealed m k t → motive t → motive (c :: t))
    (hit : ∀ s t p, s ≠ [] → rule [] (s ++ t) = some (s.length, p) → Sealed m k p →
      Sealed m k (s ++ t) → Sealed m k t → motive t → motive (s ++ t))
    (reference : ∀ n t, n < k → Sealed m k t → motive t → motive (reference n ++ t))
    (ht : Sealed m k t) : motive t := by
  induction hn : t.length using Nat.strongRecOn generalizing t with
  | ind n ih =>
      cases ht with
      | nil => exact nil
      | @keep c t hc ht =>
          cases hhit : rule [] (c :: t) with
          | none => exact keep c t hc hhit ht (ih t.length (by simp at hn; omega) ht rfl)
          | some answer =>
              have hwhole : Sealed m k (c :: t) := .keep hc ht
              obtain ⟨s, r, p, hsr, hanswer, hr, hp⟩ := hrule.exists_hit hwhole hhit
              have hshort : r.length < n := by
                have := congrArg List.length hsr
                simp at this hn
                omega
              rw [hsr] at hhit hwhole ⊢
              rw [hanswer] at hhit
              exact hit ('(' :: s) r p (by simp) hhit hp hwhole hr (ih r.length hshort hr rfl)
      | @reference l t hl ht =>
          have hshort : t.length < n := by
            simp [Evaluation.reference] at hn
            omega
          exact reference l t hl ht (ih t.length hshort ht rfl)

theorem sweep_valid {k : Nat} (hrule : Rewrites (Sealed m k) (Sealed m k) rule)
    (ht : Sealed m k t) (hp : Ordered m pieces) (hk : k ≤ pieces.length) :
    State.Valid m ⟨(sweep rule pieces t).1, (sweep rule pieces t).2⟩ ∧
      pieces.length ≤ (sweep rule pieces t).2.length := by
  revert pieces
  refine hrule.induct_sealed (motive := fun t => ∀ {pieces : List Text}, Ordered m pieces →
    k ≤ pieces.length → State.Valid m ⟨(sweep rule pieces t).1, (sweep rule pieces t).2⟩ ∧
      pieces.length ≤ (sweep rule pieces t).2.length) ?nil ?keep ?hit ?reference ht
  case nil =>
    intro pieces hp _
    exact ⟨⟨hp, .nil⟩, Nat.le_refl _⟩
  case keep =>
    intro c t hc hnone _ ih pieces hp hk
    obtain ⟨⟨hordered, htext⟩, hlen⟩ := ih hp hk
    rw [sweep_keep hrule.toAtForms hnone]
    exact ⟨⟨hordered, .keep hc htext⟩, hlen⟩
  case hit =>
    intro s t p hs hhit hpiece _ _ ih pieces hp hk
    have hlonger : k ≤ (pieces ++ [p]).length := by
      rw [List.length_append]
      omega
    obtain ⟨⟨hordered, htext⟩, hlen⟩ := ih (hp.concat (hpiece.mono hk)) hlonger
    rw [List.length_append, List.length_singleton] at hlen
    rw [sweep_hit hrule.toAtForms hs hhit]
    exact ⟨⟨hordered, .reference hlen htext⟩, Nat.le_of_succ_le hlen⟩
  case reference =>
    intro n t hn _ ih pieces hp hk
    have hparen : '(' ∉ reference n := not_mem_reference isBreak_paren.1 n
    obtain ⟨⟨hordered, htext⟩, hlen⟩ := ih hp hk
    rw [sweep_flat hrule.toAtForms hparen]
    exact ⟨⟨hordered, .reference (Nat.lt_of_lt_of_le hn (Nat.le_trans hk hlen)) htext⟩, hlen⟩

theorem State.Valid.apply {s : State} (hs : s.Valid m)
    (hrule : ∀ k, Rewrites (Sealed m k) (Sealed m k) rule) : (s.apply rule).Valid m :=
  (sweep_valid (hrule _) hs.text hs.ordered (Nat.le_refl _)).1

include hm

theorem State.Valid.round {lex : Lexicon} (hlex : Avoids lex m) {s : State} (hs : s.Valid m) :
    (s.round lex).Valid m := by
  have h := inherits_sealed hm hlex
  have hglyphs {k : Nat} (t : Text) : Sealed m k t → Sealed m k (replaceGlyphs t) :=
    .replaceGlyphs hm
  exact ((hs.apply fun k => rewrites_labelRule (h k) hglyphs).apply
    fun k => rewrites_applyRule (h k) hglyphs).apply fun k => rewrites_operatorRule (h k) hglyphs

theorem Sealed.balanceFrom {k : Nat} (h : Sealed m k t) (depth : Nat) :
    Sealed m k (balanceFrom depth t) := by
  induction h generalizing depth with
  | nil => exact .ascii hm (by simp [Paren.balanceFrom, isAscii])
  | @keep c t hc _ ih =>
      rcases paren_cases c with rfl | rfl | hp
      · exact .keep hc (ih (depth + 1))
      · cases depth with
        | zero => exact ih 0
        | succ depth => exact .keep hc (ih depth)
      · have hstep : Paren.balanceFrom depth (c :: t) = c :: Paren.balanceFrom depth t := by
          simp [Paren.balanceFrom, ne_of_not_paren hp]
        rw [hstep]
        exact .keep hc (ih depth)
  | @reference n t hn _ ih =>
      rw [balanceFrom_append (depthFrom_flat (not_isParen_of_mem_reference n) depth)]
      exact .reference hn (ih depth)

theorem Sealed.dropTags {k : Nat} (h : Sealed m k t) : Sealed m k (dropTags t) := by
  refine (rewrites_bareTagRule_sealed hm k).induct_sealed
    (motive := fun t => Sealed m k (Evaluation.dropTags t)) ?nil ?keep ?hit ?reference h
  case nil => exact .nil
  case keep =>
    intro c t hc hnone _ ih
    rw [dropTags_keep hnone]
    exact .keep hc ih
  case hit =>
    intro s t p hs hhit _ _ _ ih
    obtain ⟨_, hscan, -⟩ := Scan.eq_of_rule hhit
    obtain ⟨_, _, _, _, _, rfl⟩ := eq_of_bareTagScan hscan
    rw [dropTags_hit hs hhit]
    exact ih
  case reference =>
    intro n t hn _ ih
    rw [dropTags_flat (not_mem_reference isBreak_paren.1 n)]
    exact .reference hn ih

end Valid

def collapsed (lex : Lexicon) (e : Text) : State :=
  let s := State.settle lex ⟨balance e, []⟩
  State.settle lex { s with text := balance (dropTags s.text) }

theorem collapse_eq_collapsed (lex : Lexicon) (e : Text) :
    collapse lex e =
      (expandAll (collapsed lex e).pieces (collapsed lex e).text).map collapseBlanks := rfl

theorem settleWithin_induct {lex : Lexicon} {S : State → Prop}
    (round : ∀ s, S s → S (s.round lex)) {s : State} (hs : S s) (n : Nat) :
    S (s.settleWithin lex n) := by
  induction n generalizing s with
  | zero => exact hs
  | succ n ih =>
      rw [State.settleWithin]
      split
      · exact hs
      · exact ih (round s hs)

theorem collapsed_induct {lex : Lexicon} {e : Text} {S : State → Prop} (start : S ⟨balance e, []⟩)
    (round : ∀ s, S s → S (s.round lex))
    (again : ∀ s, S s → S { s with text := balance (dropTags s.text) }) : S (collapsed lex e) :=
  settleWithin_induct round (again _ (settleWithin_induct round start _)) _

section Collapse

variable {m : Char} (hm : m = openMark ∨ m = closeMark) {lex : Lexicon} (hlex : Avoids lex m)
  {e : Text}

include hm hlex

theorem valid_collapsed (he : m ∉ e) : (collapsed lex e).Valid m := by
  refine collapsed_induct ?_ (fun s hs => hs.round hm hlex) fun s hs => ?_
  · exact ⟨ordered_nil, (Sealed.of_not_mem he).balanceFrom hm 0⟩
  · exact ⟨hs.ordered, (hs.text.dropTags hm).balanceFrom hm 0⟩

theorem collapse_eq_fill (he : m ∉ e) :
    collapse lex e =
      .ok (collapseBlanks (fill (values (collapsed lex e).pieces) (collapsed lex e).text)) := by
  have hvalid := valid_collapsed hm hlex he
  have hexpand := expandAll_eq_fill hm hvalid.ordered hvalid.text
  rw [collapse_eq_collapsed, hexpand]
  rfl

end Collapse

end WorksheetTex.Evaluation
