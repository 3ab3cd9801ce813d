import WorksheetTex.Proofs.Nesting

namespace WorksheetTex.Text

structure Hit where
  before : Text
  taken : Text
  behind : Text
  written : Text
deriving DecidableEq, Repr

def Segment.source : Segment Hit → Text
  | .keep c => [c]
  | .hit h => h.taken

def Segment.target : Segment Hit → Text
  | .keep c => [c]
  | .hit h => h.written

namespace Rule

def located (rule : Rule Text) : Rule Hit := fun before t =>
  (rule before t).map fun p => (p.1, ⟨before, t.take p.1, t.drop p.1, p.2⟩)

def hits (rule : Rule Text) (t : Text) : List Hit :=
  rule.located.written t

theorem flatMap_target_located (rule : Rule Text) (t : Text) :
    (segments rule.located t).flatMap Segment.target = replaceAll rule t := by
  have hfrom (before : Text) (n : Nat) : (segmentsFrom rule.located before n t).flatMap
      Segment.target = (segmentsFrom rule before n t).flatMap Segment.text := by
    induction t generalizing before n with
    | nil => cases n <;> rfl
    | cons c t ih =>
        cases n with
        | succ n => exact ih (c :: before) n
        | zero =>
            rw [segmentsFrom, segmentsFrom, located]
            rcases rule before (c :: t) with _ | ⟨_ | n, b⟩
            · exact congrArg (c :: ·) (ih (c :: before) 0)
            · exact congrArg (c :: ·) (ih (c :: before) 0)
            · exact congrArg (b ++ ·) (ih (c :: before) n)
  exact hfrom [] 0

namespace HitsOnly

variable {rule : Rule Text} {P : Text → Text → Text → Text → Prop}

theorem located (h : rule.HitsOnly P) : rule.located.HitsOnly fun before s r hit =>
    hit.before = before ∧ hit.taken = s ∧ hit.behind = r ∧ P before s r hit.written := by
  intro before t n hit hlocated
  obtain ⟨⟨n, b⟩, hrule, heq⟩ := Option.map_eq_some_iff.mp hlocated
  obtain ⟨s, r, rfl, rfl, hs, hP⟩ := h before t n b hrule
  obtain ⟨rfl, rfl⟩ := Prod.mk.inj heq
  exact ⟨s, r, rfl, rfl, hs, rfl, List.take_left, List.drop_left, hP⟩

theorem flatMap_source_located (h : rule.HitsOnly P) (t : Text) :
    (segments rule.located t).flatMap Segment.source = t := by
  refine h.located.segments_induct (motive := fun _ t out => out.flatMap Segment.source = t)
    (fun _ => rfl) ?_ ?_ t
  · intro _ c _ _ _ ih
    exact congrArg (c :: ·) ih
  · rintro _ _ t hit out _ ⟨-, rfl, -, -⟩ ih
    exact congrArg (hit.taken ++ ·) ih

theorem of_mem_hits (h : rule.HitsOnly P) {t : Text} {hit : Hit} (hmem : hit ∈ rule.hits t) :
    t = hit.before.reverse ++ (hit.taken ++ hit.behind) ∧
      P hit.before hit.taken hit.behind hit.written := by
  refine h.located.segments_induct
    (motive := fun before t out => hit ∈ out.filterMap Segment.hit? →
      before.reverse ++ t = hit.before.reverse ++ (hit.taken ++ hit.behind) ∧
        P hit.before hit.taken hit.behind hit.written) ?_ ?_ ?_ t hmem
  · intro _ hmem
    cases hmem
  · intro before c t out _ ih hmem
    have hrest := ih hmem
    rwa [List.reverse_cons, List.append_assoc] at hrest
  · rintro before s t hit' out _ ⟨hbefore, htaken, hbehind, hP⟩ ih hmem
    rcases List.mem_cons.mp hmem with rfl | hmem
    · rw [hbefore, htaken, hbehind]
      exact ⟨rfl, hP⟩
    · have hrest := ih hmem
      rwa [List.reverse_append, List.reverse_reverse, List.append_assoc] at hrest

end HitsOnly

end Rule

end WorksheetTex.Text

namespace WorksheetTex.Tex.Polish

open Text

def goesOn : Text → Bool
  | '.' :: d :: _ => d.isDigit
  | c :: _ => isWord c
  | [] => false

section Exponent

variable {before base e r t u : Text} {c w : Char}

theorem isWord_of_isDigit (h : c.isDigit = true) : isWord c = true := by
  change (c.isAlpha || c.isDigit || c == '_') = true
  rw [h, Bool.or_true, Bool.true_or]

theorem IsExponent.word (h : IsExponent e r) : e ≠ [] ∧ e.all isWord = true := by
  cases h with
  | number hne hdigits _ =>
      exact ⟨hne, List.all_eq_true.mpr fun c hc =>
        isWord_of_isDigit (List.all_eq_true.mp hdigits c hc)⟩
  | letter hc _ => exact ⟨List.cons_ne_nil _ _, by simp [hc]⟩

theorem IsExponent.head (h : IsExponent e r) : r.head?.any isWord = false := by
  cases h with
  | number _ _ hr =>
      cases r with
      | nil => rfl
      | cons d r => exact (Bool.or_eq_false_iff.mp hr).1
  | letter _ hr => exact hr

theorem IsExponent.goesOn_iff (h : IsExponent e r) :
    goesOn r = true ↔ e.length = 1 ∧ ∃ d s, r = '.' :: d :: s ∧ d.isDigit = true := by
  constructor
  · intro hgoes
    have hhead := h.head
    obtain ⟨d, s, rfl, hd⟩ : ∃ d s, r = '.' :: d :: s ∧ d.isDigit = true := by
      unfold goesOn at hgoes
      split at hgoes
      · next d s => exact ⟨d, s, rfl, hgoes⟩
      · next c s _ =>
          have hc : isWord c = false := hhead
          rw [hc] at hgoes
          cases hgoes
      · cases hgoes
    cases h with
    | number _ _ hr => cases hr
    | letter _ _ => exact ⟨rfl, d, s, rfl, hd⟩
  · rintro ⟨-, d, s, rfl, hd⟩
    exact hd

theorem exponentOf_append (h : IsExponent e r) : exponentOf (e ++ r) = some e := by
  have hnext := h.head
  have hdigit : ∀ d ∈ r.head?, d.isDigit = false := by
    intro d hd
    rw [hd, Option.any_some] at hnext
    exact Bool.eq_false_iff.mpr fun h => Bool.eq_false_iff.mp hnext (isWord_of_isDigit h)
  unfold exponentOf
  cases h with
  | number hne hds hr =>
      have hempty : e.isEmpty = false := by simpa using hne
      rw [takeWhile_append_of_head (List.all_eq_true.mp hds) hdigit]
      simp only [List.drop_left, hempty, hr]
      rfl
  | @letter c _ hc _ =>
      by_cases hd : c.isDigit = true
      · have htake : ([c] ++ r).takeWhile Char.isDigit = [c] :=
          takeWhile_append_of_head (by simpa using hd) hdigit
        rw [htake]
        simp only [List.drop_left]
        split
        · rfl
        · simp [hc, hnext]
      · simp [hd, hc, hnext]

theorem isLocal_exponentRule : exponentRule.IsLocal := fun _ _ => rfl

theorem takeWhile_base {s : Text} (hbase : base.all isWord = true)
    (hs : s.head?.any isWord = false) : (base ++ s).takeWhile isWord = base := by
  refine takeWhile_append_of_head (List.all_eq_true.mp hbase) fun c hc => ?_
  rwa [hc] at hs

theorem exponentRule_append (hne : base ≠ []) (hbase : base.all isWord = true)
    (he : IsExponent e r) :
    exponentRule [] (base ++ '^' :: (e ++ r)) =
      some ((base ++ '^' :: e).length, base ++ sup e) := by
  rw [exponentRule, takeWhile_base hbase rfl, List.drop_left]
  cases base with
  | nil => exact absurd rfl hne
  | cons b base =>
      simp only [exponentOf_append he, Option.map_some, List.length_append, List.length_cons]
      rw [Nat.add_assoc _ 1, Nat.add_comm 1]

theorem exponentRule_of_ne {s : Text} (hbase : base.all isWord = true) (hc : isWord c = false)
    (hne : c ≠ '^') : exponentRule [] (base ++ c :: s) = none := by
  have hrun : (base ++ c :: s).takeWhile isWord = base := takeWhile_base hbase hc
  rw [exponentRule, hrun, List.drop_left]
  split
  · next heq => exact absurd (List.cons.inj heq).1 hne
  · rfl

theorem exponents_first (hu : '^' ∉ u) (hw : isWord w = true) (he : IsExponent e r) :
    exponents (u ++ w :: '^' :: (e ++ r)) = u ++ w :: (sup e ++ exponents r) := by
  have hrun {u : Text} (hall : u.all isWord = true) :
      exponents (u ++ w :: '^' :: (e ++ r)) = u ++ w :: (sup e ++ exponents r) := by
    have hne : u ++ [w] ≠ [] := by simp
    have hrule := exponentRule_append hne (by simp [hall, hw]) he
    have hsource : u ++ w :: '^' :: (e ++ r) = (u ++ [w] ++ '^' :: e) ++ r := by simp
    rw [hsource, exponents, replaceAll, segments_hit isLocal_exponentRule (by simp)
      (by simpa using hrule), List.flatMap_cons]
    simp [Segment.text, exponents, replaceAll]
  -- Word characters before the base are part of it. Otherwise the first run of them ends at
  -- something else than a caret, so the first character is kept.
  induction u with
  | nil => exact hrun rfl
  | cons x u ih =>
      by_cases hall : (x :: u).all isWord = true
      · exact hrun hall
      · obtain ⟨base, s, hsplit, -, -, hbase, hs⟩ := exists_run isWord (x :: u)
        cases s with
        | nil =>
            rw [List.append_nil] at hsplit
            exact absurd (hsplit ▸ hbase) hall
        | cons y s =>
            have hy : y ≠ '^' := fun h => hu (by rw [hsplit]; simp [h])
            have hnone : exponentRule [] (x :: (u ++ w :: '^' :: (e ++ r))) = none := by
              rw [← List.cons_append, hsplit, List.append_assoc]
              exact exponentRule_of_ne hbase hs hy
            have hrest := ih fun hmem => hu (List.mem_cons_of_mem x hmem)
            rw [List.cons_append, exponents, replaceAll,
              segments_keep isLocal_exponentRule hnone]
            exact congrArg (x :: ·) hrest

end Exponent

end WorksheetTex.Tex.Polish

namespace WorksheetTex

open Text Tex Polish

theorem exponents_whole (t : Text) :
    (segments exponentRule.located t).flatMap Segment.source = t ∧
    (segments exponentRule.located t).flatMap Segment.target = exponents t ∧
    (∀ h ∈ exponentRule.hits t, ∃ base e, base ≠ [] ∧ base.all isWord = true ∧ e ≠ [] ∧
      e.all isWord = true ∧ t = h.before.reverse ++ (base ++ '^' :: e ++ h.behind) ∧
      h.taken = base ++ '^' :: e ∧ h.written = base ++ sup e ∧ h.behind.head?.any isWord = false ∧
      (goesOn h.behind = true ↔
        e.length = 1 ∧ ∃ d r, h.behind = '.' :: d :: r ∧ d.isDigit = true)) ∧
    ∀ u w c d r, t = u ++ w :: '^' :: c :: '.' :: d :: r → '^' ∉ u → isWord w = true →
      isWord c = true → d.isDigit = true →
      exponents t = u ++ w :: (sup [c] ++ exponents ('.' :: d :: r)) := by
  refine ⟨hitsOnly_exponentRule.flatMap_source_located t, exponentRule.flatMap_target_located t,
    fun h hmem => ?_, ?_⟩
  · obtain ⟨ht, hhit⟩ := hitsOnly_exponentRule.of_mem_hits hmem
    obtain ⟨before, taken, behind, written⟩ := h
    cases hhit with
    | @intro base e _ hne hbase he =>
        exact ⟨base, e, hne, hbase, he.word.1, he.word.2, ht, rfl, rfl, he.head, he.goesOn_iff⟩
  · rintro u w c d r rfl hu hw hc -
    exact exponents_first hu hw (.letter hc rfl)

theorem exponents_whole_index :
    (∃ base e, "a_1^2.5".toList = base ++ '^' :: e ++ ".5".toList ∧ e.length = 1) ∧
      exponents "a_1^2.5".toList = "a_1^\x7b2\x7d.5".toList := by
  obtain ⟨-, -, hhits, hcut⟩ := exponents_whole "a_1^2.5".toList
  obtain ⟨base, e, -, -, -, -, ht, -, -, -, hgoes⟩ :=
    hhits ⟨[], "a_1^2", ".5", "a_1^\x7b2\x7d"⟩ (by decide +kernel)
  have hexponents := hcut "a_".toList '1' '2' '5' [] rfl (by decide) rfl rfl rfl
  exact ⟨⟨base, e, ht, (hgoes.mp rfl).1⟩, hexponents.trans (by decide +kernel)⟩

theorem exponents_whole_decimal :
    exponentRule.hits (spaceOperators (fractions "x^2.5".toList)) =
        [⟨[], "x^2", ".5", "x^\x7b2\x7d"⟩] ∧ goesOn ".5".toList = true ∧
      polish .absent "x^2.5".toList = .ok "x^\x7b2\x7d.5".toList := by
  decide +kernel

end WorksheetTex
