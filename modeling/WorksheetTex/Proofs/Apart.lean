import Mathlib.Data.List.Infix
import WorksheetTex.Proofs.Tally

namespace WorksheetTex

open Text Paren Vocabulary Form Evaluation

namespace Paren

variable {s t : Text}

theorem exists_close {d e : Nat} (h : depthFrom (d + 1) t = some e) (hle : e ≤ d) :
    ∃ u v, t = u ++ ')' :: v ∧ Balanced u ∧ depthFrom d v = some e := by
  induction hn : t.length using Nat.strongRecOn generalizing d t with
  | ind n ih =>
      cases t with
      | nil =>
          obtain rfl := Option.some.inj h
          omega
      | cons c t =>
          have hshort : t.length < n := by
            rw [List.length_cons] at hn
            omega
          rcases paren_cases c with rfl | rfl | hc
          · rw [depthFrom_open] at h
            obtain ⟨u, v, rfl, hu, hv⟩ := ih _ hshort h (by omega) rfl
            obtain ⟨w, x, rfl, hw, hx⟩ := ih v.length (by simp at hshort; omega) hv hle rfl
            exact ⟨'(' :: (u ++ [')']) ++ w, x, by simp, hu.enclose.append hw, hx⟩
          · exact ⟨[], t, rfl, rfl, by simpa using h⟩
          · rw [depthFrom_other hc] at h
            obtain ⟨u, v, rfl, hu, hv⟩ := ih _ hshort h hle rfl
            exact ⟨c :: u, v, rfl, (depthFrom_other hc 0 u).trans hu, hv⟩

namespace Balanced

theorem exists_close (h : Balanced ('(' :: t)) :
    ∃ u v, t = u ++ ')' :: v ∧ Balanced u ∧ Balanced v :=
  Paren.exists_close ((depthFrom_open 0 t).symm.trans h) (Nat.le_refl 0)

theorem of_append (hs : Balanced s) (h : Balanced (s ++ t)) : Balanced t := by
  rw [Balanced, depthFrom_append, hs] at h
  exact h

theorem append_iff_left (ht : Balanced t) : Balanced (s ++ t) ↔ Balanced s := by
  constructor
  · intro h
    rw [Balanced, depthFrom_append, Option.bind_eq_some_iff] at h
    obtain ⟨d, hs, hd⟩ := h
    rw [ht.depthFrom d] at hd
    rw [Balanced, hs, hd]
  · exact fun h => h.append ht

theorem tail {c : Char} (hc : isParen c = false) (h : Balanced (c :: t)) : Balanced t :=
  (depthFrom_other hc 0 t).symm.trans h

theorem of_level {u v : Text} (h : Balanced (u ++ (s ++ v))) (hu : level u = 0)
    (hend : level s = 0 ∨ v = []) : Balanced s := by
  have closed {x y : Text} (hxy : Balanced (x ++ y)) (hx : level x = 0) : Balanced x := by
    rw [Balanced, depthFrom_append, Option.bind_eq_some_iff] at hxy
    obtain ⟨d, hd, -⟩ := hxy
    have := level_eq hd
    obtain rfl : d = 0 := by omega
    exact hd
  have hrest : Balanced (s ++ v) := (closed h hu).of_append h
  rcases hend with hs | rfl
  · exact closed hrest hs
  · rwa [List.append_nil] at hrest

theorem of_blanks {b b' : Text} (hb : allBlank b = true) (hb' : allBlank b' = true)
    (h : Balanced (b ++ (t ++ b'))) : Balanced t :=
  (append_iff_left (balanced_flat (not_isParen_of_allBlank hb'))).mp
    ((balanced_flat (not_isParen_of_allBlank hb)).of_append h)

theorem trim (h : Balanced t) : Balanced (trim t) := by
  obtain ⟨b, b', hb, hb', ht⟩ := exists_trim t
  rw [ht] at h
  exact of_blanks hb hb' h

theorem mem_split {cut : Cut} {p : Text} (h : Balanced t) (hp : p ∈ split cut t) :
    Balanced p ∧ p <:+: t := by
  obtain ⟨q, u, v, hq, -, heq, hu, hend⟩ := exists_release_of_mem_splitFrom hp
    (by intro u c v huv; simp at huv) rfl
  obtain ⟨b, b', hb, hb', hp, -⟩ := mem_release hq
  rw [List.reverse_nil, List.nil_append] at heq
  rw [heq] at h
  have hstretch := h.of_level hu hend
  rw [hp] at hstretch heq
  exact ⟨of_blanks hb hb' hstretch, u ++ b, b' ++ v, by rw [heq]; simp⟩

end Balanced

end Paren

def opensForm : Text → Bool
  | '(' :: c :: _ => (glyph c).head?.any isHead
  | _ => false

theorem opensForm_of_isHead {c : Char} (hc : isHead c = true) (r : Text) :
    opensForm ('(' :: c :: r) = true := by
  have hglyph : glyph c = [c] := by
    refine glyph_ascii ?_
    have hmem : c ∈ "+-*/^=@".toList := by simpa [isHead] using hc
    have hall : "+-*/^=@".toList.all isAscii = true := rfl
    exact List.all_eq_true.mp hall c hmem
  rw [opensForm, hglyph]
  exact hc

structure Apart (t : Text) : Prop where
  followed {w : Text} {d : Char} : opensForm ('(' :: w) = true → Balanced w →
    '(' :: (w ++ [')', d]) <:+: t → isGap d = true ∨ d = ')'
  sides {w p q : Text} {ps : List Text} : Balanced w → '(' :: '=' :: (w ++ [')']) <:+: t →
    split .atGaps w = p :: q :: ps → opensForm q = true → ps = []

def SetApart (t : Text) : Prop :=
  opensForm t = true → Apart t ∧ ∃ w, Balanced w ∧ t = '(' :: (w ++ [')'])

structure Parted (t : Text) : Prop where
  setApart : SetApart t
  balanced : Balanced t
  trimmed : trim t = t

section Decidable

def enclosed? : Text → Option Text
  | '(' :: r => if r.getLast? = some ')' then some r.dropLast else none
  | _ => none

theorem enclosed?_eq_some_iff {s w : Text} : enclosed? s = some w ↔ s = '(' :: (w ++ [')']) := by
  constructor
  · intro h
    unfold enclosed? at h
    split at h
    · next r =>
        split at h
        · next hlast =>
            obtain ⟨v, rfl⟩ := List.getLast?_eq_some_iff.mp hlast
            rw [List.dropLast_concat] at h
            rw [Option.some.inj h]
        · cases h
    · cases h
  · rintro rfl
    simp [enclosed?]

def Apart.At (s : Text) : Prop :=
  (∀ w ∈ enclosed? s.dropLast, opensForm ('(' :: w) = true → Balanced w →
      s.getLast?.all (fun d => isGap d || d == ')') = true) ∧
    ∀ w ∈ enclosed? s, ∀ v ∈ dropPrefix? ['='] w, Balanced v → ∀ q ∈ (split .atGaps v)[1]?,
      opensForm q = true → (split .atGaps v).drop 2 = []

instance (s : Text) : Decidable (Apart.At s) :=
  inferInstanceAs (Decidable (_ ∧ _))

theorem apart_iff (t : Text) : Apart t ↔ ∀ u ∈ t.tails, ∀ s ∈ u.inits, Apart.At s := by
  constructor
  · intro h u hu s hs
    have hinfix : s <:+: t :=
      List.infix_iff_prefix_suffix.mpr ⟨u, (List.mem_inits s u).mp hs, (List.mem_tails u t).mp hu⟩
    refine ⟨fun w hw hopens hbalanced => ?_, fun w hw v hv hbalanced q hq hopens => ?_⟩
    · cases hlast : s.getLast? with
      | none => rfl
      | some d =>
          obtain ⟨r, rfl⟩ := List.getLast?_eq_some_iff.mp hlast
          rw [List.dropLast_concat] at hw
          rw [enclosed?_eq_some_iff.mp hw] at hinfix
          simpa using h.followed hopens hbalanced (by simpa using hinfix)
    · obtain rfl := eq_of_dropPrefix? hv
      rw [enclosed?_eq_some_iff.mp hw] at hinfix
      obtain ⟨p, ps, hsplit⟩ : ∃ p ps, split .atGaps v = p :: q :: ps := by
        match hparts : split .atGaps v with
        | [] => simp [hparts] at hq
        | [_] => simp [hparts] at hq
        | p :: x :: ps => exact ⟨p, ps, by simpa [hparts] using hq⟩
      rw [hsplit]
      exact h.sides hbalanced hinfix hsplit hopens
  · intro h
    have hat {s : Text} (hs : s <:+: t) : Apart.At s := by
      obtain ⟨u, hsu, hut⟩ := List.infix_iff_prefix_suffix.mp hs
      exact h u ((List.mem_tails u t).mpr hut) s ((List.mem_inits s u).mpr hsu)
    constructor
    · intro w d hopens hw hinfix
      have hshape : '(' :: (w ++ [')', d]) = '(' :: (w ++ [')']) ++ [d] := by simp
      have hfollowed := (hat (hshape ▸ hinfix)).1
      rw [List.dropLast_concat, List.getLast?_concat] at hfollowed
      simpa using hfollowed w (enclosed?_eq_some_iff.mpr rfl) hopens hw
    · intro w p q ps hw hinfix hsplit hopens
      have hdrop := (hat hinfix).2 ('=' :: w) (enclosed?_eq_some_iff.mpr rfl) w rfl hw q
        (by rw [hsplit]; rfl) hopens
      rw [hsplit] at hdrop
      exact hdrop

instance (t : Text) : Decidable (Apart t) :=
  decidable_of_iff _ (apart_iff t).symm

instance (t : Text) : Decidable (SetApart t) :=
  decidable_of_iff (opensForm t = true → Apart t ∧ ∃ w ∈ enclosed? t, Balanced w) <| by
    simp only [SetApart, Option.mem_def, enclosed?_eq_some_iff, and_comm]

end Decidable

theorem Apart.within {s t : Text} (h : Apart t) (hs : s <:+: t) : Apart s where
  followed hopens hw hinfix := h.followed hopens hw (List.IsInfix.trans hinfix hs)
  sides hw hinfix := h.sides hw (List.IsInfix.trans hinfix hs)

theorem Apart.part {t p : Text} {cut : Cut} (h : Apart t) (ht : Balanced t)
    (hp : p ∈ split cut t) : Parted p := by
  obtain ⟨hbalanced, hinfix⟩ := ht.mem_split hp
  obtain ⟨htrim, hfree, -⟩ := Form.mem_split hp
  refine ⟨fun hopens => ⟨h.within hinfix, ?_⟩, hbalanced, htrim⟩
  obtain ⟨r, rfl⟩ : ∃ r, p = '(' :: r := by
    unfold opensForm at hopens
    split at hopens
    · exact ⟨_, rfl⟩
    · cases hopens
  obtain ⟨w, rest, rfl, hw, hrest⟩ := hbalanced.exists_close
  cases rest with
  | nil => exact ⟨w, hw, rfl⟩
  | cons d rest =>
      have hform : '(' :: (w ++ [')', d]) <:+: '(' :: (w ++ ')' :: d :: rest) :=
        ⟨[], rest, by simp⟩
      have hopens' : opensForm ('(' :: w) = true := by
        cases w with
        | nil =>
            have hclose : (glyph ')').head?.any isHead = true := hopens
            revert hclose
            decide
        | cons c w => exact hopens
      rcases h.followed hopens' hw (List.IsInfix.trans hform hinfix) with hgap | rfl
      · have hlevel : level ('(' :: (w ++ [')'])) = 0 := by
          simpa using level_eq hw.enclose
        exact absurd hlevel (hfree ('(' :: (w ++ [')'])) d rest (by simp) hgap)
      · rw [Paren.Balanced, depthFrom_close_zero] at hrest
        cases hrest

theorem opensForm_of_append {s t : Text} (hs : Balanced s)
    (hne : ∃ c r, s = c :: r ∧ isBlank c = false) (h : opensForm (s ++ t) = true) :
    opensForm s = true := by
  obtain ⟨c, r, rfl, -⟩ := hne
  cases r with
  | nil =>
      have hc : c ≠ '(' := by
        rintro rfl
        cases hs
      unfold opensForm at h
      split at h
      · next heq => exact absurd (List.cons.inj heq).1 hc
      · cases h
  | cons d r =>
      unfold opensForm at h ⊢
      split at h
      · next heq =>
          obtain ⟨rfl, hrest⟩ := List.cons.inj heq
          obtain ⟨rfl, -⟩ := List.cons.inj hrest
          exact h
      · cases h

theorem not_isParen_of_isHead {c : Char} (hc : isHead c = true) : isParen c = false := by
  rcases paren_cases c with rfl | rfl | hparen
  · cases hc
  · cases hc
  · exact hparen

namespace Parted

variable {c : Char} {r : Text}

theorem exists_body (h : Parted ('(' :: c :: r)) (hc : isHead c = true) :
    ∃ w, Balanced w ∧ r = w ++ [')'] ∧ Apart w := by
  obtain ⟨hapart, u, hu, heq⟩ := h.setApart (opensForm_of_isHead hc r)
  obtain ⟨w, rfl, rfl⟩ : ∃ w, u = c :: w ∧ r = w ++ [')'] := by
    cases u with
    | nil =>
        obtain rfl : c = ')' := (List.cons.inj (List.cons.inj heq).2).1
        cases hc
    | cons d w =>
        obtain ⟨rfl, rfl⟩ := List.cons.inj (List.cons.inj heq).2
        exact ⟨w, rfl, rfl⟩
  refine ⟨w, hu.tail (not_isParen_of_isHead hc), rfl, hapart.within ?_⟩
  exact ⟨['(', c], [')'], by simp⟩

theorem operands {op : Operator} (h : Parted ('(' :: op.symbol :: r)) :
    ∀ p ∈ operands ('(' :: op.symbol :: r), Parted p := by
  obtain ⟨w, hw, rfl, hapart⟩ := h.exists_body (isHead_symbol op)
  rw [operands_enclose]
  exact fun p hp => hapart.part hw hp

theorem arguments (h : Parted ('(' :: '@' :: r)) :
    ∀ p ∈ arguments ('(' :: '@' :: r), Parted p := by
  obtain ⟨w, hw, rfl, hapart⟩ := h.exists_body (by decide)
  rw [arguments_form]
  generalize hskip : (fun c => !isGap c && c != '(') = skip
  have hflat : Balanced (w.takeWhile skip) := by
    obtain ⟨hstart, -⟩ := depthFrom_eq_some_iff.mp hw
    have hcount := hstart _ (List.takeWhile_prefix skip)
    have hopen : '(' ∉ w.takeWhile skip := fun hmem => by
      have := List.all_eq_true.mp (List.all_takeWhile (p := skip) (l := w)) '(' hmem
      rw [← hskip] at this
      simp at this
    rw [List.count_eq_zero.mpr hopen] at hcount
    have hclose : ')' ∉ w.takeWhile skip := List.count_eq_zero.mp (by omega)
    refine balanced_flat fun c hc => ?_
    rcases paren_cases c with rfl | rfl | hparen
    · exact absurd hc hopen
    · exact absurd hc hclose
    · exact hparen
  have hrest : Balanced (w.dropWhile skip) := by
    rw [← List.takeWhile_append_dropWhile (p := skip) (l := w)] at hw
    exact hflat.of_append hw
  have hdrop : Apart (w.dropWhile skip) :=
    hapart.within (List.dropWhile_suffix skip).isInfix
  rw [List.dropWhile_append]
  split
  · have hend : [')'].dropWhile skip = [] := by
      rw [← hskip]
      rfl
    rw [hend]
    intro p hp
    cases hp
  · rw [dropClosing_concat]
    exact fun p hp => hdrop.part hrest hp

theorem readEquality (h : Parted ('(' :: '=' :: r)) :
    (readEquality ('(' :: '=' :: r)).All Parted Balanced := by
  have hsides := (h.setApart (opensForm_of_isHead (by decide) r)).1
  obtain ⟨w, hw, rfl, hapart⟩ := h.exists_body (by decide)
  unfold Form.readEquality
  rw [dropClosing_form (by decide), dropClosing_concat]
  simp only [List.drop_succ_cons, List.drop_zero]
  split
  · next a b ps hsplit =>
      obtain ⟨q, hq, hrest, -⟩ := exists_rest_of_split (head_trim_not_blank w) hsplit
      rw [split_trim] at hsplit
      have ha : a ∈ split .atGaps w := by simp [hsplit]
      have hb : b ∈ split .atGaps w := by simp [hsplit]
      rw [hq, List.drop_left]
      have hbalanced : Balanced q := (hw.mem_split ha).1.of_append (hq ▸ hw.trim)
      have hside : q <:+: w := List.IsInfix.trans ⟨a, [], by simp [hq]⟩ (trim_isInfix w)
      have hinfix : trim q <:+: w := List.IsInfix.trans (trim_isInfix q) hside
      refine ⟨hapart.part hw ha, fun hopens => ⟨hapart.within hinfix, ?_⟩, hbalanced.trim,
        trim_trim q⟩
      have hsplit' : split .atGaps (trim q) = b :: ps := (split_trim _ q).trans hrest
      obtain ⟨q', hq', hrest', -⟩ := exists_rest_of_split (head_trim_not_blank q) hsplit'
      rw [hq'] at hopens
      replace hopens : opensForm b = true :=
        opensForm_of_append (hw.mem_split hb).1 (Form.mem_split hb).2.2 hopens
      obtain rfl := hsides.sides hw (List.infix_refl _) hsplit hopens
      have hblank := (allBlank_of_splitFrom_eq_nil hrest').2
      obtain rfl : q' = [] := by
        rcases List.eq_nil_or_concat q' with hnil | ⟨y, x, rfl⟩
        · exact hnil
        · have hlast := last_trim_not_blank q x (by rw [hq']; simp)
          simp [allBlank, hlast] at hblank
      rw [hq', List.append_nil]
      exact ((hapart.part hw hb).setApart hopens).2
  · exact h.balanced

end Parted

section Glyph

theorem glyph_of_not_isAtomic {c : Char} (h : isAtomic c = false) : glyph c = [c] := by
  rcases glyph_cases c with hc | hc
  · exact hc
  · have hall : ∀ p ∈ glyphs, isAtomic p.1 = true := by decide
    have := hall _ hc
    rw [h] at this
    cases this

theorem replaceGlyphs_blank {b : Text} (hb : allBlank b = true) : replaceGlyphs b = b :=
  replaceGlyphs_of_stable fun c hc =>
    glyph_of_not_isAtomic (not_isAtomic_of_isBlank (List.all_eq_true.mp hb c hc))

theorem not_isBlank_of_mem_glyph {c x : Char} (hc : isBlank c = false) (hx : x ∈ glyph c) :
    isBlank x = false := by
  by_cases hatomic : isAtomic c = true
  · have := isAtomic_of_mem_glyph hatomic hx
    rw [isAtomic, Bool.and_eq_true, Bool.not_eq_true', Bool.not_eq_true'] at this
    exact this.2
  · rw [glyph_of_not_isAtomic (by simpa using hatomic)] at hx
    rw [List.mem_singleton.mp hx]
    exact hc

theorem trim_replaceGlyphs (t : Text) : trim (replaceGlyphs t) = replaceGlyphs (trim t) := by
  obtain ⟨b, b', hb, hb', ht⟩ := exists_trim t
  have hcore : trim (replaceGlyphs (trim t)) = replaceGlyphs (trim t) := by
    have hhead := head_trim_not_blank t
    have hlast := last_trim_not_blank t
    refine trim_of_ends (fun c hc => ?_) fun c hc => ?_
    · cases htrim : trim t with
      | nil =>
          rw [htrim] at hc
          cases hc
      | cons d r =>
          rw [htrim] at hhead hc
          rw [replaceGlyphs_cons, List.head?_append_of_ne_nil _ (glyph_ne_nil d)] at hc
          exact not_isBlank_of_mem_glyph (hhead d rfl) (List.mem_of_mem_head? hc)
    · rcases List.eq_nil_or_concat (trim t) with htrim | ⟨r, d, htrim⟩
      · rw [htrim] at hc
        cases hc
      · rw [htrim, List.concat_eq_append] at hlast hc
        have hd : replaceGlyphs [d] = glyph d := by simp
        rw [replaceGlyphs_append, hd, List.getLast?_append_of_ne_nil _ (glyph_ne_nil d)] at hc
        exact not_isBlank_of_mem_glyph (hlast d (by simp)) (List.mem_of_mem_getLast? hc)
  calc trim (replaceGlyphs t)
      = trim (b ++ (replaceGlyphs (trim t) ++ b')) := by
        conv_lhs => rw [ht]
        rw [replaceGlyphs_append, replaceGlyphs_append, replaceGlyphs_blank hb,
          replaceGlyphs_blank hb']
    _ = replaceGlyphs (trim t) := by
        rw [trim_blank_append hb, trim_append_blank hb', hcore]

theorem allBlank_replaceGlyphs (t : Text) : allBlank (replaceGlyphs t) = allBlank t := by
  cases ht : allBlank t with
  | true => rw [replaceGlyphs_blank ht, ht]
  | false =>
      obtain ⟨c, hc, hblank⟩ := List.all_eq_false.mp ht
      obtain ⟨x, hx⟩ := List.exists_mem_of_ne_nil _ (glyph_ne_nil c)
      refine List.all_eq_false.mpr ⟨x, List.mem_flatMap.mpr ⟨c, hc, hx⟩, ?_⟩
      rw [not_isBlank_of_mem_glyph (by simpa using hblank) hx]
      decide

theorem weight_of_isAtomic {c : Char} (h : isAtomic c = true) : weight c = 0 := by
  simp [weight, ne_of_not_paren (not_isParen_of_isAtomic h)]

theorem splitFrom_atomic {cut : Cut} {depth : Int} {s : Text} (hs : ∀ c ∈ s, isAtomic c = true)
    (held t : Text) :
    splitFrom cut depth held (s ++ t) = splitFrom cut depth (s.reverse ++ held) t := by
  induction s generalizing held with
  | nil => rfl
  | cons c s ih =>
      have hc := hs c (by simp)
      have hcuts : ¬ Cuts cut depth c := fun h => by
        rw [not_isAtomic_of_cuts h] at hc
        cases hc
      rw [List.cons_append, splitFrom_cons, if_neg hcuts, weight_of_isAtomic hc, Int.add_zero,
        ih fun x hx => hs x (by simp [hx])]
      simp

theorem release_replaceGlyphs (held : Text) :
    release (replaceGlyphs held.reverse).reverse = (release held).map replaceGlyphs := by
  have hblank : allBlank (replaceGlyphs held.reverse).reverse = allBlank held := by
    rw [allBlank, List.all_reverse, ← allBlank, allBlank_replaceGlyphs, allBlank, List.all_reverse,
      ← allBlank]
  rw [release, release, hblank, List.reverse_reverse, trim_replaceGlyphs]
  split <;> rfl

theorem splitFrom_replaceGlyphs (cut : Cut) (depth : Int) (held t : Text) :
    splitFrom cut depth (replaceGlyphs held.reverse).reverse (replaceGlyphs t) =
      (splitFrom cut depth held t).map replaceGlyphs := by
  induction t generalizing depth held with
  | nil => exact release_replaceGlyphs held
  | cons c t ih =>
      have hlonger (c : Char) : (replaceGlyphs (c :: held).reverse).reverse =
          (glyph c).reverse ++ (replaceGlyphs held.reverse).reverse := by simp
      cases hc : isAtomic c with
      | true =>
          have hcuts : ¬ Cuts cut depth c := fun h => by
            rw [not_isAtomic_of_cuts h] at hc
            cases hc
          rw [replaceGlyphs_cons, splitFrom_atomic fun x hx => isAtomic_of_mem_glyph hc hx,
            splitFrom_cons, if_neg hcuts, weight_of_isAtomic hc, Int.add_zero, ← ih, hlonger]
      | false =>
          have hglyph := glyph_of_not_isAtomic hc
          rw [replaceGlyphs_cons, hglyph, List.singleton_append, splitFrom_cons, splitFrom_cons]
          split
          · have hstart : (replaceGlyphs (start c).reverse).reverse = start c := by
              rw [start]
              split
              · simp [hglyph]
              · rfl
            rw [List.map_append, ← ih, hstart, release_replaceGlyphs]
          · rw [← ih, hlonger, hglyph]
            rfl

theorem split_replaceGlyphs (cut : Cut) (t : Text) :
    split cut (replaceGlyphs t) = (split cut t).map replaceGlyphs :=
  splitFrom_replaceGlyphs cut 0 [] t

theorem depthFrom_replaceGlyphs (d : Nat) (t : Text) :
    depthFrom d (replaceGlyphs t) = depthFrom d t := by
  induction t generalizing d with
  | nil => rfl
  | cons c t ih =>
      cases hc : isAtomic c with
      | true =>
          have hflat : ∀ x ∈ glyph c, isParen x = false := fun x hx =>
            not_isParen_of_isAtomic (isAtomic_of_mem_glyph hc hx)
          rw [replaceGlyphs_cons, depthFrom_append, depthFrom_flat hflat, Option.bind_some, ih,
            depthFrom_other (not_isParen_of_isAtomic hc)]
      | false =>
          rw [replaceGlyphs_cons, glyph_of_not_isAtomic hc, List.singleton_append]
          exact tallies_depthFrom.cons_congr ih c d

theorem exists_of_replaceGlyphs_eq {c : Char} (hc : isAtomic c = false) {t u v : Text}
    (h : replaceGlyphs t = u ++ c :: v) :
    ∃ x y, t = x ++ c :: y ∧ u = replaceGlyphs x ∧ v = replaceGlyphs y := by
  induction t generalizing u with
  | nil => simp at h
  | cons d t ih =>
      have later {u' : Text} (hu : u = glyph d ++ u') (h : replaceGlyphs t = u' ++ c :: v) :
          ∃ x y, d :: t = x ++ c :: y ∧ u = replaceGlyphs x ∧ v = replaceGlyphs y := by
        obtain ⟨x, y, rfl, rfl, rfl⟩ := ih h
        exact ⟨d :: x, y, rfl, by rw [hu, replaceGlyphs_cons], rfl⟩
      rw [replaceGlyphs_cons] at h
      rcases List.append_eq_append_iff.mp h with ⟨u', hu, h⟩ | ⟨g, hg, h⟩
      · exact later hu h
      · cases g with
        | nil => exact @later [] (by simpa using hg.symm) h.symm
        | cons x g =>
            obtain ⟨rfl, hv⟩ := List.cons.inj h
            have hd : isAtomic d = false := Bool.eq_false_iff.mpr fun hd => by
              have := isAtomic_of_mem_glyph hd (x := c) (by rw [hg]; simp)
              rw [hc] at this
              cases this
            rw [glyph_of_not_isAtomic hd] at hg
            cases u with
            | nil =>
                obtain ⟨rfl, rfl⟩ := List.cons.inj hg
                exact ⟨[], t, rfl, rfl, hv⟩
            | cons y u =>
                have := (List.cons.inj hg).2
                simp at this

theorem opensForm_of_replaceGlyphs {t : Text} (h : opensForm (replaceGlyphs t) = true) :
    opensForm t = true := by
  obtain ⟨c, r, hcr, hc⟩ : ∃ c r, replaceGlyphs t = '(' :: c :: r ∧
      (glyph c).head?.any isHead = true := by
    unfold opensForm at h
    split at h
    · next c r heq => exact ⟨c, r, heq, h⟩
    · cases h
  obtain ⟨x, y, rfl, hx, hy⟩ := exists_of_replaceGlyphs_eq (u := []) not_isAtomic_parens.1 hcr
  obtain rfl : x = [] := by
    cases x with
    | nil => rfl
    | cons d x => exact absurd hx.symm (replaceGlyphs_ne_nil (by simp))
  cases y with
  | nil => cases hy
  | cons d y =>
      rw [replaceGlyphs_cons] at hy
      obtain ⟨e, es, hes⟩ := List.exists_cons_of_ne_nil (glyph_ne_nil d)
      rw [hes] at hy
      obtain ⟨rfl, -⟩ := List.cons.inj hy
      have hstable : glyph c = [c] := glyph_of_mem_glyph (c := d) (by rw [hes]; simp)
      rw [hstable] at hc
      change (glyph d).head?.any isHead = true
      rw [hes]
      exact hc

theorem Apart.replaceGlyphs {t : Text} (h : Apart t) : Apart (replaceGlyphs t) where
  followed := by
    intro w' d' hopens hw' hinfix
    obtain ⟨u', v', heq⟩ := hinfix
    have hopen : Vocabulary.replaceGlyphs t = u' ++ '(' :: (w' ++ ')' :: d' :: v') := by
      rw [← heq]
      simp
    obtain ⟨u, y, rfl, rfl, hy⟩ := exists_of_replaceGlyphs_eq not_isAtomic_parens.1 hopen
    obtain ⟨w, z, rfl, rfl, hz⟩ := exists_of_replaceGlyphs_eq not_isAtomic_parens.2 hy.symm
    cases z with
    | nil => cases hz
    | cons d z =>
        have hw : Balanced w := (depthFrom_replaceGlyphs 0 w).symm.trans hw'
        have hform : '(' :: (w ++ [')', d]) <:+: u ++ '(' :: (w ++ ')' :: d :: z) :=
          ⟨u, z, by simp⟩
        have hparen : Vocabulary.replaceGlyphs ('(' :: w) = '(' :: Vocabulary.replaceGlyphs w := by
          rw [replaceGlyphs_cons, glyph_of_not_isAtomic not_isAtomic_parens.1]
          rfl
        have hd := h.followed (opensForm_of_replaceGlyphs (hparen ▸ hopens)) hw hform
        have hatomic : isAtomic d = false := by
          rcases hd with hgap | rfl
          · exact not_isAtomic_of_isGap hgap
          · exact not_isAtomic_parens.2
        rw [replaceGlyphs_cons, glyph_of_not_isAtomic hatomic] at hz
        obtain ⟨rfl, -⟩ := List.cons.inj hz
        exact hd
  sides := by
    intro w' p' q' ps' hw' hinfix hsplit hopens
    obtain ⟨u', v', heq⟩ := hinfix
    have hopen : Vocabulary.replaceGlyphs t = u' ++ '(' :: ('=' :: w' ++ ')' :: v') := by
      rw [← heq]
      simp
    obtain ⟨u, y, rfl, rfl, hy⟩ := exists_of_replaceGlyphs_eq not_isAtomic_parens.1 hopen
    obtain ⟨x, z, rfl, hx, -⟩ := exists_of_replaceGlyphs_eq not_isAtomic_parens.2 hy.symm
    obtain ⟨w, rfl, rfl⟩ : ∃ w, x = '=' :: w ∧ w' = Vocabulary.replaceGlyphs w := by
      cases x with
      | nil => cases hx
      | cons c w =>
          rw [replaceGlyphs_cons] at hx
          rcases glyph_cases c with hc | hc
          · rw [hc] at hx
            obtain ⟨rfl, rfl⟩ := List.cons.inj hx
            exact ⟨w, rfl, rfl⟩
          · have hall : ∀ p ∈ glyphs, p.2.head? ≠ some '=' := by decide
            obtain ⟨e, es, hes⟩ := List.exists_cons_of_ne_nil (glyph_ne_nil c)
            rw [hes] at hx
            have hhead := hall _ hc
            rw [hes, (List.cons.inj hx).1] at hhead
            exact absurd rfl hhead
    rw [split_replaceGlyphs] at hsplit
    obtain ⟨p, rest, hparts, rfl, hrest⟩ := List.map_eq_cons_iff.mp hsplit
    obtain ⟨q, ps, rfl, rfl, rfl⟩ := List.map_eq_cons_iff.mp hrest
    have hw : Balanced w := (depthFrom_replaceGlyphs 0 w).symm.trans hw'
    have hform : '(' :: '=' :: (w ++ [')']) <:+: u ++ '(' :: ('=' :: w ++ ')' :: z) :=
      ⟨u, z, by simp⟩
    rw [h.sides hw hform hparts (opensForm_of_replaceGlyphs hopens)]
    rfl

theorem Parted.replaceGlyphs {t : Text} (h : Parted t) : Parted (replaceGlyphs t) := by
  refine ⟨fun hopens => ?_, ?_, ?_⟩
  · obtain ⟨hapart, w, hw, rfl⟩ := h.setApart (opensForm_of_replaceGlyphs hopens)
    refine ⟨hapart.replaceGlyphs, Vocabulary.replaceGlyphs w,
      (depthFrom_replaceGlyphs 0 w).trans hw, ?_⟩
    rw [replaceGlyphs_cons, replaceGlyphs_append, glyph_of_not_isAtomic not_isAtomic_parens.1]
    simp [glyph_of_not_isAtomic not_isAtomic_parens.2]
  · exact (depthFrom_replaceGlyphs 0 t).trans h.balanced
  · rw [trim_replaceGlyphs, h.trimmed]

end Glyph

end WorksheetTex
