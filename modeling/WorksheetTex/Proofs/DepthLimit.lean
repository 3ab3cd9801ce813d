import Mathlib.Algebra.Ring.Int.Defs
import WorksheetTex.Proofs.Clipping
import WorksheetTex.Proofs.Layer
import WorksheetTex.Proofs.Simulation

namespace WorksheetTex

open Text Tex Vocabulary Form Evaluation Numeral

def Numeral.Binary64.IsInt : Binary64 → Int → Prop
  | .finite negative m e, d =>
      (if negative then -(m : Int) else m) * 2 ^ e.toNat = d * 2 ^ (-e).toNat
  | _, _ => False

instance : (x : Binary64) → (d : Int) → Decidable (x.IsInt d)
  | .finite negative m e, d => inferInstanceAs (Decidable
      ((if negative then -(m : Int) else m) * 2 ^ e.toNat = d * 2 ^ (-e).toNat))
  | .infinite _, _ => instDecidableFalse
  | .nan, _ => instDecidableFalse

def Limit.IsInt : Limit → Int → Prop
  | .unset, _ => False
  | .number x, d => x.IsInt d

instance : (l : Limit) → (d : Int) → Decidable (l.IsInt d)
  | .unset, _ => instDecidableFalse
  | .number x, d => inferInstanceAs (Decidable (x.IsInt d))

theorem Numeral.Binary64.ceil_of_isInt {x : Binary64} {d : Int} (h : x.IsInt d) :
    x.ceil = d.toNat := by
  cases x with
  | finite negative m e =>
      rw [IsInt] at h
      cases negative with
      | true =>
          have hscale (k : Nat) : (0 : Int) < 2 ^ k := Int.pow_pos (by decide)
          have hvalue : 0 ≤ (m : Int) * 2 ^ e.toNat :=
            Int.mul_nonneg (Int.natCast_nonneg m) (Int.le_of_lt (hscale _))
          have hd : ¬0 < d := fun hd => by
            have := Int.mul_pos hd (hscale (-e).toNat)
            simp only [if_true, Int.neg_mul] at h
            omega
          have hzero : 0 = d.toNat := by omega
          exact hzero
      | false =>
          cases e with
          | ofNat k =>
              have hd : d = (m * 2 ^ k : Nat) := by simpa using h.symm
              rw [hd, Int.toNat_natCast]
              rfl
          | negSucc k =>
              have hm : (m : Int) = d * 2 ^ (k + 1) := by simpa using h
              obtain ⟨n, rfl⟩ : ∃ n : Nat, d = n := by
                refine Int.eq_ofNat_of_zero_le (Int.not_lt.mp fun hd => ?_)
                have := Int.mul_neg_of_neg_of_pos hd (b := 2 ^ (k + 1)) (Int.pow_pos (by decide))
                omega
              have hn : m = n * Nat.pow 2 (k + 1) := by exact_mod_cast hm
              have hscale : 0 < Nat.pow 2 (k + 1) := Nat.two_pow_pos (k + 1)
              change (m + Nat.pow 2 (k + 1) - 1) / Nat.pow 2 (k + 1) = _
              rw [Int.toNat_natCast, hn, Nat.add_sub_assoc hscale, Nat.add_comm,
                Nat.add_mul_div_right _ _ hscale, Nat.div_eq_of_lt (by omega), Nat.zero_add]
  | infinite negative => cases h
  | nan => cases h

theorem Limit.levels_of_isInt {l : Limit} {d : Int} (h : l.IsInt d) : l.levels = d.toNat := by
  cases l with
  | unset => cases h
  | number x => exact x.ceil_of_isInt h

theorem simulates_unless (x : Fault) :
    Simulates fun (α : Type) (p q : Except Fault α) => p ≠ .error x → q = p where
  pure _ _ := rfl
  bind := by
    intro α β p q f g hpq hfg hne
    cases p with
    | error y =>
        have hy : y ≠ x := fun hy => hne (by rw [hy]; rfl)
        rw [hpq (by simpa using hy)]
        rfl
    | ok a =>
        rw [hpq (by simp)]
        exact hfg a hne

theorem count_replaceGlyphs (t : Text) : (replaceGlyphs t).count '(' = t.count '(' := by
  induction t with
  | nil => rfl
  | cons c t ih =>
      rw [replaceGlyphs_cons, List.count_append, ih, ← List.singleton_append, List.count_append]
      congr 1
      rcases glyph_cases c with hc | hc
      · rw [hc]
      · have hall : ∀ p ∈ glyphs, p.2.count '(' = [p.1].count '(' := by decide
        exact hall _ hc

theorem count_of_open {c : Char} {r : Text} {n : Nat} (h : ('(' :: c :: r).count '(' < n + 1) :
    r.count '(' < n := by
  have := List.count_le_count_cons (a := '(') (b := c) (l := r)
  rw [List.count_cons_self] at h
  omega

theorem hereditary_count (n : Nat) : Hereditary fun t => t.count '(' < n where
  cut _ h := by
    rw [List.count_append] at h
    omega
  head _ h := count_of_open (Nat.lt_succ_of_lt h)

theorem collapse_error {lex : Lexicon} {e : Text} {x : Fault} (h : collapse lex e = .error x) :
    x = .referencesCyclic := by
  have hexpand (pieces : List Text) (fuel : Nat) (t : Text) :
      FailsOnly (· = .referencesCyclic) (expand pieces fuel t) := by
    induction fuel generalizing t with
    | zero => rfl
    | succ fuel ih =>
        refine (Ends.mapM fun g _ => (?_ : FailsOnly _ _)).bind fun _ _ => .pure trivial
        cases g with
        | keep c => trivial
        | hit n =>
            dsimp only
            split
            · trivial
            · exact ih _
  have hcollapse : FailsOnly (· = .referencesCyclic) (collapse lex e) :=
    (hexpand _ _ _).bind fun _ _ => .pure trivial
  rw [h] at hcollapse
  exact hcollapse

namespace Setting

theorem typesetWithin_mono (s s' : Setting) (hlex : s'.lexicon = s.lexicon) {n n' : Nat}
    (hn : n ≤ n') (t : Text) (h : s.typesetWithin n t ≠ .error (.tooDeep s.limit)) :
    s'.typesetWithin n' t = s.typesetWithin n t := by
  have hsim := simulates_unless (.tooDeep s.limit)
  induction n generalizing n' t with
  | zero => exact absurd rfl h
  | succ n ih =>
      obtain ⟨k, rfl⟩ : ∃ k, n' = k + 1 := ⟨n' - 1, by omega⟩
      refine hsim.bind (fun _ => by rw [hlex]) (fun layer => ?_) h
      refine hsim.bind (hsim.layer (fun a => ih (by omega) a) layer) fun filled => ?_
      exact fun _ => by rw [hlex]

theorem not_tooDeep_of_count (s : Setting) {n : Nat} {t : Text} (h : t.count '(' < n) :
    FailsOnly (fun x => ∀ l, x ≠ .tooDeep l) (s.typesetWithin n t) := by
  refine s.ends_typesetWithin (I := fun n t => t.count '(' < n) composes_true
    (fun _ _ => trivial) (fun _ _ => trivial) (fun _ h => absurd h (Nat.not_lt_zero _))
    (fun n t ht => ?_) h
  have he : (trim t).count '(' < n + 1 := (hereditary_count (n + 1)).trim ht
  have hopen {u : Text} (hu : u.count '(' < n + 1) (c : Char) (r : Text) (hur : u = '(' :: c :: r)
      (_ : isHead c = true) : r.count '(' < n := count_of_open (hur ▸ hu)
  exact Layer.ends_read (inherits_holes _ (hereditary_count n)) (by simp) (by simp) (hopen he)
    (hopen (by rwa [count_replaceGlyphs])) trivial (fun _ _ => trivial) fun x hx l => by
      simp [collapse_error hx]

theorem typeset_depth_law (lex : Lexicon) {l l' : Limit} {d d' : Int} (hl : l.IsInt d)
    (hl' : l'.IsInt d') (hd : d ≤ d') (t : Text) :
    (typeset ⟨lex, l⟩ t ≠ .error (.tooDeep l) → typeset ⟨lex, l'⟩ t = typeset ⟨lex, l⟩ t) ∧
      (1 + t.count '(' ≤ d → ∀ m, typeset ⟨lex, l⟩ t ≠ .error (.tooDeep m)) ∧
      ∀ u : Tree, u.Arithmetic →
        (typeset ⟨lex, l⟩ u.sexp.print = .error (.tooDeep l) ↔ d < u.height) := by
  have hlevels := l.levels_of_isInt hl
  have hlevels' := l'.levels_of_isInt hl'
  refine ⟨fun h => ?_, fun hcount m h => ?_, fun u hu => ?_⟩
  · have hle : l.levels ≤ l'.levels := by omega
    exact typesetWithin_mono ⟨lex, l⟩ ⟨lex, l'⟩ rfl hle t h
  · have hends := not_tooDeep_of_count ⟨lex, l⟩ (n := l.levels) (t := t) (by omega)
    rw [typeset] at h
    rw [h] at hends
    exact hends m rfl
  · have hheight := u.height_pos
    have hle : u.height ≤ l.levels ↔ ¬d < u.height := by omega
    rw [typeset, typesetWithin_clipped hu (.whole _)]
    split
    · next hlow => exact iff_of_false (by simp) (hle.mp hlow)
    · next hlow => exact iff_of_true rfl (Decidable.not_not.mp fun hd => hlow (hle.mpr hd))

theorem typeset_depth_law_nested :
    typeset ⟨.ofDeclarations {}, .ofNat 300⟩ "(+ a (* b".toList =
        typeset ⟨.ofDeclarations {}, .ofNat 3⟩ "(+ a (* b".toList ∧
      typeset ⟨.ofDeclarations {}, .ofNat 3⟩ "(- (+ (* (/)) x))".toList =
        .error (.tooDeep (.ofNat 3)) := by
  let leaf : Tree := .node (.operation .divide) []
  let middle : Tree := .node (.operation .plus)
    [.node (.operation .times) [leaf], .atom (.ofText "x" rfl)]
  have hleaf : leaf.Arithmetic := .operation (by simp)
  have hmiddle : middle.Arithmetic := .operation (by
    simp [Tree.Arithmetic.atom, Tree.Arithmetic.operation, hleaf])
  have hroot : (Tree.node (.operation .minus) [middle]).Arithmetic := .operation (by simp [hmiddle])
  obtain ⟨hsame, hnever, hdeep⟩ := @typeset_depth_law (.ofDeclarations {}) (.ofNat 3) (.ofNat 300)
    3 300 (by decide) (by decide) (by decide) "(+ a (* b".toList
  exact ⟨hsame (hnever (by decide) _), (hdeep _ hroot).mpr (by decide)⟩

end Setting

end WorksheetTex
