import WorksheetTex.Proofs.Brace
import WorksheetTex.Proofs.Diagnosis
import WorksheetTex.Proofs.PolishTwice
import WorksheetTex.Proofs.Reference

namespace WorksheetTex.Text

variable {β : Type}

def Segment.hit? : Segment β → Option β
  | .keep _ => none
  | .hit b => some b

def Rule.written (rule : Rule β) (t : Text) : List β :=
  (segments rule t).filterMap Segment.hit?

variable {rule : Rule β}

theorem written_keep (h : rule.IsLocal) {c : Char} {t : Text} (hc : rule [] (c :: t) = none) :
    rule.written (c :: t) = rule.written t := by
  rw [Rule.written, segments_keep h hc]
  rfl

theorem written_hit (h : rule.IsLocal) {s t : Text} {b : β} (hs : s ≠ [])
    (hb : rule [] (s ++ t) = some (s.length, b)) : rule.written (s ++ t) = b :: rule.written t := by
  rw [Rule.written, segments_hit h hs hb]
  rfl

end WorksheetTex.Text

namespace WorksheetTex.Tex

open Text Paren Polish

def isBracket (c : Char) : Bool :=
  isParen c || isBrace c

def isFlat (t : Text) : Bool :=
  t.all (!isBracket ·)

structure Follows {σ : Type} (g : σ → Text → Option σ) : Prop where
  append (s : σ) (t u : Text) : g s (t ++ u) = (g s t).bind (g · u)
  other (s : σ) {c : Char} : isBracket c = false → g s [c] = some s
  nil (s : σ) : g s [] = some s
  braces (s : σ) : g s ['{', '}'] = some s

section Flat

variable {t u : Text} {p : Char → Bool}

theorem not_isBracket {c : Char}
    (hp : p '(' = false ∧ p ')' = false ∧ p '{' = false ∧ p '}' = false) (hc : p c = true) :
    isBracket c = false := by
  refine Bool.eq_false_iff.mpr fun h => ?_
  simp only [isBracket, isParen, isBrace, Bool.or_eq_true, beq_iff_eq] at h
  rcases h with (rfl | rfl) | rfl | rfl <;> simp [hp] at hc

theorem isFlat_of_all (hp : p '(' = false ∧ p ')' = false ∧ p '{' = false ∧ p '}' = false)
    (h : t.all p = true) : isFlat t = true :=
  List.all_eq_true.mpr fun c hc => by rw [not_isBracket hp (List.all_eq_true.mp h c hc)]; rfl

theorem isFlat_append (ht : isFlat t = true) (hu : isFlat u = true) : isFlat (t ++ u) = true := by
  rw [isFlat] at *
  rw [List.all_append, ht, hu]
  rfl

theorem isFlat_words (h : t.all isWord = true) : isFlat t = true :=
  isFlat_of_all (by decide) h

theorem isFlat_spaces (h : t.all isSpace = true) : isFlat t = true :=
  isFlat_of_all (by decide) h

theorem isFlat_letters (h : t.all isLatin = true) : isFlat t = true :=
  isFlat_of_all (by decide) h

end Flat

namespace Follows

variable {σ : Type} {g : σ → Text → Option σ} (h : Follows g)

include h

theorem cons (s : σ) (c : Char) (t : Text) : g s (c :: t) = (g s [c]).bind (g · t) :=
  h.append s [c] t

theorem flat {t : Text} (ht : isFlat t = true) (s : σ) : g s t = some s := by
  induction t with
  | nil => exact h.nil s
  | cons c t ih =>
      rw [isFlat, List.all_cons, Bool.and_eq_true, Bool.not_eq_true'] at ht
      rw [h.cons, h.other s ht.1]
      exact ih ht.2

theorem flat_append {t : Text} (ht : isFlat t = true) (s : σ) (u : Text) :
    g s (t ++ u) = g s u := by
  rw [h.append, h.flat ht]
  rfl

theorem append_flat {u : Text} (hu : isFlat u = true) (s : σ) (t : Text) :
    g s (t ++ u) = g s t := by
  have hflat : (fun s => g s u) = some := funext fun s => h.flat hu s
  rw [h.append, hflat, Option.bind_fun_some]

theorem group {t : Text} (ht : isFlat t = true) (s : σ) : g s (group t) = some s := by
  have hsame (s : σ) : g s (t ++ ['}']) = g s ['}'] := h.flat_append ht s _
  rw [Tex.group, List.cons_append, h.cons]
  simp only [hsame]
  rw [← h.cons]
  exact h.braces s

theorem replaceAll_eq {rule : Rule Text} {P : Text → Text → Text → Text → Prop}
    (hrule : rule.HitsOnly P) (hP : ∀ before t r b, P before t r b → ∀ s, g s b = g s t) (s : σ)
    (t : Text) : g s (replaceAll rule t) = g s t := by
  refine hrule.induct (motive := fun _ t out => ∀ s, g s out = g s t) (fun _ _ => rfl) ?_ ?_ t s
  · intro _ c t out _ ih s
    rw [h.cons, h.cons s c t]
    exact congrArg _ (funext ih)
  · intro _ u t b out _ hhit ih s
    rw [h.append, h.append, hP _ _ _ _ hhit]
    exact congrArg _ (funext ih)

theorem spaceOperators (s : σ) (t : Text) : g s (spaceOperators t) = g s t := by
  have hflat : ∀ op ∈ binaryOperators, isFlat op = true := by decide
  have hstep {op : Text} (hop : isFlat op = true) (t : Text) :
      g s (replaceAll (operatorRule op) t) = g s t := by
    refine h.replaceAll_eq (hitsOnly_operatorRule op) (fun _ _ _ _ hhit s => ?_) s t
    cases hhit with
    | @intro x y _ c _ hx hy _ _ =>
        have htail {u : Text} (hu : isFlat u = true) : g s (c :: u) = g s [c] :=
          h.append_flat hu s [c]
        have hbefore : isFlat (" ".toList ++ op ++ " ".toList) = true :=
          isFlat_append (isFlat_append rfl hop) rfl
        have hbehind : isFlat (x ++ (op ++ y)) = true :=
          isFlat_append (isFlat_spaces hx) (isFlat_append hop (isFlat_spaces hy))
        exact (htail hbefore).trans (htail hbehind).symm
  have hfold (ops : List Text) (hops : ∀ op ∈ ops, isFlat op = true) (t : Text) :
      g s (ops.foldl (fun t op => replaceAll (operatorRule op) t) t) = g s t := by
    induction ops generalizing t with
    | nil => rfl
    | cons op ops ih =>
        rw [List.forall_mem_cons] at hops
        rw [List.foldl_cons, ih hops.2, hstep hops.1]
  exact hfold binaryOperators hflat t

theorem exponents (s : σ) (t : Text) : g s (exponents t) = g s t := by
  refine h.replaceAll_eq hitsOnly_exponentRule (fun _ _ _ _ hhit s => ?_) s t
  cases hhit with
  | @intro base e _ _ hbase he =>
      have hflat : isFlat e = true := by
        cases he with
        | number _ hdigits _ => exact isFlat_of_all (by decide) hdigits
        | letter hc _ => exact isFlat_words (by simp [hc])
      have hcaret (u : Text) : g s ('^' :: u) = g s u := h.flat_append (t := ['^']) rfl s u
      rw [h.flat_append (isFlat_words hbase), h.flat_append (isFlat_words hbase), sup, hcaret,
        hcaret, h.group hflat, h.flat hflat]

theorem sizeParens (s : σ) (t : Text) : g s (sizeParens t) = g s t := by
  refine h.replaceAll_eq hitsOnly_sizedRule (fun _ _ _ _ hhit s => ?_) s t
  cases hhit with
  | @intro i _ _ =>
      have hleft (u : Text) : g s ("\\left(".toList ++ u) = g s ('(' :: u) :=
        h.flat_append (t := "\\left".toList) rfl s ('(' :: u)
      have hright (s : σ) : g s "\\right)".toList = g s [')'] :=
        h.flat_append (t := "\\right".toList) rfl s [')']
      calc g s (sized i) = g s ("\\left(".toList ++ (i ++ "\\right)".toList)) :=
            congrArg (g s) (List.append_assoc _ _ _)
        _ = (g s ['(']).bind (g · (i ++ "\\right)".toList)) := by rw [hleft, h.cons]
        _ = (g s ['(']).bind (g · (i ++ [')'])) := by simp only [h.append _ i, hright]
        _ = g s ('(' :: (i ++ [')'])) := (h.cons s _ _).symm

theorem nameFunctions (s : σ) (t : Text) : g s (nameFunctions t) = g s t := by
  refine h.replaceAll_eq hitsOnly_functionRule (fun _ w _ _ hhit s => ?_) s t
  cases hhit with
  | intro _ _ _ _ => exact h.flat_append (t := ['\\']) rfl s w

theorem displayLimits (s : σ) (t : Text) : g s (displayLimits t) = g s t := by
  refine h.replaceAll_eq hitsOnly_displayRule (fun _ _ _ _ hhit s => ?_) s t
  cases hhit with
  | intro _ _ _ _ => exact h.flat_append rfl s _

theorem setQuantities (s : σ) (t : Text) : g s (setQuantities t) = g s t := by
  refine h.replaceAll_eq hitsOnly_quantityRule (fun _ _ _ _ hhit s => ?_) s t
  cases hhit with
  | @intro value x unit _ _ hvalue hx _ hunit _ =>
      have hvalue : isFlat value = true := isFlat_of_all (by decide) hvalue
      have hunit := isFlat_letters hunit
      calc g s (value ++ "\\,".toList ++ upright unit)
          = g s (upright unit) := h.flat_append (isFlat_append hvalue rfl) s _
        _ = g s (Tex.group unit) := h.flat_append rfl s _
        _ = some s := h.group hunit s
        _ = g s (value ++ (x ++ unit)) :=
            (h.flat (isFlat_append hvalue (isFlat_append (isFlat_spaces hx) hunit)) s).symm

theorem polish (annotate : Bool) (s : σ) (t : Text) :
    g s (polish annotate t) = g s (fractions t) := by
  have hpasses : g s (runPasses polishPasses t).1 = g s (Polish.fractions t) := by
    simp only [polishPasses, runPasses_cons, runPasses_nil]
    rw [h.setQuantities, h.displayLimits, h.nameFunctions, h.sizeParens, h.exponents,
      h.spaceOperators]
  have hmem : Polish.fractions ∈ polishPasses := by simp [polishPasses]
  rcases polish_cases annotate t with ⟨hblank, hpolish⟩ | hpolish | ⟨hsame, -, hpolish⟩
  · rw [hpolish, polishPasses_of_allBlank hblank _ hmem]
  · rw [hpolish, hpasses]
  · rw [hpolish, hsame _ hmem]
    exact h.append_flat rfl s t

theorem fractions (fits : Text → Bool) (hflat : ∀ {u}, isFlat u = true → fits u = true)
    (hfrac : ∀ u v, fits (frac u v) = (fits u && fits v))
    (henclosed : ∀ {u s e}, ')' ∉ u → g s ('(' :: (u ++ [')'])) = some e →
      g s (Tex.group u) = if fits u then some e else none) {s e : σ} {t : Text}
    (ht : g s t = some e) :
    g s (fractions t) = if (fractionRule.written t).all fits then some e else none := by
  have hoperand {u p : Text} {s e : σ} (hp : IsOperand u p) (hs : g s p = some e) :
      g s (Tex.group u) = if fits u then some e else none := by
    cases hp with
    | word _ hword =>
        have hu := isFlat_words hword
        rw [h.group hu, ← h.flat hu, hs, hflat hu, if_pos rfl]
    | enclosed _ hclose => exact henclosed hclose hs
  have hstretch {u v p q x y : Text} {s e : σ} (hp : IsOperand u p) (hq : IsOperand v q)
      (hx : x.all isSpace = true) (hy : y.all isSpace = true)
      (hs : g s (p ++ (x ++ '/' :: (y ++ q))) = some e) :
      g s (frac u v) = if fits (frac u v) then some e else none := by
    have hslash : isFlat (x ++ ('/' :: y)) = true :=
      isFlat_append (isFlat_spaces hx) (isFlat_append (t := ['/']) rfl (isFlat_spaces hy))
    have hskip (m : σ) : g m (x ++ '/' :: (y ++ q)) = g m q := by
      rw [← h.flat_append hslash m q, List.append_assoc, List.cons_append]
    obtain ⟨m, hm, hrest⟩ := Option.bind_eq_some_iff.mp ((h.append s p _).symm.trans hs)
    have hgroups : g s (frac u v) = (g s (Tex.group u)).bind (g · (Tex.group v)) :=
      (h.append s _ _).trans (congrArg (Option.bind · _) (h.flat_append rfl s _))
    rw [hgroups, hoperand hp hm, hfrac]
    cases fits u with
    | false => rfl
    | true => exact hoperand hq ((hskip m).symm.trans hrest)
  have hlocal : fractionRule.IsLocal := fun _ _ => rfl
  refine hitsOnly_fractionRule.self.induct (motive := fun _ t out => ∀ s e, g s t = some e →
    g s out = if (fractionRule.written t).all fits then some e else none)
    (fun _ s e hs => hs) ?_ ?_ t s e ht
  · intro _ c t out hnone ih s e hs
    obtain ⟨m, hm, hrest⟩ := Option.bind_eq_some_iff.mp ((h.cons s c t).symm.trans hs)
    rw [h.cons, hm, written_keep hlocal hnone]
    exact ih m e hrest
  · intro _ w t b out hw hhit ih s e hs
    obtain ⟨hrule, hhit⟩ := hhit
    cases hhit with
    | @intro p q u v x y _ hp hq hx hy =>
        obtain ⟨m, hm, hrest⟩ := Option.bind_eq_some_iff.mp ((h.append s _ t).symm.trans hs)
        rw [h.append, hstretch hp hq hx hy hm, written_hit hlocal hw hrule, List.all_cons]
        cases fits (frac u v) with
        | false => rfl
        | true => exact ih m e hrest

theorem polish_eq_some
    (henclosed : ∀ {u s e}, ')' ∉ u → g s ('(' :: (u ++ [')'])) = some e →
      g s (Tex.group u) = some e)
    (annotate : Bool) {s e : σ} {t : Text} (ht : g s t = some e) :
    g s (Tex.polish annotate t) = some e := by
  have hfractions := h.fractions (fun _ => true) (fun _ => rfl) (fun _ _ => rfl) henclosed ht
  have hall : (fractionRule.written t).all (fun _ => true) = true :=
    List.all_eq_true.mpr fun _ _ => rfl
  rw [h.polish, hfractions, if_pos hall]

end Follows

section Tallied

variable {opening closing : Char} {f : Nat → Text → Option Nat}

theorem follows_of_tallies (h : Tallies opening closing f) (hopen : isBracket opening = true)
    (hclose : isBracket closing = true) (hbraces : ∀ d, f d ['{', '}'] = some d) : Follows f where
  append := h.append
  other d c hc := by
    have hne {b : Char} (hb : isBracket b = true) : c ≠ b := by
      rintro rfl
      rw [hb] at hc
      cases hc
    rw [h.skips d [] (hne hopen) (hne hclose), h.nil]
  nil := h.nil
  braces := hbraces

theorem follows_depthFrom : Follows depthFrom :=
  follows_of_tallies tallies_depthFrom rfl rfl fun _ => rfl

theorem follows_braceDepth : Follows (braceDepth anywhere) :=
  follows_of_tallies tallies_braceDepth rfl rfl fun _ => rfl

variable {u : Text} {d e : Nat}

theorem depthFrom_enclosed (hu : ')' ∉ u) (h : depthFrom d ('(' :: (u ++ [')'])) = some e) :
    depthFrom d (group u) = some e := by
  have hopened (k : Nat) : depthFrom k u = some (k + u.count '(') := by
    refine depthFrom_eq_some_iff.mpr ⟨fun s hs => ?_, ?_⟩
    · rw [List.count_eq_zero_of_not_mem fun hmem => hu (hs.subset hmem)]
      exact Nat.zero_le _
    · rw [List.count_eq_zero_of_not_mem hu, Nat.add_zero]
  rw [depthFrom_open, tallies_depthFrom.append, hopened, Nat.add_right_comm] at h
  rw [group, tallies_depthFrom.append, tallies_depthFrom.skips d u (by decide) (by decide),
    hopened]
  exact h

theorem braceDepth_enclosed (h : braceDepth anywhere d ('(' :: (u ++ [')'])) = some e) :
    braceDepth anywhere d (group u) = some e := by
  rw [braceDepth_skip (by decide) (by decide), braceDepth_append] at h
  obtain ⟨m, hm, hlast⟩ := Option.bind_eq_some_iff.mp h
  rw [braceDepth_skip (by decide) (by decide)] at hlast
  obtain rfl : m = e := Option.some.inj hlast
  have hstep : braceDepth anywhere d ('{' :: u) = some (m + 1) := by
    rw [Nat.add_comm, ← tallies_braceDepth.add (by decide) hm, Nat.add_comm]
    rfl
  rw [group, braceDepth_append_of hstep]
  rfl

end Tallied

def nestStep (opened : Text) (c : Char) : Option Text :=
  if c = '(' ∨ c = '{' then some (c :: opened)
  else if c = ')' then if opened.head? = some '(' then some opened.tail else none
  else if c = '}' then if opened.head? = some '{' then some opened.tail else none
  else some opened

def nest (opened t : Text) : Option Text :=
  t.foldlM nestStep opened

def WellNested (t : Text) : Prop :=
  nest [] t = some []

instance : DecidablePred WellNested :=
  fun _ => inferInstanceAs (Decidable (_ = _))

section Nest

variable {opened base s e u : Text} {c : Char}

inductive Nests : Text → Char → Text → Prop
  | opens {opened : Text} {c : Char} : c = '(' ∨ c = '{' → Nests opened c (c :: opened)
  | closesParen {opened : Text} : Nests ('(' :: opened) ')' opened
  | closesBrace {opened : Text} : Nests ('{' :: opened) '}' opened
  | other {opened : Text} {c : Char} : isBracket c = false → Nests opened c opened

theorem ne_of_not_isBracket (hc : isBracket c = false) :
    (c ≠ '(' ∧ c ≠ ')') ∧ c ≠ '{' ∧ c ≠ '}' := by
  simpa [isBracket, isParen, isBrace] using hc

theorem nestStep_of_not_isBracket (hc : isBracket c = false) (opened : Text) :
    nestStep opened c = some opened := by
  obtain ⟨hparen, hbrace⟩ := ne_of_not_isBracket hc
  simp [nestStep, hparen, hbrace]

theorem nestStep_eq_some_iff : nestStep opened c = some e ↔ Nests opened c e := by
  have htop {b : Char} (h : (if opened.head? = some b then some opened.tail else none) = some e) :
      opened = b :: e := by
    split at h
    · next hhead =>
        obtain ⟨r, rfl⟩ := List.head?_eq_some_iff.mp hhead
        exact congrArg _ (Option.some.inj h)
    · cases h
  constructor
  · intro h
    rw [nestStep] at h
    split at h
    · next hc =>
        obtain rfl := Option.some.inj h
        exact .opens hc
    · next hopen =>
        split at h
        · next hc =>
            obtain rfl := hc
            obtain rfl := htop h
            exact .closesParen
        · next hparen =>
            split at h
            · next hc =>
                obtain rfl := hc
                obtain rfl := htop h
                exact .closesBrace
            · next hbrace =>
                obtain rfl := Option.some.inj h
                obtain ⟨hopen, hopen'⟩ := not_or.mp hopen
                exact .other (by simp [isBracket, isParen, isBrace, *])
  · intro h
    cases h with
    | opens hc => exact if_pos hc
    | closesParen => rfl
    | closesBrace => rfl
    | other hc => exact nestStep_of_not_isBracket hc opened

theorem follows_nest : Follows nest where
  append s t u := List.foldlM_append
  other s c hc := by
    rw [nest, List.foldlM_cons, nestStep_of_not_isBracket hc]
    rfl
  nil s := rfl
  braces s := rfl

theorem nest_cons_eq_some_iff :
    nest opened (c :: u) = some e ↔ ∃ m, Nests opened c m ∧ nest m u = some e := by
  rw [nest, List.foldlM_cons, Option.bind_eq_bind, Option.bind_eq_some_iff]
  simp only [nestStep_eq_some_iff, nest]

theorem nest_append (h : nest opened u = some e) (base : Text) :
    nest (opened ++ base) u = some (e ++ base) := by
  induction u generalizing opened with
  | nil =>
      obtain rfl := Option.some.inj h
      rfl
  | cons c u ih =>
      obtain ⟨m, hm, hrest⟩ := nest_cons_eq_some_iff.mp h
      refine nest_cons_eq_some_iff.mpr ⟨m ++ base, ?_, ih hrest⟩
      cases hm with
      | opens hc => exact .opens hc
      | closesParen => exact .closesParen
      | closesBrace => exact .closesBrace
      | other hc => exact .other hc

theorem Nests.above {m : Text} (hc : c ≠ ')') (h : Nests (opened ++ '(' :: base) c m) :
    ∃ z, Nests opened c z ∧ m = z ++ '(' :: base ∧
      z.count '(' = opened.count '(' + [c].count '(' := by
  generalize hs : opened ++ '(' :: base = s at h
  cases h with
  | opens hopen => exact ⟨c :: opened, .opens hopen, by rw [← hs]; rfl, by simp [List.count_cons]⟩
  | closesParen => exact absurd rfl hc
  | closesBrace =>
      cases opened with
      | nil => cases hs
      | cons b opened =>
          obtain ⟨rfl, rfl⟩ := List.cons.inj hs
          exact ⟨opened, .closesBrace, rfl, by simp⟩
  | other hother =>
      have hne := (ne_of_not_isBracket hother).1.1
      exact ⟨opened, .other hother, hs.symm, by simp [hne]⟩

theorem exists_nest_above (hu : ')' ∉ u) (h : nest (opened ++ '(' :: base) u = some e) :
    ∃ z, nest opened u = some z ∧ z.count '(' = opened.count '(' + u.count '(' := by
  induction u generalizing opened with
  | nil => exact ⟨opened, rfl, rfl⟩
  | cons c u ih =>
      rw [List.mem_cons, not_or] at hu
      obtain ⟨m, hm, hrest⟩ := nest_cons_eq_some_iff.mp h
      obtain ⟨z, hz, rfl, hcount⟩ := hm.above (Ne.symm hu.1)
      obtain ⟨y, hy, htotal⟩ := ih hu.2 hrest
      refine ⟨y, nest_cons_eq_some_iff.mpr ⟨z, hz, hy⟩, ?_⟩
      rw [htotal, hcount, Nat.add_assoc, ← List.count_append]
      rfl

def isOpenless (u : Text) : Bool :=
  !u.contains '('

theorem isOpenless_iff : isOpenless u = true ↔ '(' ∉ u := by
  simp [isOpenless]

theorem isOpenless_of_isFlat (hu : isFlat u = true) : isOpenless u = true :=
  isOpenless_iff.mpr fun hmem => nomatch List.all_eq_true.mp hu _ hmem

theorem isOpenless_frac (u v : Text) :
    isOpenless (frac u v) = (isOpenless u && isOpenless v) := by
  have hname : '(' ∉ "\\frac".toList := by decide
  have hgroup (w : Text) : '(' ∈ group w ↔ '(' ∈ w := by simp [group]
  have hmem : '(' ∈ frac u v ↔ '(' ∈ u ∨ '(' ∈ v :=
    List.mem_append.trans (or_congr
      (List.mem_append.trans ((or_iff_right hname).trans (hgroup u))) (hgroup v))
  rw [Bool.eq_iff_iff, Bool.and_eq_true, isOpenless_iff, isOpenless_iff, isOpenless_iff, hmem,
    not_or]

theorem nest_enclosed (hu : ')' ∉ u) (h : nest s ('(' :: (u ++ [')'])) = some e) :
    nest s (group u) = if isOpenless u then some e else none := by
  have hinside : nest ('(' :: s) (u ++ [')']) = some e := h
  rw [follows_nest.append] at hinside
  obtain ⟨m, hm, hlast⟩ := Option.bind_eq_some_iff.mp hinside
  obtain ⟨z, hz, hcount⟩ : ∃ z, nest [] u = some z ∧ z.count '(' = 0 + u.count '(' :=
    exists_nest_above hu hm
  have hgroup : nest s (group u) = nest (z ++ '{' :: s) ['}'] := by
    have hopen : nest s ('{' :: u) = some (z ++ '{' :: s) := nest_append hz ('{' :: s)
    rw [group, follows_nest.append, hopen]
    rfl
  obtain rfl : z ++ '(' :: s = m := Option.some.inj ((nest_append hz _).symm.trans hm)
  rw [Nat.zero_add] at hcount
  cases z with
  | nil =>
      have hnot : '(' ∉ u := List.count_eq_zero.mp hcount.symm
      obtain rfl : s = e := Option.some.inj hlast
      rw [hgroup, if_pos (isOpenless_iff.mpr hnot)]
      rfl
  | cons b z =>
      -- The one opened last in between is the one that the last character closes.
      obtain ⟨m, hclose, -⟩ := nest_cons_eq_some_iff.mp hlast
      obtain rfl : b = '(' := by
        cases hclose with
        | opens hc => simp at hc
        | closesParen => rfl
        | other hc => cases hc
      have hmem : '(' ∈ u := List.count_pos_iff.mp (by simp [← hcount])
      rw [hgroup, if_neg fun hopenless => isOpenless_iff.mp hopenless hmem]
      rfl

end Nest

theorem wellNested_polish_iff (annotate : Bool) {t : Text} (ht : WellNested t) :
    WellNested (polish annotate t) ↔ ∀ b ∈ fractionRule.written t, '(' ∉ b := by
  have hfractions :=
    follows_nest.fractions isOpenless isOpenless_of_isFlat isOpenless_frac nest_enclosed ht
  simp only [← isOpenless_iff]
  rw [← List.all_eq_true, WellNested, follows_nest.polish, hfractions]
  simp

theorem bracesMatch_polish_within (annotate : Bool) {before t after : Text}
    (h : BracesMatch (before ++ t ++ after)) :
    BracesMatch (before ++ polish annotate t ++ after) := by
  rw [← braced_iff, Braced, List.append_assoc, braceDepth_append] at h ⊢
  obtain ⟨d, hbefore, h⟩ := Option.bind_eq_some_iff.mp h
  rw [braceDepth_append] at h
  obtain ⟨e, ht, hafter⟩ := Option.bind_eq_some_iff.mp h
  have hpolish := follows_braceDepth.polish_eq_some (fun _ => braceDepth_enclosed) annotate ht
  rw [hbefore, Option.bind_some, braceDepth_append_of hpolish]
  exact hafter

end WorksheetTex.Tex

namespace WorksheetTex

open Text Tex Paren Polish

theorem polish_nesting (o : Options) (annotate : Bool) (t : Text) :
    ∃ latex, polish (.record { o with annotate := .value annotate }) t = .ok latex ∧
      (ParensMatch t → ParensMatch latex) ∧ (BracesMatch t → BracesMatch latex) ∧
      (WellNested t → (WellNested latex ↔ ∀ b ∈ fractionRule.written t, '(' ∉ b)) := by
  refine ⟨Tex.polish annotate t, rfl, fun ht => ?_, fun ht => ?_, wellNested_polish_iff annotate⟩
  · exact balanced_iff.mp
      (follows_depthFrom.polish_eq_some depthFrom_enclosed annotate (balanced_iff.mpr ht))
  · exact braced_iff.mp (follows_braceDepth.polish_eq_some (fun _ => braceDepth_enclosed) annotate
      (braced_iff.mpr ht))

theorem polish_nesting_braces :
    ∃ latex, polish (.record { annotate := .value false }) "(x)\x7b(a\x7bb\x7d)/c\x7d".toList =
        .ok latex ∧ WellNested "(x)\x7b(a\x7bb\x7d)/c\x7d".toList ∧ WellNested latex := by
  have hnested : WellNested "(x)\x7b(a\x7bb\x7d)/c\x7d".toList := by decide +kernel
  obtain ⟨latex, hlatex, -, -, hiff⟩ := polish_nesting {} false
    "(x)\x7b(a\x7bb\x7d)/c\x7d".toList
  exact ⟨latex, hlatex, hnested, (hiff hnested).mpr (by decide +kernel)⟩

theorem polish_nesting_differs :
    WellNested "((a)/b)".toList ∧
      polish .absent "((a)/b)".toList = .ok "\\frac\x7b(a\x7d\x7bb\x7d)".toList ∧
      ¬ WellNested "\\frac\x7b(a\x7d\x7bb\x7d)".toList := by
  decide +kernel

theorem polish_braces (v : OptionsValue) (o : Options) (hv : v.required = .ok o) (t : Text) :
    ∃ latex, polish v t = .ok latex ∧ (BracesMatch t → BracesMatch latex) ∧
      ∀ before after, BracesMatch (before ++ t ++ after) → BracesMatch (before ++ latex ++ after) := by
  have hwithin (before after : Text) (h : BracesMatch (before ++ t ++ after)) :=
    bracesMatch_polish_within o.annotates h
  refine ⟨Tex.polish o.annotates t, by rw [polish, hv]; rfl, fun ht => ?_, hwithin⟩
  have hempty := hwithin [] []
  rw [List.append_nil, List.append_nil] at hempty
  exact hempty ht

theorem polish_braces_operand :
    ∃ latex, polish (.record { annotate := .null }) "(a\x7bb)/c\x7d".toList = .ok latex ∧
      BracesMatch latex ∧ BracesMatch ("x^\x7b".toList ++ latex ++ "\x7d".toList) := by
  obtain ⟨latex, hlatex, hmatch, hwithin⟩ :=
    polish_braces (.record { annotate := .null }) { annotate := .null } rfl
      "(a\x7bb)/c\x7d".toList
  exact ⟨latex, hlatex, hmatch (braced_iff.mp (by decide)),
    hwithin _ _ (braced_iff.mp (by decide))⟩

end WorksheetTex
