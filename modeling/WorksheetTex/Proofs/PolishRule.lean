import WorksheetTex.Proofs.Replacement
import WorksheetTex.Tex.Polish

namespace WorksheetTex.Tex.Polish

open Text

theorem exists_run (p : Char → Bool) (t : Text) :
    ∃ w r, t = w ++ r ∧ t.takeWhile p = w ∧ t.dropWhile p = r ∧ w.all p = true ∧
      r.head?.any p = false := by
  refine ⟨_, _, List.takeWhile_append_dropWhile.symm, rfl, rfl, List.all_takeWhile, ?_⟩
  have hhead := List.head?_dropWhile_not p t
  cases hr : (t.dropWhile p).head? with
  | none => rfl
  | some c => simpa [hr] using hhead

section Fraction

inductive IsOperand (w : Text) : Text → Prop
  | word : w ≠ [] → w.all isWord = true → IsOperand w w
  | enclosed : w ≠ [] → ')' ∉ w → IsOperand w ('(' :: (w ++ [')']))

inductive WritesFraction : Text → Text → Text → Text → Prop
  | intro {before p q u v x y r : Text} : IsOperand u p → IsOperand v q → x.all isSpace = true →
      y.all isSpace = true → WritesFraction before (p ++ (x ++ '/' :: (y ++ q))) r (frac u v)

theorem exists_of_fractionOperand {t w : Text} {n : Nat} (h : fractionOperand t = some (w, n)) :
    ∃ s r, t = s ++ r ∧ n = s.length ∧ IsOperand w s := by
  cases t with
  | nil => cases h
  | cons c t =>
      rw [fractionOperand] at h
      split at h
      · next hc =>
          obtain ⟨rfl, rfl⟩ := Prod.mk.inj (Option.some.inj h)
          refine ⟨_, _, List.takeWhile_append_dropWhile.symm, rfl, .word ?_ List.all_takeWhile⟩
          simp [hc]
      · split at h
        · next hc =>
            obtain rfl := hc
            obtain ⟨u, r, rfl, hu, -, hall, hr⟩ := exists_run (· != ')') t
            rw [hu] at h
            dsimp only at h
            split at h
            · cases h
            · next hclosed =>
                obtain ⟨rfl, rfl⟩ := Prod.mk.inj (Option.some.inj h)
                obtain ⟨hne, hlength⟩ := not_or.mp (by simpa using hclosed)
                obtain ⟨d, r, rfl⟩ := List.exists_cons_of_ne_nil hlength
                obtain rfl : d = ')' := by simpa using hr
                refine ⟨'(' :: (u ++ [')']), r, by simp, by simp, .enclosed hne fun hmem => ?_⟩
                simpa using List.all_eq_true.mp hall _ hmem
        · cases h

theorem hitsOnly_fractionRule : fractionRule.HitsOnly WritesFraction := by
  intro before t n b hrule
  obtain ⟨⟨u, k⟩, hu, h⟩ := Option.bind_eq_some_iff.mp hrule
  obtain ⟨p, t, rfl, rfl, hp⟩ := exists_of_fractionOperand hu
  dsimp only at h
  obtain ⟨x, t, rfl, -, hdrop, hx, -⟩ := exists_run isSpace t
  rw [List.drop_left, hdrop] at h
  split at h
  · next s =>
      obtain ⟨y, t, rfl, -, hdrop, hy, -⟩ := exists_run isSpace s
      rw [hdrop] at h
      obtain ⟨⟨v, d⟩, hv, h⟩ := Option.bind_eq_some_iff.mp h
      obtain ⟨q, r, rfl, rfl, hq⟩ := exists_of_fractionOperand hv
      obtain ⟨rfl, rfl⟩ := Prod.mk.inj (Option.some.inj h)
      refine ⟨p ++ (x ++ '/' :: (y ++ q)), r, by simp, ?_, by simp, .intro hp hq hx hy⟩
      rw [List.drop_left]
      simp
      omega
  · cases h

end Fraction

section Operator

inductive SpacesOperator (op : Text) : Text → Text → Text → Text → Prop
  | intro {before x y r : Text} {c : Char} : endsOperand c = true → x.all isSpace = true →
      y.all isSpace = true → isCut op (y ++ r) = true → r.head?.any startsOperand = true →
      SpacesOperator op before (c :: (x ++ (op ++ y))) r (c :: " " ++ op ++ " ")

theorem hitsOnly_operatorRule (op : Text) : (operatorRule op).HitsOnly (SpacesOperator op) := by
  intro before t n b h
  cases t with
  | nil => cases h
  | cons c t =>
      rw [operatorRule] at h
      obtain ⟨x, s, rfl, -, hdrop, hx, -⟩ := exists_run isSpace t
      rw [hdrop] at h
      split at h
      · next hc =>
          simp only [Bool.and_eq_true] at hc
          obtain ⟨⟨⟨hend, hop⟩, hcut⟩, hstart⟩ := hc
          obtain ⟨t, rfl⟩ := List.isPrefixOf_iff_prefix.mp hop
          obtain ⟨y, r, rfl, -, hdrop, hy, -⟩ := exists_run isSpace t
          rw [List.drop_left] at h hcut hstart
          rw [hdrop] at h hstart
          obtain ⟨rfl, rfl⟩ := Prod.mk.inj (Option.some.inj h)
          refine ⟨c :: (x ++ (op ++ y)), r, by simp, ?_, by simp,
            .intro hend hx hy hcut hstart⟩
          simp
          omega
      · cases h

end Operator

section Exponent

inductive IsExponent : Text → Text → Prop
  | number {ds r : Text} : ds ≠ [] → ds.all Char.isDigit = true →
      (r.head?.any fun c => isWord c || c == '.') = false → IsExponent ds r
  | letter {c : Char} {r : Text} : isWord c = true → r.head?.any isWord = false → IsExponent [c] r

inductive BracesExponent : Text → Text → Text → Text → Prop
  | intro {before base e r : Text} : base ≠ [] → base.all isWord = true → IsExponent e r →
      BracesExponent before (base ++ '^' :: e) r (base ++ sup e)

theorem exists_of_exponentOf {t e : Text} (h : exponentOf t = some e) :
    ∃ r, t = e ++ r ∧ IsExponent e r := by
  unfold exponentOf at h
  dsimp only at h
  split at h
  · next hd =>
      obtain ⟨ds, r, rfl, htake, -, hall, -⟩ := exists_run Char.isDigit t
      obtain rfl := Option.some.inj h
      rw [htake, List.drop_left, Bool.and_eq_true, Bool.not_eq_true', Bool.not_eq_true'] at hd
      rw [htake]
      exact ⟨r, rfl, .number (by simpa using hd.1) hall hd.2⟩
  · split at h
    · next c r _ =>
        split at h
        · next hc =>
            obtain rfl := Option.some.inj h
            rw [Bool.and_eq_true, Bool.not_eq_true'] at hc
            exact ⟨r, rfl, .letter hc.1 hc.2⟩
        · cases h
    · cases h

theorem hitsOnly_exponentRule : exponentRule.HitsOnly BracesExponent := by
  intro before t n b h
  rw [exponentRule] at h
  obtain ⟨base, r, rfl, htake, -, hall, -⟩ := exists_run isWord t
  rw [htake, List.drop_left] at h
  split at h
  · next c w r =>
      obtain ⟨e, he, heq⟩ := Option.map_eq_some_iff.mp h
      obtain ⟨rfl, rfl⟩ := Prod.mk.inj heq
      obtain ⟨r, rfl, hexponent⟩ := exists_of_exponentOf he
      refine ⟨(c :: w) ++ '^' :: e, r, by simp, ?_, by simp, .intro (by simp) hall hexponent⟩
      simp
      omega
  · cases h

end Exponent

section Delimiter

inductive SizesParens : Text → Text → Text → Text → Prop
  | intro {before i r : Text} : endsIn before "\\left" = false →
      SizesParens before ('(' :: (i ++ [')'])) r (sized i)

theorem exists_of_afterGroup? {t s : Text} (h : afterGroup? t = some s) : ∃ x, t = x ++ s := by
  unfold afterGroup? at h
  split at h
  · next r =>
      split at h
      · next s' hs =>
          obtain rfl := Option.some.inj h
          refine ⟨'{' :: (r.takeWhile (!isBrace ·) ++ ['}']), ?_⟩
          rw [List.cons_append, List.append_assoc, List.singleton_append, ← hs,
            List.takeWhile_append_dropWhile]
      · cases h
  · cases h

theorem exists_of_afterFraction? {t s : Text} (h : afterFraction? t = some s) :
    ∃ x, t = x ++ s := by
  unfold afterFraction? at h
  split at h
  · obtain ⟨u, hu, hs⟩ := Option.bind_eq_some_iff.mp h
    obtain ⟨x, hx⟩ := exists_of_afterGroup? hu
    obtain ⟨y, rfl⟩ := exists_of_afterGroup? hs
    refine ⟨t.take 5 ++ (x ++ y), ?_⟩
    rw [List.append_assoc, List.append_assoc, ← hx, List.take_append_drop]
  · cases h

theorem exists_of_afterClose? {t s : Text} (h : afterClose? t = some s) :
    ∃ x, t = x ++ ')' :: s := by
  unfold afterClose? at h
  split at h
  · next s' hs =>
      split at h
      · cases h
      · obtain rfl := Option.some.inj h
        exact ⟨_, by rw [← hs, List.takeWhile_append_dropWhile]⟩
  · cases h

theorem exists_of_afterEnclosed? {t s : Text} (h : afterEnclosed? t = some s) :
    ∃ x, t = x ++ ')' :: s := by
  induction t with
  | nil => cases h
  | cons c t ih =>
      rw [afterEnclosed?] at h
      split at h
      · cases h
      · split at h
        · next s' hs =>
            obtain rfl := Option.some.inj h
            obtain ⟨x, rfl⟩ := ih hs
            exact ⟨c :: x, rfl⟩
        · obtain ⟨u, hu, hs⟩ := Option.bind_eq_some_iff.mp h
          obtain ⟨x, hx⟩ := exists_of_afterFraction? hu
          obtain ⟨y, rfl⟩ := exists_of_afterClose? hs
          exact ⟨x ++ y, by rw [hx, List.append_assoc]⟩

theorem hitsOnly_sizedRule : sizedRule.HitsOnly SizesParens := by
  intro before t n b h
  unfold sizedRule at h
  split at h
  · next r =>
      split at h
      · cases h
      · next hleft =>
          obtain ⟨s, hs, heq⟩ := Option.map_eq_some_iff.mp h
          obtain ⟨i, rfl⟩ := exists_of_afterEnclosed? hs
          obtain ⟨rfl, rfl⟩ := Prod.mk.inj heq
          have hi : (i ++ ')' :: s).take ((i ++ ')' :: s).length - s.length - 1) = i := by
            have hlength : (i ++ ')' :: s).length - s.length - 1 = i.length := by
              simp
              omega
            rw [hlength, List.take_left]
          rw [hi]
          refine ⟨'(' :: (i ++ [')']), s, by simp, ?_, by simp, .intro (by simpa using hleft)⟩
          simp
          omega
  · cases h

end Delimiter

section NamedFunction

inductive NamesFunction : Text → Text → Text → Text → Prop
  | intro {before w r : Text} : w ∈ namedFunctions → r.head?.any isLatin = false →
      (before.head?.any fun c => c == '\\' || isLatin c) = false →
      uprightOpenings.any (endsIn before ·) = false → NamesFunction before w r ('\\' :: w)

theorem mem_namedFunctions {w : Text} (h : w ∈ namedFunctions) :
    w ≠ [] ∧ w.all isLatin = true := by
  have hall : ∀ w ∈ namedFunctions, w ≠ [] ∧ w.all isLatin = true := by decide
  exact hall w h

theorem hitsOnly_functionRule : functionRule.HitsOnly NamesFunction := by
  intro before t n b h
  unfold functionRule at h
  obtain ⟨w, r, rfl, htake, -, -, hr⟩ := exists_run isLatin t
  rw [htake] at h
  dsimp only at h
  split at h
  · next hname =>
      obtain ⟨rfl, rfl⟩ := Prod.mk.inj (Option.some.inj h)
      simp only [Bool.and_eq_true, Bool.not_eq_true'] at hname
      obtain ⟨⟨hmem, hglued⟩, hupright⟩ := hname
      have hmem : w ∈ namedFunctions := List.contains_iff_mem.mp hmem
      exact ⟨w, r, rfl, rfl, (mem_namedFunctions hmem).1, .intro hmem hr hglued hupright⟩
  · cases h

end NamedFunction

section BigOperator

inductive SetsDisplay : Text → Text → Text → Text → Prop
  | intro {before command lower upper r : Text} : command ∈ bigCommands → '}' ∉ lower →
      '}' ∉ upper → isDisplayed before = false →
      SetsDisplay before (command ++ sub lower ++ sup upper) r
        ("\\displaystyle" ++ (command ++ sub lower ++ sup upper))

theorem exists_of_afterLimit? {mark t s : Text} (h : afterLimit? mark t = some s) :
    ∃ limit, '}' ∉ limit ∧ t = mark ++ (limit ++ '}' :: s) := by
  unfold afterLimit? at h
  split at h
  · next hmark =>
      obtain ⟨r, rfl⟩ := List.isPrefixOf_iff_prefix.mp hmark
      obtain ⟨limit, u, rfl, -, hdrop, hall, hu⟩ := exists_run (· != '}') r
      rw [List.drop_left, hdrop] at h
      split at h
      · next c s' =>
          obtain rfl := Option.some.inj h
          obtain rfl : c = '}' := by simpa using hu
          refine ⟨limit, fun hmem => ?_, rfl⟩
          simpa using List.all_eq_true.mp hall _ hmem
      · cases h
  · cases h

theorem hitsOnly_displayRule : displayRule.HitsOnly SetsDisplay := by
  intro before t n b h
  obtain ⟨command, hcommand, h⟩ := Option.bind_eq_some_iff.mp h
  obtain ⟨t₁, ht₁, h⟩ := Option.bind_eq_some_iff.mp h
  obtain ⟨r, hr, h⟩ := Option.bind_eq_some_iff.mp h
  have hmem := List.mem_of_find?_eq_some hcommand
  have hprefix := List.find?_some hcommand
  obtain ⟨t, rfl⟩ := List.isPrefixOf_iff_prefix.mp hprefix
  rw [List.drop_left] at ht₁
  obtain ⟨lower, hlower, rfl⟩ := exists_of_afterLimit? ht₁
  obtain ⟨upper, hupper, rfl⟩ := exists_of_afterLimit? hr
  have ht : command ++ ("_\x7b" ++ (lower ++ '}' :: ("^\x7b" ++ (upper ++ '}' :: r)))) =
      command ++ sub lower ++ sup upper ++ r := by
    simp [sub, sup, group]
  dsimp only at h
  split at h
  · cases h
  · next hdisplayed =>
      obtain ⟨rfl, rfl⟩ := Prod.mk.inj (Option.some.inj h)
      have hlength (s : Text) : (s ++ r).length - r.length = s.length := by simp
      rw [ht, hlength, List.take_left]
      exact ⟨_, r, rfl, rfl, by simp [sup], .intro hmem hlower hupper (by simpa using hdisplayed)⟩

end BigOperator

section Quantity

def isNumeral (c : Char) : Bool :=
  c.isDigit || c == '.'

inductive SetsQuantity : Text → Text → Text → Text → Prop
  | intro {before value x unit r : Text} : value ≠ [] → value.all isNumeral = true →
      x.all isSpace = true → unit ≠ [] → unit.all isLatin = true → r.head?.any isLatin = false →
      SetsQuantity before (value ++ (x ++ unit)) r (value ++ "\\," ++ upright unit)

theorem isNumeral_of_digits {ds : Text} (h : ds.all Char.isDigit = true) :
    ds.all isNumeral = true :=
  List.all_eq_true.mpr fun c hc => by rw [isNumeral, List.all_eq_true.mp h c hc, Bool.true_or]

theorem exists_of_takeNumber (t : Text) :
    (∃ r, t = takeNumber t ++ r) ∧ (takeNumber t).all isNumeral = true ∧
      t.takeWhile Char.isDigit <+: takeNumber t := by
  obtain ⟨whole, r, rfl, htake, -, hwhole, -⟩ := exists_run Char.isDigit t
  unfold takeNumber
  rw [htake]
  dsimp only
  rw [List.drop_left]
  split
  · next r =>
      obtain ⟨ds, r, rfl, htake, -, hds, -⟩ := exists_run Char.isDigit r
      rw [htake]
      cases ds with
      | nil => exact ⟨⟨_, rfl⟩, isNumeral_of_digits hwhole, List.prefix_rfl⟩
      | cons d ds =>
          refine ⟨⟨r, by simp⟩, ?_, List.prefix_append _ _⟩
          rw [List.all_append, isNumeral_of_digits hwhole, Bool.true_and, List.all_cons,
            isNumeral_of_digits hds]
          rfl
  · exact ⟨⟨r, rfl⟩, isNumeral_of_digits hwhole, List.prefix_rfl⟩

theorem hitsOnly_quantityRule : quantityRule.HitsOnly SetsQuantity := by
  intro before t n b h
  unfold quantityRule at h
  obtain ⟨⟨r, ht⟩, hvalue, hprefix⟩ := exists_of_takeNumber t
  generalize takeNumber t = value at *
  dsimp only at h
  split at h
  · next hc =>
      simp only [Bool.and_eq_true, Bool.not_eq_true'] at hc
      obtain ⟨⟨⟨hdigit, -⟩, hne⟩, -⟩ := hc
      have hvalue_ne : value ≠ [] := by
        rintro rfl
        cases t with
        | nil => cases hdigit
        | cons c t =>
            have hc : c.isDigit = true := hdigit
            rw [List.takeWhile_cons_of_pos hc] at hprefix
            cases List.prefix_nil.mp hprefix
      subst ht
      rw [List.drop_left] at h hne
      obtain ⟨x, r, rfl, -, hdrop, hx, -⟩ := exists_run isSpace r
      rw [hdrop] at h hne
      obtain ⟨unit, r, rfl, htake, -, hunit, hr⟩ := exists_run isLatin r
      rw [htake] at h hne
      rw [List.drop_left] at h
      obtain ⟨rfl, rfl⟩ := Prod.mk.inj (Option.some.inj h)
      have hne : unit ≠ [] := by simpa using hne
      refine ⟨value ++ (x ++ unit), r, by simp, ?_, by simp [hne],
        .intro hvalue_ne hvalue hx hne hunit hr⟩
      simp
      omega
  · cases h

end Quantity

end WorksheetTex.Tex.Polish
