import Mathlib.Data.List.TakeWhile
import WorksheetTex.Proofs.PolishTwice

namespace WorksheetTex.Text

structure Rule.Ignores (rule : Rule Text) (n : Text) : Prop where
  same (before : Text) {t : Text} : t ≠ [] → rule before (t ++ n) = rule before t
  quiet (before : Text) : rule.Quiet before n

theorem Rule.Ignores.replaceAll_append {rule : Rule Text} {n : Text} (h : rule.Ignores n)
    {P : Text → Text → Text → Text → Prop} (hrule : rule.HitsOnly P) (t : Text) :
    replaceAll rule (t ++ n) = replaceAll rule t ++ n := by
  refine hrule.self.induct
    (motive := fun before t out => replaceFrom rule before (t ++ n) = out ++ n)
    (fun before => (h.quiet before).replaceFrom) ?_ ?_ t
  · intro before c t out hnone ih
    rw [← h.same before (List.cons_ne_nil c t), List.cons_append] at hnone
    rw [List.cons_append, replaceFrom_keep hnone, ih, List.cons_append]
  · intro before s t b out hs hhit ih
    have hsame := h.same before (List.append_ne_nil_of_left_ne_nil hs t)
    rw [hhit.1, List.append_assoc] at hsame
    rw [List.append_assoc, replaceFrom_hit hs hsame, ih, List.append_assoc]

end WorksheetTex.Text

namespace WorksheetTex.Tex.Polish

open Text

def isNoteChar (c : Char) : Bool :=
  isLatin c || c == ' ' || c == '%'

def isNote (n : Text) : Bool :=
  n.head?.any isSpace && (n.dropWhile isSpace).head?.any (· == '%') && n.all isNoteChar

theorem ne_of_isNoteChar {d : Char} (hd : isNoteChar d = false) (c : Char)
    (hc : isNoteChar c = true) : (c != d) = true := by
  rw [bne_iff_ne]
  rintro rfl
  rw [hd] at hc
  cases hc

theorem not_isNoteChar_of_isNumeral {c : Char} (h : isNumeral c = true) :
    isNoteChar c = false := by
  have hlatin : isLatin c = false := (Bool.or_eq_false_iff.mp (adjoins_of_isNumeral h)).2
  rw [isNoteChar, hlatin, Bool.false_or, Bool.or_eq_false_iff, beq_eq_false_iff_ne,
    beq_eq_false_iff_ne]
  constructor <;> rintro rfl <;> cases h

theorem length_sub_append (t r n : Text) :
    (t ++ n).length - (r ++ n).length = t.length - r.length := by
  rw [List.length_append, List.length_append, Nat.add_sub_add_right]

section Note

variable {n : Text} (hn : isNote n = true)

include hn

theorem head_note : ∃ m, n = ' ' :: m := by
  cases n with
  | nil => cases hn
  | cons c m =>
      simp only [isNote, Bool.and_eq_true] at hn
      obtain rfl : c = ' ' := by simpa [isSpace] using hn.1.1
      exact ⟨m, rfl⟩

theorem dropWhile_note : ∃ m, n.dropWhile isSpace = '%' :: m := by
  simp only [isNote, Bool.and_eq_true] at hn
  cases h : n.dropWhile isSpace with
  | nil => simp [h] at hn
  | cons c m =>
      obtain rfl : c = '%' := by simpa [h] using hn.1.2
      exact ⟨m, rfl⟩

theorem mem_note {c : Char} (hc : c ∈ n) : isNoteChar c = true := by
  simp only [isNote, Bool.and_eq_true] at hn
  exact List.all_eq_true.mp hn.2 c hc

theorem quiet_note {rule : Rule Text} {P : Text → Text → Text → Text → Prop}
    (hrule : rule.HitsOnly P)
    (hP : ∀ before s r b, P before s r b → ∃ c ∈ s, isNoteChar c = false) (before : Text) :
    rule.Quiet before n := by
  have hall : n.all isNoteChar = true := List.all_eq_true.mpr fun c => mem_note hn
  clear hn
  induction n generalizing before with
  | nil => exact .nil before
  | cons c n ih =>
      refine .cons ?_ (ih (c :: before) (Bool.and_eq_true_iff.mp hall).2)
      cases hhit : rule before (c :: n) with
      | none => rfl
      | some q =>
          obtain ⟨s, r, hsr, -, -, htaken⟩ := hrule before (c :: n) q.1 q.2 hhit
          obtain ⟨d, hd, hnot⟩ := hP _ _ _ _ htaken
          rw [hsr] at hall
          rw [List.all_eq_true.mp hall d (by simp [hd])] at hnot
          cases hnot

theorem head_append {p : Char → Bool} (hp : p ' ' = false) (t : Text) :
    (t ++ n).head?.any p = t.head?.any p := by
  obtain ⟨m, rfl⟩ := head_note hn
  cases t with
  | nil => exact hp
  | cons c t => rfl

theorem run_append {p : Char → Bool} (hp : p ' ' = false) (t : Text) :
    (t ++ n).takeWhile p = t.takeWhile p ∧ (t ++ n).dropWhile p = t.dropWhile p ++ n := by
  obtain ⟨m, rfl⟩ := head_note hn
  induction t with
  | nil => simp [hp]
  | cons c t ih => by_cases hc : p c = true <;> simp [hc, ih]

theorem run_through {p : Char → Bool} (hp : ∀ c, isNoteChar c = true → p c = true) (t : Text) :
    (t.dropWhile p = [] ∧ t.takeWhile p = t ∧ (t ++ n).dropWhile p = [] ∧
      (t ++ n).takeWhile p = t ++ n) ∨
    ∃ c r, t.dropWhile p = c :: r ∧ p c = false ∧ (t ++ n).dropWhile p = c :: (r ++ n) ∧
      (t ++ n).takeWhile p = t.takeWhile p := by
  have hall : ∀ c ∈ n, p c = true := fun c hc => hp c (mem_note hn hc)
  obtain ⟨w, r, rfl, htake, hdrop, hw, hr⟩ := exists_run p t
  have hw := List.all_eq_true.mp hw
  rw [htake, hdrop, List.append_assoc, List.takeWhile_append_of_pos hw,
    List.dropWhile_append_of_pos hw]
  cases r with
  | nil =>
      have htake : n.takeWhile p = n := List.takeWhile_eq_self_iff.mpr hall
      have hdrop : n.dropWhile p = [] := List.dropWhile_eq_nil_iff.mpr hall
      exact .inl ⟨rfl, by rw [List.append_nil], hdrop, by rw [List.nil_append, htake]⟩
  | cons c r =>
      have hc : p c = false := hr
      exact .inr ⟨c, r, rfl, hc, by simp [hc], by simp [hc]⟩

theorem spaces_append (t : Text) :
    (t.dropWhile isSpace = [] ∧ ∃ m, (t ++ n).dropWhile isSpace = '%' :: m) ∨
    ∃ c r, t.dropWhile isSpace = c :: r ∧ (t ++ n).dropWhile isSpace = c :: (r ++ n) := by
  rw [List.dropWhile_append]
  cases h : t.dropWhile isSpace with
  | nil => exact .inl ⟨rfl, dropWhile_note hn⟩
  | cons c r => exact .inr ⟨c, r, rfl, rfl⟩

theorem isPrefixOf_append {w : Text} (hw : ' ' ∉ w) (t : Text) :
    w.isPrefixOf (t ++ n) = w.isPrefixOf t := by
  obtain ⟨m, rfl⟩ := head_note hn
  induction w generalizing t with
  | nil => rfl
  | cons c w ih =>
      rw [List.mem_cons, not_or] at hw
      cases t with
      | nil => simp [List.isPrefixOf, Ne.symm hw.1]
      | cons d t => simp [List.isPrefixOf, ih hw.2]

theorem fractionOperand_note {t : Text} (ht : t ≠ []) :
    fractionOperand (t ++ n) = fractionOperand t := by
  have hopen := ne_of_isNoteChar (d := ')') rfl
  cases t with
  | nil => exact absurd rfl ht
  | cons c r =>
      have hword := (run_append hn (p := isWord) rfl (c :: r)).1
      rw [List.cons_append] at hword
      rw [List.cons_append, fractionOperand, fractionOperand, hword]
      rcases run_through hn hopen r with ⟨-, htake, -, htake'⟩ | ⟨d, s, hdrop, -, -, htake'⟩
      · rw [htake, htake']
        simp
      · have hsplit := List.takeWhile_append_dropWhile (p := (· != ')')) (l := r)
        have hlength := congrArg List.length hsplit
        rw [hdrop, List.length_append, List.length_cons] at hlength
        have hshort : (r.takeWhile (· != ')')).length ≠ r.length := by omega
        have hshort' : (r.takeWhile (· != ')')).length ≠ (r ++ n).length := by
          rw [List.length_append]
          omega
        rw [htake']
        simp only [hshort, hshort']

theorem ignores_fractionRule : fractionRule.Ignores n where
  same := by
    intro before t ht
    simp only [fractionRule, Option.bind_eq_bind, fractionOperand_note hn ht]
    cases hu : fractionOperand t with
    | none => rfl
    | some p =>
        obtain ⟨u, k⟩ := p
        obtain ⟨s, q, rfl, rfl, -⟩ := exists_of_fractionOperand hu
        simp only [Option.bind_some, List.append_assoc, List.drop_left]
        rcases spaces_append hn q with ⟨hdrop, m, hdrop'⟩ | ⟨c, r, hdrop, hdrop'⟩
        · rw [hdrop, hdrop']
          rfl
        · rw [hdrop, hdrop']
          by_cases hc : c = '/'
          · subst hc
            rcases spaces_append hn r with ⟨hdrop, m, hdrop'⟩ | ⟨d, v, hdrop, hdrop'⟩
            · simp only [hdrop, hdrop']
              rfl
            · have hoperand := fractionOperand_note hn (List.cons_ne_nil d v)
              rw [List.cons_append] at hoperand
              simp only [hdrop, hdrop', hoperand]
              cases hv : fractionOperand (d :: v) with
              | none => rfl
              | some p =>
                  obtain ⟨w, k⟩ := p
                  obtain ⟨x, y, hxy, rfl, -⟩ := exists_of_fractionOperand hv
                  rw [← List.cons_append, hxy, List.append_assoc]
                  simp
                  omega
          · simp [hc]
  quiet := quiet_note hn hitsOnly_fractionRule fun _ _ _ _ hhit => by
    cases hhit with
    | intro => exact ⟨'/', by simp, by decide⟩

theorem ignores_operatorRule {a : Char} {w : Text} (ha : isNoteChar a = false)
    (hspace : ' ' ∉ a :: w) : (operatorRule (a :: w)).Ignores n where
  same := by
    intro before t ht
    have hpercent : a ≠ '%' := by
      rintro rfl
      cases ha
    cases t with
    | nil => exact absurd rfl ht
    | cons c r =>
        rw [List.cons_append, operatorRule, operatorRule]
        rcases spaces_append hn r with ⟨hdrop, m, hdrop'⟩ | ⟨d, v, hdrop, hdrop'⟩
        · simp [hdrop, hdrop', List.isPrefixOf, hpercent]
        · rw [hdrop, hdrop', ← List.cons_append, isPrefixOf_append hn hspace]
          by_cases hstart : (a :: w).isPrefixOf (d :: v) = true
          · obtain ⟨q, hq⟩ := List.isPrefixOf_iff_prefix.mp hstart
            rw [hstart, ← hq, List.append_assoc, List.drop_left, List.drop_left]
            have hcut : isCut (a :: w) (q ++ n) = isCut (a :: w) q := by
              rw [isCut, isCut, head_append hn rfl]
            rw [hcut]
            rcases spaces_append hn q with ⟨hdrop, m, hdrop'⟩ | ⟨e, u, hdrop, hdrop'⟩
            · simp [hdrop, hdrop', startsOperand]
            · have hlength := length_sub_append (c :: r) (e :: u) n
              rw [List.cons_append, List.cons_append] at hlength
              rw [hdrop, hdrop', hlength]
              rfl
          · simp [hstart]
  quiet := quiet_note hn (hitsOnly_operatorRule (a :: w)) fun _ _ _ _ hhit => by
    cases hhit with
    | intro => exact ⟨a, by simp, ha⟩

theorem spaceOperators_note (t : Text) : spaceOperators (t ++ n) = spaceOperators t ++ n := by
  have hall : ∀ op ∈ binaryOperators, op.head?.any (!isNoteChar ·) = true ∧ ' ' ∉ op := by decide
  refine List.foldl_rel (r := fun u u' => u = u' ++ n) rfl fun op hop u u' hu => ?_
  obtain ⟨hhead, hspace⟩ := hall op hop
  cases op with
  | nil => cases hhead
  | cons a w =>
      have hignores := ignores_operatorRule hn (by simpa using hhead) hspace
      rw [hu, hignores.replaceAll_append (hitsOnly_operatorRule (a :: w))]

theorem exponentOf_note (t : Text) : exponentOf (t ++ n) = exponentOf t := by
  obtain ⟨ds, r, rfl, htake, -, -, -⟩ := exists_run Char.isDigit t
  have htake' := (run_append hn (p := Char.isDigit) rfl (ds ++ r)).1
  have hafter := head_append hn (p := fun c => isWord c || c == '.') rfl r
  unfold exponentOf
  rw [htake', htake]
  simp only [List.append_assoc, List.drop_left, hafter]
  split
  · rfl
  · rw [← List.append_assoc]
    cases ds ++ r with
    | nil =>
        obtain ⟨m, rfl⟩ := head_note hn
        rfl
    | cons c s =>
        have hnext := head_append hn (p := isWord) rfl s
        simp only [List.cons_append, hnext]

theorem ignores_exponentRule : exponentRule.Ignores n where
  same := by
    intro before t ht
    obtain ⟨base, r, rfl, htake, -, -, -⟩ := exists_run isWord t
    have htake' := (run_append hn (p := isWord) rfl (base ++ r)).1
    rw [exponentRule, exponentRule, htake', htake, List.append_assoc, List.drop_left,
      List.drop_left]
    cases base with
    | nil => rfl
    | cons b base =>
        cases r with
        | nil =>
            obtain ⟨m, rfl⟩ := head_note hn
            rfl
        | cons c r =>
            by_cases hc : c = '^'
            · subst hc
              simp only [List.cons_append, exponentOf_note hn]
            · simp [hc]
  quiet := quiet_note hn hitsOnly_exponentRule fun _ _ _ _ hhit => by
    cases hhit with
    | intro => exact ⟨'^', by simp, by decide⟩

theorem afterGroup?_note (t : Text) : afterGroup? (t ++ n) = (afterGroup? t).map (· ++ n) := by
  have hflat : ∀ c, isNoteChar c = true → (!isBrace c) = true := fun c hc => by
    rw [Bool.not_eq_true', isBrace, Bool.or_eq_false_iff, beq_eq_false_iff_ne, beq_eq_false_iff_ne]
    constructor <;> rintro rfl <;> cases hc
  cases t with
  | nil =>
      obtain ⟨m, rfl⟩ := head_note hn
      rfl
  | cons c r =>
      by_cases hc : c = '{'
      · subst hc
        rcases run_through hn hflat r with ⟨hdrop, -, hdrop', -⟩ | ⟨d, s, hdrop, -, hdrop', -⟩
        · simp only [List.cons_append, afterGroup?, hdrop, hdrop']
          rfl
        · simp only [List.cons_append, afterGroup?, hdrop, hdrop']
          by_cases hd : d = '}'
          · subst hd
            rfl
          · simp [hd]
      · simp [afterGroup?, hc]

theorem afterFraction?_note (t : Text) :
    afterFraction? (t ++ n) = (afterFraction? t).map (· ++ n) := by
  rw [afterFraction?, afterFraction?, isPrefixOf_append hn (by decide)]
  split
  · next hstart =>
      obtain ⟨q, rfl⟩ := List.isPrefixOf_iff_prefix.mp hstart
      have hdrop (u : Text) : ("\\frac".toList ++ u).drop 5 = u := rfl
      rw [List.append_assoc, hdrop, hdrop, afterGroup?_note hn]
      cases afterGroup? q with
      | none => rfl
      | some u => exact afterGroup?_note hn u
  · rfl

theorem run_through_parens (t : Text) :
    (t.dropWhile (!isParen ·) = [] ∧ (t ++ n).dropWhile (!isParen ·) = []) ∨
      ∃ c r, t.dropWhile (!isParen ·) = c :: r ∧ (t ++ n).dropWhile (!isParen ·) = c :: (r ++ n) ∧
        (t ++ n).takeWhile (!isParen ·) = t.takeWhile (!isParen ·) := by
  have hflat : ∀ c, isNoteChar c = true → (!isParen c) = true := fun c hc => by
    rw [Bool.not_eq_true', isParen, Bool.or_eq_false_iff, beq_eq_false_iff_ne, beq_eq_false_iff_ne]
    constructor <;> rintro rfl <;> cases hc
  rcases run_through hn hflat t with ⟨hdrop, -, hdrop', -⟩ | ⟨c, r, hdrop, -, hdrop', htake⟩
  · exact .inl ⟨hdrop, hdrop'⟩
  · exact .inr ⟨c, r, hdrop, hdrop', htake⟩

theorem afterClose?_note (t : Text) : afterClose? (t ++ n) = (afterClose? t).map (· ++ n) := by
  unfold afterClose?
  rcases run_through_parens hn t with ⟨hdrop, hdrop'⟩ | ⟨c, r, hdrop, hdrop', htake⟩
  · rw [hdrop, hdrop']
    rfl
  · rw [hdrop, hdrop', htake]
    by_cases hc : c = ')'
    · subst hc
      simp only
      split <;> rfl
    · simp [hc]

theorem afterEnclosed?_note (t : Text) :
    afterEnclosed? (t ++ n) = (afterEnclosed? t).map (· ++ n) := by
  induction t with
  | nil =>
      cases h : afterEnclosed? ([] ++ n) with
      | none => rfl
      | some s =>
          obtain ⟨x, hx⟩ := exists_of_afterEnclosed? h
          have hmem := mem_note hn (c := ')') (by rw [← List.nil_append n, hx]; simp)
          cases hmem
  | cons c t ih =>
      rw [List.cons_append, afterEnclosed?, afterEnclosed?, ih, ← List.cons_append,
        afterFraction?_note hn]
      split
      · rfl
      · cases afterEnclosed? t with
        | some s => rfl
        | none =>
            cases afterFraction? (c :: t) with
            | none => rfl
            | some u => exact afterClose?_note hn u

theorem ignores_sizedRule : sizedRule.Ignores n where
  same := by
    intro before t ht
    cases t with
    | nil => exact absurd rfl ht
    | cons c r =>
        by_cases hc : c = '('
        · subst hc
          simp only [List.cons_append, sizedRule, afterEnclosed?_note hn]
          split
          · rfl
          · cases hs : afterEnclosed? r with
            | none => rfl
            | some s =>
                have hlength := length_sub_append ('(' :: r) s n
                rw [List.cons_append] at hlength
                have htake : r.length - s.length - 1 ≤ r.length := by omega
                simp only [Option.map_some, hlength, length_sub_append,
                  List.take_append_of_le_length htake]
        · simp [sizedRule, hc]
  quiet := quiet_note hn hitsOnly_sizedRule fun _ _ _ _ hhit => by
    cases hhit with
    | intro => exact ⟨'(', by simp, by decide⟩

theorem ignores_functionRule (hnames : ∀ w ∈ namedFunctions, ¬ w <:+: n) :
    functionRule.Ignores n where
  same := by
    intro before t _
    rw [functionRule, functionRule, (run_append hn (p := isLatin) rfl t).1]
  quiet _ := quiet_of_nameless hnames

theorem afterLimit?_note {mark : Text} (hmark : ' ' ∉ mark) (t : Text) :
    afterLimit? mark (t ++ n) = (afterLimit? mark t).map (· ++ n) := by
  have hopen := ne_of_isNoteChar (d := '}') rfl
  rw [afterLimit?, afterLimit?, isPrefixOf_append hn hmark]
  split
  · next hstart =>
      obtain ⟨q, rfl⟩ := List.isPrefixOf_iff_prefix.mp hstart
      rw [List.append_assoc, List.drop_left, List.drop_left]
      rcases run_through hn hopen q with ⟨hdrop, -, hdrop', -⟩ | ⟨d, s, hdrop, -, hdrop', -⟩
      · rw [hdrop, hdrop']
        rfl
      · rw [hdrop, hdrop']
        rfl
  · rfl

theorem takeNumber_note (t : Text) : takeNumber (t ++ n) = takeNumber t := by
  obtain ⟨ds, r, rfl, htake, -, -, -⟩ := exists_run Char.isDigit t
  have htake' := (run_append hn (p := Char.isDigit) rfl (ds ++ r)).1
  unfold takeNumber
  rw [htake', htake]
  simp only [List.append_assoc, List.drop_left]
  cases r with
  | nil =>
      obtain ⟨m, rfl⟩ := head_note hn
      rfl
  | cons c r =>
      by_cases hc : c = '.'
      · subst hc
        have hdigits := (run_append hn (p := Char.isDigit) rfl r).1
        simp only [List.cons_append, hdigits]
      · simp [hc]

theorem ignores_displayRule : displayRule.Ignores n where
  same := by
    intro before t _
    have hfind :
        bigCommands.find? (·.isPrefixOf (t ++ n)) = bigCommands.find? (·.isPrefixOf t) := by
      simp only [bigCommands, List.find?_cons, isPrefixOf_append hn (w := "\\int") (by decide),
        isPrefixOf_append hn (w := "\\sum") (by decide),
        isPrefixOf_append hn (w := "\\prod") (by decide)]
      rfl
    have hlower := afterLimit?_note hn (by decide : ' ' ∉ "_\x7b".toList)
    have hupper := afterLimit?_note hn (by decide : ' ' ∉ "^\x7b".toList)
    simp only [displayRule, Option.bind_eq_bind, hfind]
    cases hcommand : bigCommands.find? (·.isPrefixOf t) with
    | none => rfl
    | some command =>
        have hstart := List.find?_some hcommand
        obtain ⟨q, rfl⟩ := List.isPrefixOf_iff_prefix.mp hstart
        simp only [Option.bind_some, List.append_assoc, List.drop_left, hlower]
        cases afterLimit? "_\x7b" q with
        | none => rfl
        | some rest =>
            simp only [Option.map_some, Option.bind_some, hupper]
            cases afterLimit? "^\x7b" rest with
            | none => rfl
            | some rest =>
                have hlength := length_sub_append (command ++ q) rest n
                have htake : (command ++ q).length - rest.length ≤ (command ++ q).length := by omega
                rw [List.append_assoc] at hlength
                simp only [Option.map_some, Option.bind_some, hlength]
                rw [← List.append_assoc, List.take_append_of_le_length htake]
  quiet := quiet_note hn hitsOnly_displayRule fun _ _ _ _ hhit => by
    cases hhit with
    | intro => exact ⟨'^', by simp [sup], by decide⟩

theorem ignores_quantityRule : quantityRule.Ignores n where
  same := by
    intro before t _
    obtain ⟨⟨r, ht⟩, -, -⟩ := exists_of_takeNumber t
    have hlength := congrArg List.length ht
    rw [List.length_append] at hlength
    have hdigit := head_append hn (p := Char.isDigit) rfl t
    have hdrop : (t ++ n).drop (takeNumber t).length = t.drop (takeNumber t).length ++ n :=
      List.drop_append_of_le_length (by omega)
    unfold quantityRule
    dsimp only
    rw [takeNumber_note hn, hdrop, hdigit]
    rcases spaces_append hn (t.drop (takeNumber t).length) with
      ⟨hrest, m, hrest'⟩ | ⟨c, s, hrest, hrest'⟩
    · simp [hrest, hrest', isLatin]
    · have hunit := (run_append hn (p := isLatin) rfl (c :: s)).1
      have hbehind : (c :: s ++ n).drop ((c :: s).takeWhile isLatin).length =
          (c :: s).drop ((c :: s).takeWhile isLatin).length ++ n :=
        List.drop_append_of_le_length (List.takeWhile_prefix isLatin).length_le
      rw [hrest, hrest', ← List.cons_append, hunit, hbehind, length_sub_append]
  quiet := quiet_note hn hitsOnly_quantityRule fun _ _ _ _ hhit => by
    cases hhit with
    | @intro value _ _ _ hvalue hnumeral =>
        obtain ⟨c, value, rfl⟩ := List.exists_cons_of_ne_nil hvalue
        have hc := List.all_eq_true.mp hnumeral c List.mem_cons_self
        exact ⟨c, by simp, not_isNoteChar_of_isNumeral hc⟩

end Note

end WorksheetTex.Tex.Polish

namespace WorksheetTex.Tex

open Text Polish

theorem isNote_unchangedNote : isNote unchangedNote = true := by decide

theorem polishPasses_note :
    ∀ pass ∈ polishPasses, ∀ t, pass (t ++ unchangedNote) = pass t ++ unchangedNote := by
  have hn := isNote_unchangedNote
  simp only [polishPasses, List.forall_mem_cons]
  exact ⟨(ignores_fractionRule hn).replaceAll_append hitsOnly_fractionRule,
    spaceOperators_note hn,
    (ignores_exponentRule hn).replaceAll_append hitsOnly_exponentRule,
    (ignores_sizedRule hn).replaceAll_append hitsOnly_sizedRule,
    (ignores_functionRule hn nameless_unchangedNote).replaceAll_append hitsOnly_functionRule,
    (ignores_displayRule hn).replaceAll_append hitsOnly_displayRule,
    (ignores_quantityRule hn).replaceAll_append hitsOnly_quantityRule, by simp⟩

theorem runPasses_append {passes : List (Text → Text)} {n : Text}
    (h : ∀ pass ∈ passes, ∀ t, pass (t ++ n) = pass t ++ n) (t : Text) :
    (runPasses passes (t ++ n)).1 = (runPasses passes t).1 ++ n := by
  induction passes generalizing t with
  | nil => rfl
  | cons pass passes ih =>
      rw [List.forall_mem_cons] at h
      rw [runPasses_cons, runPasses_cons, h.1, ih h.2]

theorem polish_false (t : Text) : polish false t = (runPasses polishPasses t).1 := by
  rw [polish]
  split
  · next hblank => rw [runPasses_of_unchanged (polishPasses_of_allBlank hblank)]
  · simp

theorem polish_false_note (t : Text) :
    polish false (t ++ unchangedNote) = polish false t ++ unchangedNote := by
  rw [polish_false, polish_false, runPasses_append polishPasses_note]

theorem polishPasses_of_noted {t : Text} (h : polish true t = t ++ unchangedNote) :
    ∀ pass ∈ polishPasses, pass t = t := by
  have hnote : unchangedNote.countP isMarkup = 0 ∧ unchangedNote.countP (· == '%') = 1 := by decide
  rcases polish_cases true t with ⟨-, h'⟩ | h' | ⟨hsame, -, -⟩
  · rw [h', List.self_eq_append_right] at h
    cases h
  · rw [h'] at h
    obtain ⟨hspaced, -⟩ := runPasses_polishPasses_of_countP_eq (t := t) (by
      rw [h, List.countP_append, hnote.1, Nat.add_zero])
    have hcount := countP_spaceOperators (p := (· == '%')) rfl t
    rw [← hspaced, h, List.countP_append, hnote.2] at hcount
    omega
  · exact hsame

theorem polish_true_note {t : Text} (h : ∀ pass ∈ polishPasses, pass t = t) :
    polish true (t ++ unchangedNote) = t ++ unchangedNote := by
  have hsame : ∀ pass ∈ polishPasses, pass (t ++ unchangedNote) = t ++ unchangedNote :=
    fun pass hpass => by rw [polishPasses_note pass hpass, h pass hpass]
  rcases polish_cases true (t ++ unchangedNote) with ⟨-, h'⟩ | h' | ⟨-, hsuffix, -⟩
  · exact h'
  · rw [h', runPasses_of_unchanged hsame]
  · have hends := List.isSuffixOf_iff_suffix.mpr (List.suffix_append t unchangedNote)
    rw [hsuffix] at hends
    cases hends

end WorksheetTex.Tex

namespace WorksheetTex

open Text Tex

theorem polish_note_inert (s : Text) :
    (∃ c, polish (.record { annotate := .value false }) s = .ok c ∧
      polish (.record { annotate := .value false }) (s ++ unchangedNote) =
        .ok (c ++ unchangedNote)) ∧
    (polish .absent s = .ok (s ++ unchangedNote) →
      (polish .absent s >>= polish .absent) = polish .absent s) := by
  refine ⟨⟨Tex.polish false s, rfl, congrArg Except.ok (polish_false_note s)⟩, fun h => ?_⟩
  rw [polish_absent] at h
  have hsame := polishPasses_of_noted (Except.ok.inj h)
  rw [polish_absent, Except.ok.inj h]
  exact congrArg Except.ok (polish_true_note hsame)

theorem polish_note_inert_product :
    polish .absent "2x".toList = .ok ("2x".toList ++ unchangedNote) ∧
      (polish .absent "2x".toList >>= polish .absent) = polish .absent "2x".toList := by
  have hnoted : polish .absent "2x".toList = .ok ("2x".toList ++ unchangedNote) := by
    decide +kernel
  exact ⟨hnoted, (polish_note_inert "2x".toList).2 hnoted⟩

end WorksheetTex
