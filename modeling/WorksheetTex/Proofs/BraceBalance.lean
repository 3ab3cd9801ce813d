import WorksheetTex.Conversion
import WorksheetTex.Proofs.Brace
import WorksheetTex.Proofs.Layer
import WorksheetTex.Proofs.Sweep

namespace WorksheetTex

open Text Tex Paren Vocabulary Form Evaluation

namespace Evaluation

section Sweep

variable {rule : Rule Text}

theorem Rewrites.induct_neat {P : Text → Prop} (hrule : Rewrites Neat P rule)
    {motive : Nat → Text → Prop} (nil : motive 0 [])
    (keep : ∀ d e c t, braceStep isAtomic d c = some e → rule [] (c :: t) = none → motive e t →
      motive d (c :: t))
    (hit : ∀ s t p, s ≠ [] → rule [] (s ++ t) = some (s.length, p) → P p → motive 0 t →
      motive 0 (s ++ t))
    {d : Nat} {t : Text} (ht : braceDepth isAtomic d t = some 0) : motive d t := by
  induction hn : t.length using Nat.strongRecOn generalizing d t with
  | ind n ih =>
      cases t with
      | nil =>
          obtain rfl := Option.some.inj ht
          exact nil
      | cons c t =>
          obtain ⟨e, hstep, hrest⟩ := Option.bind_eq_some_iff.mp ht
          cases hhit : rule [] (c :: t) with
          | none => exact keep d e c t hstep hhit (ih t.length (by simp at hn; omega) hrest rfl)
          | some answer =>
              obtain rfl : c = '(' := by
                by_contra hc
                rw [hrule.opens t hc] at hhit
                cases hhit
              obtain ⟨rfl, rfl⟩ := eq_zero_of_braceStep not_isAtomic_parens.1 hstep
              obtain ⟨s, r, p, hsr, hanswer, hr, hp⟩ := hrule.exists_hit ht hhit
              have hshort : r.length < n := by
                have := congrArg List.length hsr
                simp at this hn
                omega
              rw [hsr] at hhit ⊢
              rw [hanswer] at hhit
              exact hit ('(' :: s) r p (by simp) hhit hp (ih r.length hshort hr rfl)

theorem braceDepth_reference (n d : Nat) (t : Text) :
    braceDepth isAtomic d (reference n ++ t) = braceDepth isAtomic d t := by
  refine braceDepth_flat (fun c hc => ⟨?_, ?_, ?_⟩) d t
  · rintro rfl
    exact not_mem_reference ⟨by decide, by decide, by decide⟩ n hc
  · rintro rfl
    exact not_mem_reference ⟨by decide, by decide, by decide⟩ n hc
  · by_contra hatomic
    exact not_mem_reference (isBreak_of_not_isAtomic (by simpa using hatomic)) n hc

theorem sweep_neat (hrule : Rewrites Neat Braced rule) {pieces : List Text} {d : Nat} {t : Text}
    (ht : braceDepth isAtomic d t = some 0) (hp : ∀ p ∈ pieces, Braced p) :
    braceDepth isAtomic d (sweep rule pieces t).1 = some 0 ∧
      ∀ p ∈ (sweep rule pieces t).2, Braced p := by
  revert pieces
  refine hrule.induct_neat (motive := fun d t => ∀ {pieces : List Text},
    (∀ p ∈ pieces, Braced p) → braceDepth isAtomic d (sweep rule pieces t).1 = some 0 ∧
      ∀ p ∈ (sweep rule pieces t).2, Braced p) ?nil ?keep ?hit ht
  case nil => exact fun hp => ⟨rfl, hp⟩
  case keep =>
    intro d e c t hstep hnone ih pieces hp
    rw [sweep_keep hrule.toAtForms hnone, braceDepth, hstep]
    exact ih hp
  case hit =>
    intro s t p hs hhit hpiece ih pieces hp
    rw [sweep_hit hrule.toAtForms hs hhit, braceDepth_reference]
    refine ih fun q hq => ?_
    rcases List.mem_append.mp hq with hq | hq
    · exact hp q hq
    · exact List.mem_singleton.mp hq ▸ hpiece

end Sweep

theorem neat_dropTags {t : Text} (h : Neat t) : Neat (dropTags t) := by
  have hrule : Rewrites Neat (fun _ => True) bareTagRule := by
    refine rewrites_bareTagRule hereditary_neat trivial fun c t hc h => ?_
    have hne : c ≠ '{' ∧ c ≠ '}' := by
      constructor <;> rintro rfl <;> revert hc <;> decide
    rw [Neat, braceDepth, braceStep_zero hne.1 hne.2] at h
    exact h
  refine hrule.induct_neat (motive := fun d t => braceDepth isAtomic d (dropTags t) = some 0)
    ?nil ?keep ?hit h
  case nil => rfl
  case keep =>
    intro d e c t hstep hnone ih
    rw [dropTags_keep hnone, braceDepth, hstep]
    exact ih
  case hit =>
    intro s t p hs hhit _ ih
    obtain ⟨_, hscan, -⟩ := Scan.eq_of_rule hhit
    obtain ⟨_, _, _, _, _, rfl⟩ := eq_of_bareTagScan hscan
    rw [dropTags_hit hs hhit]
    exact ih

theorem braceDepth_balanceFrom {d k : Nat} {t : Text} (h : braceDepth isAtomic d t = some 0) :
    braceDepth isAtomic d (balanceFrom k t) = some 0 := by
  induction t generalizing d k with
  | nil =>
      obtain rfl := Option.some.inj h
      refine Neat.of_not_mem ?_ ?_ <;> simp [balanceFrom]
  | cons c t ih =>
      obtain ⟨e, hstep, hrest⟩ := Option.bind_eq_some_iff.mp h
      have hkeep (k : Nat) : braceDepth isAtomic d (c :: balanceFrom k t) = some 0 := by
        rw [braceDepth, hstep]
        exact ih hrest
      rcases paren_cases c with rfl | rfl | hc
      · exact hkeep (k + 1)
      · cases k with
        | zero =>
            obtain ⟨rfl, rfl⟩ := eq_zero_of_braceStep not_isAtomic_parens.2 hstep
            exact ih hrest
        | succ k => exact hkeep k
      · have hbalance : balanceFrom k (c :: t) = c :: balanceFrom k t := by
          simp [balanceFrom, ne_of_not_paren hc]
        rw [hbalance]
        exact hkeep k

structure State.Neat (s : State) : Prop where
  text : Tex.Neat s.text
  pieces : ∀ p ∈ s.pieces, Braced p

section Collapse

variable {lex : Lexicon} (hlex : lex.All Braced)

include hlex

theorem inherits_neat : Inherits lex Neat Braced where
  hereditary := hereditary_neat
  composes := composes_braced
  written := Neat.braced
  lexicon := hlex

theorem neat_collapsed {e : Text} (he : Neat e) : (collapsed lex e).Neat := by
  have h := inherits_neat hlex
  have hglyphs (t : Text) : Neat t → Neat (replaceGlyphs t) := .replaceGlyphs
  have happly {rule : Rule Text} (hrule : Rewrites Neat Braced rule) {s : State} (hs : s.Neat) :
      (s.apply rule).Neat := by
    obtain ⟨htext, hpieces⟩ := sweep_neat hrule hs.text hs.pieces
    exact ⟨htext, hpieces⟩
  refine collapsed_induct ?_ (fun s hs => ?_) fun s hs => ?_
  · exact ⟨braceDepth_balanceFrom he, by simp⟩
  · exact happly (rewrites_operatorRule h hglyphs) (happly (rewrites_applyRule h hglyphs)
      (happly (rewrites_labelRule h hglyphs) hs))
  · exact ⟨braceDepth_balanceFrom (neat_dropTags hs.text), hs.pieces⟩

end Collapse

theorem braced_collapse {lex : Lexicon} (hlex : lex.All Braced) {e t : Text} (he : Neat e)
    (h : collapse lex e = .ok t) : Braced t := by
  have hneat := neat_collapsed hlex he
  have hexpand := tallies_braceDepth.ends_expand ⟨by decide, by decide, by decide⟩
    ⟨by decide, by decide, by decide⟩ (fun p hp => (hneat.pieces p hp).depth)
    ((collapsed lex e).pieces.length + 1) (collapsed lex e).text
  change (expandAll (collapsed lex e).pieces (collapsed lex e).text >>= _) = _ at h
  rw [expandAll] at h
  cases hfilled : expand (collapsed lex e).pieces ((collapsed lex e).pieces.length + 1)
      (collapsed lex e).text with
  | error x =>
      rw [hfilled] at h
      cases h
  | ok u =>
      rw [hfilled] at h hexpand
      obtain rfl := Except.ok.inj h
      rw [Braced, tallies_braceDepth.collapseBlanks (by decide), hexpand]
      exact hneat.text.braced

end Evaluation

namespace Setting

variable (s : Setting) (hlex : s.lexicon.All Braced)

include hlex

theorem ends_typesetWithin_neat (n : Nat) {t : Text} (ht : Neat t) :
    Ends Braced (fun _ => True) (s.typesetWithin n t) := by
  refine s.ends_typesetWithin (I := fun _ => Neat) composes_braced hlex (fun _ => .spaceCommands)
    (fun _ _ => trivial) (fun n t ht => ?_) ht
  have he : Neat (trim t) := hereditary_neat.trim ht
  have hopen {u : Text} (hu : Neat u) (c : Char) (r : Text) (hur : u = '(' :: c :: r)
      (hc : isHead c = true) : Neat r := hereditary_neat.head hc (hur ▸ hu)
  exact Layer.ends_read (inherits_neat hlex) trivial trivial (hopen he) (hopen he.replaceGlyphs)
    he.replaceGlyphs.braced (fun _ hu => braced_collapse hlex he hu) fun _ _ => trivial

theorem ends_report_neat (strict : Bool) {t : Text} (ht : Neat t) :
    Ends (fun r => Braced r.latex) (fun _ => True) (s.report strict t) := by
  refine (s.ends_typesetWithin_neat hlex s.limit.levels ht).bind fun latex hlatex => ?_
  split
  · exact .pure hlatex.spaceCommands
  · exact .ite trivial (.pure hlatex.spaceCommands)

end Setting

theorem braced_default : (Lexicon.ofDeclarations {}).All Braced :=
  Lexicon.all_ofDeclarations (by decide +kernel) (by simp)

theorem typeset_bracesMatch (o : Options) {t latex : Text} (hopen : '{' ∉ t) (hclose : '}' ∉ t)
    (h : typeset (.record
      { o with units := .missing, constants := .missing, functions := .missing }) t = .ok latex) :
    BracesMatch latex := by
  replace h : (Setting.report ⟨.ofDeclarations {}, o.limit⟩ o.isStrict t).map (·.latex) =
    .ok latex := h
  have hends := Setting.ends_report_neat ⟨.ofDeclarations {}, o.limit⟩ braced_default o.isStrict
    (Neat.of_not_mem hopen hclose)
  cases hreport : Setting.report ⟨.ofDeclarations {}, o.limit⟩ o.isStrict t with
  | error x =>
      rw [hreport] at h
      cases h
  | ok r =>
      rw [hreport] at h hends
      obtain rfl := Except.ok.inj h
      exact braced_iff.mp hends

theorem typeset_bracesMatch_clipped :
    ∃ latex, typeset (.record {})
        "(+ (@LABEL FUNCTION Β) (@FOO (@LABEL VARIABLE Α†) (@APPLY sin (@ARGS (/ x y) z".toList =
          .ok latex ∧ '{' ∈ latex ∧ BracesMatch latex := by
  have htypeset : typeset (.record {})
      "(+ (@LABEL FUNCTION Β) (@FOO (@LABEL VARIABLE Α†) (@APPLY sin (@ARGS (/ x y) z".toList =
        .ok (operatorName (upright "B") ++ " + " ++ upright "A" ++ group "\\dagger" ++
          " + \\sin(" ++ frac "x" "y" ++ ", z)") := by decide +kernel
  exact ⟨_, htypeset, by decide, typeset_bracesMatch {} (by decide) (by decide) htypeset⟩

end WorksheetTex
