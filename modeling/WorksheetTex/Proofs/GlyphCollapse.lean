import WorksheetTex.Proofs.DepthLimit
import WorksheetTex.Proofs.GlyphScan
import WorksheetTex.Proofs.Rounds

namespace WorksheetTex

open Text Tex Paren Vocabulary Form Evaluation

namespace Vocabulary

structure Lexicon.GlyphFree (lex : Lexicon) : Prop where
  values : lex.All fun t => replaceGlyphs t = t
  function {name : Text} : 'ο' ∉ name →
    lex.function (replaceGlyphs name) = replaceGlyphs (lex.function name)

theorem mem_lowerFrom {x : Char} (hx : mapCase lowerSeveral lowerRuns x = [x]) (hsigma : x ≠ 'Σ')
    (before : Text) {t : Text} (h : x ∈ t) : x ∈ lowerFrom before t := by
  induction t generalizing before with
  | nil => cases h
  | cons d t ih =>
      rw [lowerFrom]
      rcases List.mem_cons.mp h with rfl | h
      · rw [if_neg hsigma, hx]
        exact List.mem_append_left _ (List.mem_singleton_self x)
      · exact List.mem_append_right _ (ih (d :: before) h)

theorem function_of_commandHead {name : Text} {x : Char} (hx : isCommandHead x = true)
    (h : x ∈ name) : (Lexicon.ofDeclarations {}).function name = name := by
  have hunknown {key : Text} (hkey : x ∈ key) : defaultFunctions.lookup key = none := by
    refine List.lookup_eq_none_iff.mpr fun e he => bne_iff_ne.mpr ?_
    rintro rfl
    have hall : defaultFunctions.all (·.1.all (!isCommandHead ·)) = true := by decide
    have := List.all_eq_true.mp (List.all_eq_true.mp hall e he) x hkey
    rw [hx] at this
    cases this
  have hlower : x ∈ lower name := by
    rcases eq_of_isCommandHead hx with rfl | rfl | rfl
    · exact mem_lowerFrom (by decide +kernel) (by decide) [] h
    · exact mem_lowerFrom (by decide +kernel) (by decide) [] h
    · exact mem_lowerFrom (by decide +kernel) (by decide) [] h
  change ((defaultFunctions.lookup name).or (defaultFunctions.lookup (lower name))).getD _ = _
  rw [hunknown h, hunknown hlower]
  rfl

theorem glyphFree_default : (Lexicon.ofDeclarations {}).GlyphFree := by
  have hvalues : (Lexicon.ofDeclarations {}).All fun t => replaceGlyphs t = t := by
    have hascii : (Lexicon.ofDeclarations {}).All fun t => t.all isAscii = true :=
      Lexicon.all_ofDeclarations (by decide +kernel) (by simp)
    exact hascii.mono fun t => replaceGlyphs_ascii
  refine ⟨hvalues, fun {name} ho => ?_⟩
  by_cases hstable : ∀ c ∈ name, glyph c = [c]
  · have hname := replaceGlyphs_of_stable hstable
    rw [hname, hvalues.function (P := fun t => replaceGlyphs t = t) hname]
  · obtain ⟨c, hc, hne⟩ : ∃ c ∈ name, glyph c ≠ [c] := by
      simpa only [not_forall, exists_prop] using hstable
    have hglyph : IsGlyph c := List.mem_map.mpr ⟨_, (glyph_cases c).resolve_left hne, rfl⟩
    obtain ⟨x, r, hr, hx⟩ := ((glyph_head c).resolve_left hne).resolve_left
      fun h => ho (h ▸ hc)
    have hmem : x ∈ replaceGlyphs name := List.mem_flatMap.mpr ⟨c, hc, by simp [hr]⟩
    rw [hglyph.lacks_default.function hc, function_of_commandHead hx hmem]

theorem mem_replaceGlyphs_slot {t : Text} : '#' ∈ replaceGlyphs t ↔ '#' ∈ t := by
  have hall : ∀ p ∈ glyphs, '#' ∉ p.2 := by decide
  constructor
  · intro h
    obtain ⟨c, hc, hmem⟩ := mem_replaceGlyphs h
    rcases glyph_cases c with hg | hg
    · rw [hg, List.mem_singleton] at hmem
      exact hmem ▸ hc
    · exact absurd hmem (hall _ hg)
  · exact fun h => List.mem_flatMap.mpr ⟨'#', h, by rw [glyph_ascii rfl]; simp⟩

theorem fillSlots_replaceGlyphs (template : Text) {argument : Text}
    (h : replaceGlyphs argument = argument) :
    fillSlots (replaceGlyphs template) argument = replaceGlyphs (fillSlots template argument) := by
  induction template with
  | nil => rfl
  | cons c t ih =>
      have hstep : fillSlots (c :: t) argument =
          (if c = '#' then argument else [c]) ++ fillSlots t argument := rfl
      rw [replaceGlyphs_cons, fillSlots_append, hstep, replaceGlyphs_append, ih]
      congr 1
      by_cases hc : c = '#'
      · subst hc
        rw [if_pos rfl, h, glyph_ascii rfl]
        simp [fillSlots]
      · have hslot : '#' ∉ replaceGlyphs [c] :=
          fun h => hc (List.mem_singleton.mp (mem_replaceGlyphs_slot.mp h)).symm
        rw [replaceGlyphs_cons, replaceGlyphs_nil, List.append_nil] at hslot
        rw [if_neg hc, fillSlots_of_not_mem hslot, replaceGlyphs_cons, replaceGlyphs_nil,
          List.append_nil]

theorem applyTemplate_replaceGlyphs (template : Text) {argument : Text}
    (h : replaceGlyphs argument = argument) :
    applyTemplate (replaceGlyphs template) argument =
      replaceGlyphs (applyTemplate template argument) := by
  have hslot : (replaceGlyphs template).contains '#' = template.contains '#' := by
    rw [Bool.eq_iff_iff, List.contains_iff_mem, List.contains_iff_mem, mem_replaceGlyphs_slot]
  rw [applyTemplate, applyTemplate, hslot]
  split
  · exact fillSlots_replaceGlyphs template h
  · rw [replaceGlyphs_append, replaceGlyphs_append, replaceGlyphs_append, h]
    rfl

theorem composes_stable : Composes fun t => replaceGlyphs t = t where
  assembles := by
    refine assembles_of_ascii ?_ replaceGlyphs_ascii
    intro s t _ _ hs ht
    rw [replaceGlyphs_append, hs, ht]
  slots := by
    intro s t hs ht
    rw [← fillSlots_replaceGlyphs s ht, hs]

end Vocabulary

namespace Evaluation

section Pieces

variable {lex : Lexicon} (hlex : lex.GlyphFree)

include hlex

theorem labelPiece_replaceGlyphs (kind name : Text) :
    labelPiece lex kind (replaceGlyphs name) = replaceGlyphs (labelPiece lex kind name) := by
  have hname : replaceGlyphs (replaceGlyphs name) = replaceGlyphs name := replaceGlyphs_idem name
  rw [labelPiece, labelPiece, hname]
  cases LabelKind.ofName? kind with
  | none => exact hname.symm
  | some kind =>
      exact (hlex.values.label (P := fun t => replaceGlyphs t = t) hname
        (composes_stable.upright hname) (composes_stable.operatorName hname) kind).symm

theorem applyPiece_replaceGlyphs {name : Text} (ho : 'ο' ∉ name) (items : List Text) :
    applyPiece lex (replaceGlyphs name) (items.map replaceGlyphs) =
      replaceGlyphs (applyPiece lex name items) := by
  have hitems : (items.map replaceGlyphs).map replaceGlyphs = items.map replaceGlyphs := by
    rw [List.map_map]
    exact List.map_congr_left fun t _ => replaceGlyphs_idem t
  have hargument : replaceGlyphs (joinWith ", " (items.map replaceGlyphs)) =
      joinWith ", " (items.map replaceGlyphs) := by
    rw [← joinWith_replaceGlyphs rfl, hitems]
  rw [applyPiece, applyPiece, hitems, hlex.function ho, applyTemplate_replaceGlyphs _ hargument]

end Pieces

section Scans

theorem bind_transfer {α α' γ γ' : Type} {x : Option α} {y : Option α'} {g : α → α'}
    {k : α → Option γ} {k' : α' → Option γ'} {f : γ → γ'} (hx : y = x.map g)
    (hk : ∀ a, x = some a → k' (g a) = (k a).map f) : y.bind k' = (x.bind k).map f := by
  cases x with
  | none =>
      rw [hx]
      rfl
  | some a =>
      rw [hx]
      exact hk a rfl

def Carries (scan : Scan) : Prop :=
  ∀ t, 'ο' ∉ t → scan (replaceGlyphs t) =
    (scan t).map fun found => (replaceGlyphs found.1, replaceGlyphs found.2)

theorem carries_bareTagScan : Carries bareTagScan := by
  intro t _
  refine bind_transfer (dropPrefix?_replaceGlyphs (by decide) t) fun r _ => ?_
  refine bind_transfer (takeRun?_replaceGlyphs fun c _ => respects_isTagCapital c) fun run _ => ?_
  exact congrArg (fun r => some ([], r)) (trimStart_replaceGlyphs run.2)

theorem carries_operatorScan : Carries operatorScan := by
  intro t _
  cases hop : operator? t with
  | none =>
      rw [operatorScan, operatorScan, hop]
      cases hraised : operator? (replaceGlyphs t) with
      | none => rfl
      | some op =>
          obtain ⟨-, c, r, g, rfl, hg⟩ := exists_raised hop hraised
          have hdrop : (replaceGlyphs ('(' :: c :: r)).drop 2 = '{' :: (g ++ replaceGlyphs r) := by
            rw [replaceGlyphs_cons_ascii rfl, replaceGlyphs_cons, hg]
            rfl
          rw [hdrop, spacedItems?_of_not_blank (by decide)]
          rfl
  | some op =>
      obtain ⟨r, rfl⟩ := exists_of_operator? hop
      refine bind_transfer (g := id) ?_ fun op' _ => ?_
      · rw [Option.map_id, id, operator?_replaceGlyphs hop, hop]
      rw [replaceGlyphs_form]
      refine bind_transfer (spacedItems?_replaceGlyphs r) fun found _ => ?_
      refine bind_transfer (dropPrefix?_replaceGlyphs (by decide) found.2) fun rest _ => ?_
      refine bind_transfer ?_ fun piece hpiece => rfl
      rw [Operator.render_replaceGlyphs]
      rfl

section Pieces

variable {lex : Lexicon} (hlex : lex.GlyphFree)

include hlex

theorem carries_labelScan : Carries (labelScan lex) := by
  intro t ho
  refine bind_transfer (dropPrefix?_replaceGlyphs (by decide) t) fun r₁ h₁ => ?_
  refine bind_transfer (dropBlanks?_replaceGlyphs r₁) fun r₂ h₂ => ?_
  have hlatin : ∀ c ∈ r₂, Respects isLatin c := by
    obtain rfl := eq_of_dropPrefix? h₁
    obtain ⟨b, -, -, rfl⟩ := eq_of_dropBlanks? h₂
    intro c hc
    refine respects_isLatin fun hco => ho (hco ▸ ?_)
    exact List.mem_append_right _ (List.mem_append_right _ hc)
  refine bind_transfer (takeRun?_replaceGlyphs hlatin) fun run h₃ => ?_
  refine bind_transfer (dropBlanks?_replaceGlyphs run.2) fun r₃ _ => ?_
  refine bind_transfer (takeRun?_replaceGlyphs fun c _ => respects_isAtomic c) fun run' _ => ?_
  refine bind_transfer (dropPrefix?_replaceGlyphs (by decide) run'.2) fun rest _ => ?_
  have hkind : replaceGlyphs run.1 = run.1 := by
    refine replaceGlyphs_ascii (List.all_eq_true.mpr fun c hc => ?_)
    exact isAscii_of_isLatin ((eq_of_takeRun? h₃).2.1 c hc)
  exact congrArg (fun piece => some (piece, replaceGlyphs rest))
    ((congrArg (labelPiece lex · _) hkind).trans (labelPiece_replaceGlyphs hlex run.1 run'.1))

theorem carries_applyScan : Carries (applyScan lex) := by
  intro t ho
  refine bind_transfer (dropPrefix?_replaceGlyphs (by decide) t) fun r₁ h₁ => ?_
  refine bind_transfer (dropBlanks?_replaceGlyphs r₁) fun r₂ h₂ => ?_
  refine bind_transfer (takeRun?_replaceGlyphs fun c _ => respects_isAtomic c) fun run h₃ => ?_
  refine bind_transfer (dropBlanks?_replaceGlyphs run.2) fun r₃ _ => ?_
  refine bind_transfer (dropPrefix?_replaceGlyphs (by decide) r₃) fun r₄ _ => ?_
  refine bind_transfer (spacedItems?_replaceGlyphs r₄) fun found _ => ?_
  refine bind_transfer (dropPrefix?_replaceGlyphs (by decide) found.2) fun rest _ => ?_
  have hname : 'ο' ∉ run.1 := by
    obtain rfl := eq_of_dropPrefix? h₁
    obtain ⟨b, -, -, rfl⟩ := eq_of_dropBlanks? h₂
    obtain ⟨-, -, rfl⟩ := eq_of_takeRun? h₃
    exact fun hmem => ho (by simp [hmem])
  exact congrArg (fun piece => some (piece, replaceGlyphs rest))
    (applyPiece_replaceGlyphs hlex hname found.1)

end Pieces

end Scans

structure Transfers {β : Type} (m : Char) (I : Text → Prop) (rule : Rule β) (f : β → β) :
    Prop where
  isLocal : rule.IsLocal
  opens {c : Char} (r : Text) : c ≠ m → rule [] (c :: r) = none
  apart : ∀ p ∈ glyphs, m ∉ p.2
  rest {s t : Text} : I (s ++ t) → I t
  miss {t : Text} : I t → rule [] t = none → rule [] (replaceGlyphs t) = none
  hit {t : Text} {n : Nat} {b : β} : I t → rule [] t = some (n, b) →
    ∃ s r, t = m :: s ++ r ∧ n = (m :: s).length ∧
      rule [] (replaceGlyphs t) = some ((replaceGlyphs (m :: s)).length, f b)

def replacedSegment {β : Type} (f : β → β) : Segment β → List (Segment β)
  | .keep c => (glyph c).map .keep
  | .hit b => [.hit (f b)]

section Segments

variable {β : Type} {m : Char} {I : Text → Prop} {rule : Rule β} {f : β → β}

theorem segments_flat (hlocal : rule.IsLocal) {s : Text}
    (hs : ∀ x ∈ s, ∀ r, rule [] (x :: r) = none) (t : Text) :
    segments rule (s ++ t) = s.map .keep ++ segments rule t := by
  induction s with
  | nil => rfl
  | cons c s ih =>
      rw [List.cons_append, segments_keep hlocal (hs c (by simp) _),
        ih fun x hx => hs x (by simp [hx])]
      rfl

theorem segments_replaceGlyphs (h : Transfers m I rule f) {t : Text} (ht : I t) :
    segments rule (replaceGlyphs t) = (segments rule t).flatMap (replacedSegment f) := by
  induction hn : t.length using Nat.strongRecOn generalizing t with
  | ind n ih =>
      cases t with
      | nil => rfl
      | cons c t =>
          cases hrule : rule [] (c :: t) with
          | none =>
              have hrest := ih t.length (by simp at hn; omega) (h.rest (s := [c]) ht) rfl
              rw [segments_keep h.isLocal hrule, List.flatMap_cons, ← hrest, replaceGlyphs_cons]
              rcases glyph_cases c with hc | hc
              · have hmiss := h.miss ht hrule
                rw [replaceGlyphs_cons, hc, List.singleton_append] at hmiss
                rw [hc, List.singleton_append, segments_keep h.isLocal hmiss, replacedSegment, hc]
                rfl
              · refine segments_flat h.isLocal (fun x hx r => h.opens r ?_) _
                rintro rfl
                exact h.apart _ hc hx
          | some answer =>
              obtain ⟨k, b⟩ := answer
              obtain ⟨s, r, hsr, rfl, hhit⟩ := h.hit ht hrule
              have hshort : r.length < n := by
                have := congrArg List.length hsr
                simp at this hn
                omega
              rw [hsr] at ht hrule hhit ⊢
              rw [replaceGlyphs_append] at hhit ⊢
              rw [segments_hit h.isLocal (replaceGlyphs_ne_nil (by simp)) hhit,
                segments_hit h.isLocal (by simp) hrule, List.flatMap_cons,
                ih r.length hshort (h.rest ht) rfl]
              rfl

end Segments

theorem stow_keeps (pieces : List Text) (s : Text) (segs : List (Segment Text)) :
    stow pieces (s.map .keep ++ segs) = (s ++ (stow pieces segs).1, (stow pieces segs).2) := by
  induction s with
  | nil => rfl
  | cons c s ih =>
      rw [List.map_cons, List.cons_append, stow, ih]
      rfl

theorem stow_replaced (pieces : List Text) (segs : List (Segment Text)) :
    stow (pieces.map replaceGlyphs) (segs.flatMap (replacedSegment replaceGlyphs)) =
      (replaceGlyphs (stow pieces segs).1, (stow pieces segs).2.map replaceGlyphs) := by
  induction segs generalizing pieces with
  | nil => rfl
  | cons seg segs ih =>
      rw [List.flatMap_cons]
      cases seg with
      | keep c =>
          rw [replacedSegment, stow_keeps, ih, stow, replaceGlyphs_cons]
      | hit p =>
          have hmore : pieces.map replaceGlyphs ++ [replaceGlyphs p] =
              (pieces ++ [p]).map replaceGlyphs := by simp
          rw [replacedSegment, List.singleton_append, stow, stow, hmore, ih, List.length_map,
            replaceGlyphs_append, replaceGlyphs_reference]

theorem flatMap_text_replaced (segs : List (Segment Text)) :
    (segs.flatMap (replacedSegment replaceGlyphs)).flatMap Segment.text =
      replaceGlyphs (segs.flatMap Segment.text) := by
  induction segs with
  | nil => rfl
  | cons seg segs ih =>
      rw [List.flatMap_cons, List.flatMap_append, ih, List.flatMap_cons, replaceGlyphs_append]
      congr 1
      cases seg with
      | keep c => simp [replacedSegment, Segment.text, List.flatMap_map]
      | hit p => simp [replacedSegment, Segment.text]

theorem transfers_of_scan {scan : Scan} (hscan : Carries scan)
    (hform : ∀ {t p r : Text}, scan t = some (p, r) → ∃ s, t = '(' :: s ++ r) :
    Transfers '(' ('ο' ∉ ·) scan.rule replaceGlyphs where
  isLocal _ _ := rfl
  opens := by
    intro c r hc
    rw [Scan.rule]
    cases hfound : scan (c :: r) with
    | none => rfl
    | some found =>
        obtain ⟨s, hs⟩ := hform hfound
        exact absurd (List.cons.inj hs).1 hc
  apart := by decide
  rest ht hmem := ht (List.mem_append_right _ hmem)
  miss := by
    intro t ht hmiss
    rw [Scan.rule, Option.map_eq_none_iff] at hmiss
    rw [Scan.rule, hscan t ht, hmiss]
    rfl
  hit := by
    intro t n p ht hhit
    rw [Scan.rule, Option.map_eq_some_iff] at hhit
    obtain ⟨⟨p, r⟩, hfound, heq⟩ := hhit
    obtain ⟨rfl, rfl⟩ := Prod.mk.inj heq
    obtain ⟨s, rfl⟩ := hform hfound
    refine ⟨s, r, rfl, consumed_append _ r, ?_⟩
    rw [Scan.rule, hscan _ ht, hfound, replaceGlyphs_append, Option.map_some, Option.map_some,
      consumed_append]

section Rules

variable {lex : Lexicon} (hlex : lex.GlyphFree)

theorem transfers_operatorRule : Transfers '(' ('ο' ∉ ·) operatorRule replaceGlyphs :=
  transfers_of_scan carries_operatorScan fun h => by
    obtain ⟨op, c, body, items, -, -, rfl, -⟩ := eq_of_operatorScan h
    exact ⟨op.symbol :: c :: body ++ [')'], by simp⟩

theorem transfers_bareTagRule : Transfers '(' ('ο' ∉ ·) bareTagRule replaceGlyphs :=
  transfers_of_scan carries_bareTagScan fun h => by
    obtain ⟨w, b, -, -, rfl, -⟩ := eq_of_bareTagScan h
    exact ⟨"@" ++ w ++ b, by simp⟩

include hlex

theorem transfers_labelRule : Transfers '(' ('ο' ∉ ·) (labelRule lex) replaceGlyphs :=
  transfers_of_scan (carries_labelScan hlex) fun h => by
    obtain ⟨b, kind, b', name, -, -, -, rfl, -⟩ := eq_of_labelScan h
    exact ⟨"@LABEL" ++ b ++ kind ++ b' ++ name ++ ")", by simp⟩

theorem transfers_applyRule : Transfers '(' ('ο' ∉ ·) (applyRule lex) replaceGlyphs :=
  transfers_of_scan (carries_applyScan hlex) fun h => by
    obtain ⟨b, name, b', c, body, items, -, -, -, -, rfl, -⟩ := eq_of_applyScan h
    exact ⟨"@APPLY" ++ b ++ name ++ b' ++ "(@ARGS" ++ (c :: body) ++ "))", by simp⟩

end Rules

theorem dropTags_replaceGlyphs {t : Text} (ht : 'ο' ∉ t) :
    dropTags (replaceGlyphs t) = replaceGlyphs (dropTags t) := by
  rw [dropTags, replaceAll, segments_replaceGlyphs transfers_bareTagRule ht]
  exact flatMap_text_replaced (segments bareTagRule t)

theorem State.Descends.replaceGlyphs_eq_iff {s s' : State} (h : s.Descends s') :
    replaceGlyphs s'.text = replaceGlyphs s.text ↔ s'.text = s.text := by
  refine ⟨fun heq => Decidable.not_not.mp fun hne => ?_, congrArg replaceGlyphs⟩
  have hlt := h.count_lt hne
  rw [← count_replaceGlyphs s'.text, heq, count_replaceGlyphs] at hlt
  exact Nat.lt_irrefl _ hlt

namespace State

def replaced (s : State) : State :=
  ⟨replaceGlyphs s.text, s.pieces.map replaceGlyphs⟩

section Apply

variable {s : State} {rule : Rule Text}
  (hrule : Transfers '(' ('ο' ∉ ·) rule replaceGlyphs) (hs : 'ο' ∉ s.text)

include hs

theorem not_mem_apply (rule : Rule Text) : 'ο' ∉ (s.apply rule).text := by
  have homicron : IsGlyph 'ο' := by decide
  exact fun hmem => hs (mem_of_keep_mem (mem_of_mem_stow homicron.isBreak hmem))

include hrule

theorem apply_replaced : s.replaced.apply rule = (s.apply rule).replaced := by
  rw [apply, replaced, segments_replaceGlyphs hrule hs, stow_replaced]
  rfl

end Apply

section Round

variable {lex : Lexicon} (hlex : lex.GlyphFree) {s : State} (hs : 'ο' ∉ s.text)

include hs

theorem not_mem_round (lex : Lexicon) : 'ο' ∉ (s.round lex).text :=
  not_mem_apply (not_mem_apply (not_mem_apply hs _) _) _

theorem not_mem_settleWithin (lex : Lexicon) (n : Nat) : 'ο' ∉ (s.settleWithin lex n).text :=
  settleWithin_induct (S := fun s => 'ο' ∉ s.text) (fun _ hs => not_mem_round hs lex) hs n

include hlex

theorem round_replaced : s.replaced.round lex = (s.round lex).replaced := by
  have hlabel := not_mem_apply hs (labelRule lex)
  rw [round, apply_replaced (transfers_labelRule hlex) hs,
    apply_replaced (transfers_applyRule hlex) hlabel,
    apply_replaced transfers_operatorRule (not_mem_apply hlabel _)]
  rfl

theorem settleWithin_replaced (n : Nat) :
    s.replaced.settleWithin lex n = (s.settleWithin lex n).replaced := by
  induction n generalizing s with
  | zero => rfl
  | succ n ih =>
      have hsame : (s.round lex).replaced.text = s.replaced.text ↔
          (s.round lex).text = s.text := (descends_round lex s).replaceGlyphs_eq_iff
      rw [settleWithin, settleWithin, round_replaced hlex hs, ih (not_mem_round hs lex)]
      by_cases h : (s.round lex).text = s.text
      · rw [if_pos h, if_pos (hsame.mpr h)]
      · rw [if_neg h, if_neg (mt hsame.mp h)]

theorem settle_replaced : s.replaced.settle lex = (s.settle lex).replaced := by
  have hcount : s.replaced.text.count '(' = s.text.count '(' := count_replaceGlyphs s.text
  rw [settle, settle, hcount, settleWithin_replaced hlex hs]

end Round

end State

theorem collapsed_replaceGlyphs {lex : Lexicon} (hlex : lex.GlyphFree) {e : Text} (he : 'ο' ∉ e) :
    collapsed lex (replaceGlyphs e) = (collapsed lex e).replaced := by
  have hbalance (t : Text) : balance (replaceGlyphs t) = replaceGlyphs (balance t) :=
    balanceFrom_replaceGlyphs 0 t
  have hmem {t : Text} (ht : 'ο' ∉ t) : 'ο' ∉ balance t :=
    fun hmem => ht (mem_of_mem_balanceFrom (by decide) hmem)
  let s : State := ⟨balance e, []⟩
  have hs : 'ο' ∉ s.text := hmem he
  have hstart : State.settle lex ⟨balance (replaceGlyphs e), []⟩ = (s.settle lex).replaced := by
    rw [hbalance]
    exact State.settle_replaced hlex hs
  have hsettled : 'ο' ∉ (s.settle lex).text := State.not_mem_settleWithin hs lex _
  have hagain : 'ο' ∉ balance (dropTags (s.settle lex).text) :=
    hmem fun h => hsettled (mem_of_mem_dropTags h)
  rw [collapsed, hstart]
  change State.settle lex ⟨balance (dropTags (replaceGlyphs (s.settle lex).text)),
    (s.settle lex).pieces.map replaceGlyphs⟩ = _
  rw [dropTags_replaceGlyphs hsettled, hbalance]
  exact State.settle_replaced (s := ⟨balance (dropTags (s.settle lex).text), _⟩) hlex hagain

section Expansion

theorem referenceRule_of_ne {c : Char} (hc : c ≠ openMark) (r : Text) :
    referenceRule [] (c :: r) = none := by
  simp [referenceRule, hc]

theorem referenceRule_replaceGlyphs (t : Text) :
    referenceRule [] (replaceGlyphs t) = referenceRule [] t := by
  cases t with
  | nil => rfl
  | cons c t =>
      by_cases hc : c = openMark
      · subst hc
        have hopen : replaceGlyphs (openMark :: t) = openMark :: replaceGlyphs t := by
          rw [replaceGlyphs_cons, show glyph openMark = [openMark] by decide]
          rfl
        have hdigits : replaceGlyphs (t.takeWhile Char.isDigit) = t.takeWhile Char.isDigit :=
          replaceGlyphs_ascii (List.all_eq_true.mpr fun c hc =>
            (isAtomic_of_isDigit (List.all_eq_true.mp List.all_takeWhile c hc)).2)
        obtain ⟨htake, hdrop⟩ := span_replaceGlyphs (t := t) fun c _ => respects_isDigit c
        have hclose := head?_replaceGlyphs_eq_iff (c := closeMark) (by decide)
          (t.dropWhile Char.isDigit)
        simp only [hopen, referenceRule, drop_length_takeWhile]
        simp only [htake, hdrop, hdigits, hclose]
      · obtain ⟨x, r, hr⟩ := List.exists_cons_of_ne_nil (glyph_ne_nil c)
        have hx : x ≠ openMark := by
          rintro rfl
          rcases glyph_cases c with hg | hg
          · rw [hr] at hg
            exact hc (List.cons.inj hg).1.symm
          · have hall : ∀ p ∈ glyphs, openMark ∉ p.2 := by decide
            exact hall _ hg (by simp [hr])
        rw [replaceGlyphs_cons, hr, List.cons_append, referenceRule_of_ne hx,
          referenceRule_of_ne hc]

theorem transfers_referenceRule : Transfers openMark (fun _ => True) referenceRule id where
  isLocal := isLocal_referenceRule
  opens r hc := referenceRule_of_ne hc r
  apart := by decide
  rest _ := trivial
  miss _ h := (referenceRule_replaceGlyphs _).trans h
  hit := by
    intro t n b _ h
    obtain ⟨ds, r, rfl, hds, heq⟩ := eq_of_referenceRule h
    obtain ⟨rfl, rfl⟩ := Prod.mk.inj heq
    have hstable : replaceGlyphs (openMark :: (ds ++ [closeMark])) =
        openMark :: (ds ++ [closeMark]) := by
      refine replaceGlyphs_of_stable fun c hc => ?_
      simp only [List.mem_cons, List.mem_append, List.not_mem_nil, or_false] at hc
      rcases hc with rfl | hc | rfl
      · decide
      · exact glyph_ascii (isAtomic_of_isDigit (hds c hc)).2
      · decide
    refine ⟨ds ++ [closeMark], r, by simp, by simp, ?_⟩
    rw [referenceRule_replaceGlyphs, h, hstable]
    simp

def gather {β : Type} (f : Segment β → Except Fault Text) (segs : List (Segment β)) :
    Except Fault Text :=
  (segs.mapM f).map List.flatten

theorem gather_cons {β : Type} (f : Segment β → Except Fault Text) (seg : Segment β)
    (segs : List (Segment β)) :
    gather f (seg :: segs) = f seg >>= fun t => (gather f segs).map (t ++ ·) := by
  rw [gather, gather, List.mapM_cons]
  cases f seg with
  | error x => rfl
  | ok t => cases segs.mapM f <;> rfl

theorem gather_keeps {β : Type} {f : Segment β → Except Fault Text}
    (hf : ∀ c, f (.keep c) = .ok [c]) (s : Text) (segs : List (Segment β)) :
    gather f (s.map .keep ++ segs) = (gather f segs).map (s ++ ·) := by
  induction s with
  | nil =>
      rw [List.map_nil, List.nil_append]
      cases gather f segs <;> rfl
  | cons c s ih =>
      rw [List.map_cons, List.cons_append, gather_cons, hf, ih]
      cases gather f segs <;> rfl

theorem gather_replaced {β : Type} {f f' : Segment β → Except Fault Text} {g : β → β}
    (hf : ∀ c, f (.keep c) = .ok [c]) (hf' : ∀ c, f' (.keep c) = .ok [c])
    (hhit : ∀ b, f' (.hit (g b)) = (f (.hit b)).map replaceGlyphs) (segs : List (Segment β)) :
    gather f' (segs.flatMap (replacedSegment g)) = (gather f segs).map replaceGlyphs := by
  induction segs with
  | nil => rfl
  | cons seg segs ih =>
      rw [List.flatMap_cons, gather_cons]
      cases seg with
      | keep c =>
          rw [replacedSegment, gather_keeps hf', ih, hf]
          cases gather f segs with
          | error x => rfl
          | ok t => exact congrArg Except.ok (replaceGlyphs_cons c t).symm
      | hit b =>
          rw [replacedSegment, List.singleton_append, gather_cons, ih, hhit]
          cases f (.hit b) with
          | error x => rfl
          | ok t =>
              cases gather f segs with
              | error x => rfl
              | ok u => exact congrArg Except.ok (replaceGlyphs_append t u).symm

theorem expand_replaceGlyphs (pieces : List Text) (fuel : Nat) (t : Text) :
    expand (pieces.map replaceGlyphs) fuel (replaceGlyphs t) =
      (expand pieces fuel t).map replaceGlyphs := by
  induction fuel generalizing t with
  | zero => rfl
  | succ fuel ih =>
      rw [expand, segments_replaceGlyphs transfers_referenceRule trivial]
      refine gather_replaced (g := id) (fun _ => rfl) (fun _ => rfl) (fun n => ?_) _
      simp only [id, List.getElem?_map]
      cases pieces[n]? with
      | none => rfl
      | some piece => exact ih piece

theorem collapse_replaceGlyphs {lex : Lexicon} (hlex : lex.GlyphFree) {e : Text} (he : 'ο' ∉ e) :
    collapse lex (replaceGlyphs e) = (collapse lex e).map replaceGlyphs := by
  rw [collapse_eq_collapsed, collapse_eq_collapsed, collapsed_replaceGlyphs hlex he, expandAll,
    expandAll, State.replaced, List.length_map, expand_replaceGlyphs]
  cases expand (collapsed lex e).pieces _ (collapsed lex e).text with
  | error x => rfl
  | ok t => exact congrArg Except.ok (collapseBlanks_replaceGlyphs t)

end Expansion

end Evaluation

end WorksheetTex
