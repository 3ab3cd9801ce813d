import WorksheetTex.Proofs.Operand

namespace WorksheetTex

open Text Tex Paren Vocabulary Form Evaluation

structure UnknownTag where
  name : Text
  ne_nil : name ≠ []
  capital : ∀ c ∈ name, isTagCapital c = true
  unknown : name ≠ ("LABEL" : Text) ∧ name ≠ ("APPLY" : Text)

namespace UnknownTag

theorem isAtomic_of_isTagCapital {c : Char} (h : isTagCapital c = true) :
    isAtomic c = true ∧ isAscii c = true := by
  rw [isTagCapital, Bool.or_eq_true, beq_iff_eq] at h
  rcases h with h | rfl
  · obtain ⟨hlow, hhigh⟩ := of_decide_eq_true h
    exact isAtomic_of_toNat (Nat.le_trans (by decide) hlow) (Nat.lt_of_le_of_lt hhigh (by decide))
  · decide

def keyword (tag : UnknownTag) : Keyword where
  text := '@' :: tag.name
  ne_nil := by simp
  atomic := by
    refine List.forall_mem_cons.mpr ⟨by decide, fun c hc => ?_⟩
    exact (isAtomic_of_isTagCapital (tag.capital c hc)).1
  ascii := by
    refine List.all_eq_true.mpr (List.forall_mem_cons.mpr ⟨by decide, fun c hc => ?_⟩)
    exact (isAtomic_of_isTagCapital (tag.capital c hc)).2

variable (tag : UnknownTag)

theorem not_blank {c : Char} (h : c ∈ tag.name) : isBlank c = false :=
  tag.keyword.not_blank (List.mem_cons_of_mem _ h)

theorem dropPrefix?_of_ne {w name : Text} (hw : ' ' ∉ w) (hname : ∀ c ∈ name, isBlank c = false)
    (hne : name ≠ w) {α : Type} (f : Text → Option α) (r : Text) :
    ((dropPrefix? w (name ++ ' ' :: r)).bind fun t => (dropBlanks? t).bind f) = none := by
  induction w generalizing name with
  | nil =>
      obtain ⟨c, t, rfl⟩ := List.exists_cons_of_ne_nil hne
      simp [dropPrefix?, dropBlanks?, hname c List.mem_cons_self]
  | cons a w ih =>
      rw [List.mem_cons, not_or] at hw
      cases name with
      | nil => simp [dropPrefix?, Ne.symm hw.1]
      | cons c name =>
          rw [List.cons_append, dropPrefix?]
          split
          · next hac =>
              exact ih hw.2 (fun x hx => hname x (List.mem_cons_of_mem _ hx))
                fun heq => hne (by rw [hac, heq])
          · rfl

theorem rule_eq_none (lex : Lexicon) (pass : Pass) (r : Text) :
    pass.rule lex [] ('(' :: '@' :: (tag.name ++ ' ' :: r)) = none := by
  have hmiss {w : Text} (hw : ' ' ∉ w) (hne : tag.name ≠ w) {α : Type} (f : Text → Option α) :=
    dropPrefix?_of_ne hw (fun c => tag.not_blank) hne f r
  cases pass with
  | label => exact Option.map_eq_none_iff.mpr (hmiss (by decide) tag.unknown.1 _)
  | application => exact Option.map_eq_none_iff.mpr (hmiss (by decide) tag.unknown.2 _)
  | operation => rfl

theorem dropTags_open (a : Atom) (r : Text) :
    dropTags ('(' :: '@' :: (tag.name ++ ' ' :: (a.text ++ r))) = dropTags (a.text ++ r) := by
  have htext : '(' :: '@' :: (tag.name ++ ' ' :: (a.text ++ r)) =
      "(@" ++ (tag.name ++ [' ']) ++ (a.text ++ r) := by simp
  have hrun : takeRun? isTagCapital (tag.name ++ ' ' :: (a.text ++ r)) =
      some (tag.name, ' ' :: (a.text ++ r)) := by
    refine takeRun?_append tag.ne_nil tag.capital fun c hc => ?_
    obtain rfl := Option.some.inj hc
    rfl
  have htrim : trimStart (' ' :: (a.text ++ r)) = a.text ++ r :=
    trimStart_append (g := [' ']) (List.forall_mem_singleton.mpr rfl) (not_blank_head? a r)
  rw [htext]
  refine dropTags_hit (by simp) ?_
  rw [← consumed_append _ (a.text ++ r), bareTagRule, Scan.rule, bareTagScan]
  have hstart : dropPrefix? "(@" ("(@" ++ (tag.name ++ [' ']) ++ (a.text ++ r)) =
      some (tag.name ++ ' ' :: (a.text ++ r)) := by
    rw [List.append_assoc, dropPrefix?_append]
    simp
  simp only [Option.bind_eq_bind, hstart, Option.bind_some, hrun, htrim]
  rfl

end UnknownTag

namespace Evaluation

def tagging (op : Operator) (b : Text) (tag : UnknownTag) (us : List Atom) (a : Text) : Text :=
  enclose [op.symbol] (b ++ ' ' :: (enclose ('@' :: tag.name) (line us) ++ a))

section Tagging

variable {lex : Lexicon} (op : Operator) (tag : UnknownTag)

theorem idle_tag (pass : Pass) {us : List Atom} (hus : us ≠ []) :
    Idle (pass.rule lex) (enclose ('@' :: tag.name) (line us)) := by
  obtain ⟨u, us, rfl⟩ := List.exists_cons_of_ne_nil hus
  have hname : '(' ∉ '@' :: tag.name := tag.keyword.not_mem_open
  refine .open (fun k => ?_) (.of_flat ?_)
  · have := tag.rule_eq_none lex pass (u.text ++ (line us ++ ')' :: k))
    simpa [line, Sexp.printAll, Sexp.print] using this
  · simpa [not_mem_open_line] using hname

theorem runs_tagging {us : List Atom} (hus : us ≠ []) {ps ps' ps'' : List Text} {b b' a a' : Text}
    (hb : Runs (labelRule lex) ps b b' ps') (ha : Runs (labelRule lex) ps' a a' ps'') :
    Runs (labelRule lex) ps (tagging op b tag us a) (tagging op b' tag us a') ps'' := by
  have hrule := atForms_labelRule lex
  have hflat {s : Text} (h : '(' ∉ s) (ps : List Text) : Runs (labelRule lex) ps s s ps :=
    (Idle.of_flat h).runs hrule ps
  have htag : Runs (labelRule lex) ps' (enclose ('@' :: tag.name) (line us)) _ ps' :=
    (idle_tag tag .label hus).runs hrule ps'
  have hspace := hflat (s := [' ']) (by decide) ps'
  refine Runs.open hrule (rule_symbol op .label nofun _) ?_
  exact (hflat (not_mem_open_symbol op) ps).append
    ((hb.append (hspace.append (htag.append ha))).append (hflat (by decide) ps''))

theorem idle_tagging (pass : Pass) {us : List Atom} (hus : us ≠ []) (xs ys : List Atom) :
    Idle (pass.rule lex) (tagging op (line xs) tag us (line ys)) := by
  have hmiss (k : Text) :
      pass.rule lex [] (tagging op (line xs) tag us (line ys) ++ k) = none := by
    by_cases hpass : pass = .operation
    · subst hpass
      have hparen : ∀ c ∈ line xs ++ [' '], isParen c = false := by
        intro c hc
        rcases List.mem_append.mp hc with hc | hc
        · exact not_paren_line xs c hc
        · rw [List.mem_singleton.mp hc]
          rfl
      have := operatorRule_miss op hparen ('@' :: tag.name ++ (line us ++ [')']) ++ line ys) k
      simpa [Pass.rule, tagging, enclose] using this
    · exact Pass.rule_operation hpass op _
  have hline (zs : List Atom) : Idle (pass.rule lex) (line zs) := .of_flat (not_mem_open_line zs)
  have hspace : Idle (pass.rule lex) [' '] := .of_flat (by decide)
  refine Idle.open hmiss ((Idle.of_flat (not_mem_open_symbol op)).append ?_)
  exact ((hline xs).append (hspace.append ((idle_tag tag pass hus).append (hline ys)))).append
    (.of_flat (by decide))

theorem balanced_tagging (us : List Atom) {b a : Text} (hb : Balanced b) (ha : Balanced a) :
    Balanced (tagging op b tag us a) := by
  have hspace : Balanced [' '] := rfl
  have hname : Balanced ('@' :: tag.name) := balanced_flat fun _ hc => tag.keyword.not_paren hc
  have htag := (hname.append (balanced_line us)).enclose
  rw [List.append_assoc] at htag
  exact balanced_operation op (hb.append (hspace.append (htag.append ha)))

theorem balance_dropTags_tagging {us : List Atom} (hus : us ≠ []) (xs ys : List Atom) :
    balance (dropTags (tagging op (line xs) tag us (line ys))) = beside op (xs ++ us) ys := by
  obtain ⟨u, us, rfl⟩ := List.exists_cons_of_ne_nil hus
  have hbefore : '(' ∉ [op.symbol] ++ (line xs ++ [' ']) := by
    simpa [not_mem_open_line] using not_mem_open_symbol op
  have hafter : '(' ∉ u.text ++ (line us ++ (')' :: (line ys ++ [')']))) := by
    simp [not_mem_open_line, u.not_mem_open]
  have htext : tagging op (line xs) tag (u :: us) (line ys) =
      '(' :: ([op.symbol] ++ (line xs ++ [' ']) ++
        ('(' :: '@' :: (tag.name ++ ' ' :: (u.text ++
          (line us ++ (')' :: (line ys ++ [')']))))))) := by
    simp [tagging, enclose, line, Sexp.printAll, Sexp.print]
  have hmiss (t : Text) : bareTagRule [] ('(' :: ([op.symbol] ++ t)) = none := by
    cases op <;> rfl
  have hend : '(' :: ([op.symbol] ++ (line xs ++ [' ']) ++
      (u.text ++ (line us ++ (')' :: (line ys ++ [')']))))) =
        beside op (xs ++ u :: us) ys ++ List.replicate 1 ')' := by
    simp [beside, enclose, line, Sexp.printAll, Sexp.print, Sexp.printAll_append]
  rw [htext, List.append_assoc, dropTags_keep (hmiss _), ← List.append_assoc,
    dropTags_flat hbefore, tag.dropTags_open, dropTags_of_not_mem hafter, hend]
  exact balance_extended (balanced_beside op _ ys) 1

theorem collapsed_tagging {us : List Atom} (hus : us ≠ []) {xs ys : List Atom} {b a : Text}
    {ps ps' : List Text} (hbalanced : Balanced b) (hbalanced' : Balanced a)
    (hb : Runs (labelRule lex) [] b (line xs) ps) (ha : Runs (labelRule lex) ps a (line ys) ps') :
    collapsed lex (tagging op b tag us a) = worked op (xs ++ us) ys ps' := by
  let s : State := ⟨tagging op (line xs) tag us (line ys), ps'⟩
  have hidle (pass : Pass) : s.apply (pass.rule lex) = s :=
    State.apply_idle (pass.atForms lex) (idle_tagging op tag pass hus xs ys)
  have hlabel : State.apply ⟨tagging op b tag us a, []⟩ (labelRule lex) = s :=
    State.apply_runs (runs_tagging op tag hus hb ha)
  have hround : State.round lex ⟨tagging op b tag us a, []⟩ = s := by
    rw [State.round, hlabel]
    exact (congrArg (State.apply · operatorRule) (hidle .application)).trans (hidle .operation)
  have hend : s.round lex = s := State.round_idle fun pass => idle_tagging op tag pass hus xs ys
  refine collapsed_eq_worked op ys ps' (by simp [hus]) (s := s) ?_ ?_
  · rw [balance_of_balanced (balanced_tagging op tag us hbalanced hbalanced')]
    exact State.settle_of_round hround hend
  · rw [balance_dropTags_tagging op tag hus]
    exact round_beside op ys ps' (by simp [hus])

end Tagging

end Evaluation

namespace UnknownTag

open Operand (operation printAll formed spilled)

def among (tag : UnknownTag) (op : Operator) (before : List Operand) (us : List PlainAtom)
    (after : List Operand) : Sexp :=
  (Shape.operation op).sexp (before.map Operand.sexp ++
    .form tag.keyword (us.map fun u => .atom u.toAtom) :: after.map Operand.sexp)

variable (tag : UnknownTag) (op : Operator) (before after : List Operand) {us : List PlainAtom}

theorem printAll_atoms (us : List PlainAtom) :
    printAll (us.map .atom) = line (us.map (·.toAtom)) := by
  rw [printAll, line, List.map_map, List.map_map]
  rfl

theorem print_among (us : List PlainAtom) :
    (tag.among op before us after).print =
      tagging op (printAll before) tag (us.map (·.toAtom)) (printAll after) := by
  let tagged : Sexp := .form tag.keyword (us.map fun u => .atom u.toAtom)
  have hwhole : (tag.among op before us after).print = enclose [op.symbol]
      (Sexp.printAll (before.map Operand.sexp ++ tagged :: after.map Operand.sexp)) := rfl
  have htagged : tagged.print = enclose ('@' :: tag.name) (line (us.map (·.toAtom))) := by
    rw [line, List.map_map]
    rfl
  rw [hwhole, Sexp.printAll_append, Sexp.printAll, htagged, List.append_assoc]
  rfl

theorem collapse_among (lex : Lexicon) (hus : us ≠ []) :
    collapse lex (tag.among op before us after).print =
      collapse lex ((operation op (before ++ us.map .atom)).sexp.print ++ printAll after) := by
  let atoms := us.map (·.toAtom)
  have hatoms : atoms ≠ [] := by simpa [atoms] using hus
  obtain ⟨xs, more, hxs, -⟩ := Operand.exists_runs lex before []
  obtain ⟨ys, more', hys, -⟩ := Operand.exists_runs lex after ([] ++ more)
  have hbody : printAll (before ++ us.map .atom) = printAll before ++ line atoms := by
    rw [← printAll_atoms, printAll, List.map_append, Sexp.printAll_append]
    rfl
  have hruns : Runs (labelRule lex) [] (printAll before ++ line atoms) (line (xs ++ atoms))
      ([] ++ more) := by
    have hidle : Idle (labelRule lex) (line atoms) := .of_flat (not_mem_open_line atoms)
    rw [line_append]
    exact hxs.append (hidle.runs (atForms_labelRule lex) _)
  have hsame : collapsed lex (tag.among op before us after).print =
      collapsed lex ((operation op (before ++ us.map .atom)).sexp.print ++ printAll after) := by
    have hbalanced := Operand.balanced_printAll (before ++ us.map .atom)
    rw [hbody] at hbalanced
    rw [print_among, Operand.print_operation, hbody,
      collapsed_tagging op tag hatoms (Operand.balanced_printAll before)
        (Operand.balanced_printAll after) hxs hys,
      collapsed_beside op ys _ (by simp [hatoms]) hbalanced (Operand.balanced_printAll after) hruns
        hys]
  rw [collapse_eq_collapsed, collapse_eq_collapsed, hsame]

theorem collapse_among_iff (hus : us ≠ []) :
    (∀ lex, collapse lex (tag.among op before us after).print =
        collapse lex ((operation op (before ++ us.map .atom)).sexp.print ++ printAll after)) ∧
      ∀ lex, Avoids lex openMark → lex.All Tidy →
        collapse lex (tag.among op before us after).print =
            .ok (formed lex op (before ++ us.map .atom) ++ spilled lex after) ∧
          collapse lex (operation op (before ++ us.map .atom ++ after)).sexp.print =
            .ok (formed lex op (before ++ us.map .atom ++ after)) ∧
          (collapse lex (tag.among op before us after).print =
              collapse lex (operation op (before ++ us.map .atom ++ after)).sexp.print ↔
            after = []) := by
  refine ⟨fun lex => tag.collapse_among op before after lex hus, fun lex hlex htidy => ?_⟩
  have hoperands : before ++ us.map .atom ≠ [] := by simp [hus]
  have htagged : collapse lex (tag.among op before us after).print =
      .ok (formed lex op (before ++ us.map .atom) ++ spilled lex after) := by
    rw [tag.collapse_among op before after lex hus,
      Operand.collapse_beside hlex htidy op hoperands]
  have hplain : collapse lex (operation op (before ++ us.map .atom ++ after)).sexp.print =
      .ok (formed lex op (before ++ us.map .atom ++ after)) := by
    have hbeside := Operand.collapse_beside hlex htidy op
      (List.append_ne_nil_of_left_ne_nil hoperands after) []
    simpa [printAll, spilled, Sexp.printAll] using hbeside
  refine ⟨htagged, hplain, ?_⟩
  rw [htagged, hplain, Except.ok.injEq]
  constructor
  · intro heq
    by_contra hafter
    exact Operand.formed_append_ne lex op hoperands hafter heq
  · rintro rfl
    simp [spilled]

theorem collapse_among_default :
    collapse (.ofDeclarations {}) "(+ a (@FOO x y))".toList =
        collapse (.ofDeclarations {}) "(+ a x y)".toList ∧
      collapse (.ofDeclarations {}) "(/ (@FOO x) α)".toList ≠
        collapse (.ofDeclarations {}) "(/ x α)".toList := by
  let foo : UnknownTag :=
    ⟨"FOO", by decide, List.all_eq_true.mp rfl, by decide⟩
  let plain (c : Char) (h : isAtomic c = true) (hmark : openMark ≠ c) : PlainAtom :=
    ⟨⟨[c], by simp, by simpa using h⟩, by simpa using hmark⟩
  let a := plain 'a' (by decide) (by decide)
  let x := plain 'x' (by decide) (by decide)
  let y := plain 'y' (by decide) (by decide)
  let alpha := plain 'α' (by decide) (by decide)
  have hlex : Avoids (.ofDeclarations {}) openMark := avoids_default (.inl rfl)
  obtain ⟨-, hlast⟩ := foo.collapse_among_iff .plus [.atom a] [] (List.cons_ne_nil x [y])
  obtain ⟨-, hfirst⟩ := foo.collapse_among_iff .divide [] [.atom alpha] (List.cons_ne_nil x [])
  exact ⟨(hlast _ hlex all_tidy_default).2.2.mpr rfl,
    fun heq => nomatch (hfirst _ hlex all_tidy_default).2.2.mp heq⟩

theorem collapse_among_first :
    collapse (.ofDeclarations {}) "(- (@FOO x) (@LABEL UNIT m))".toList =
        .ok "-x \\mathrm\x7bm\x7d".toList ∧
      collapse (.ofDeclarations {}) "(- x (@LABEL UNIT m))".toList =
        .ok "x - \\mathrm\x7bm\x7d".toList := by
  decide +kernel

end UnknownTag

end WorksheetTex
