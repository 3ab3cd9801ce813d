import WorksheetTex.Proofs.Reduction

namespace WorksheetTex.Evaluation

open Text Paren Vocabulary Form

def Idle (rule : Rule Text) (x : Text) : Prop :=
  ∀ s r k, x = s ++ '(' :: r → rule [] ('(' :: (r ++ k)) = none

def Runs (rule : Rule Text) (ps : List Text) (x x' : Text) (ps' : List Text) : Prop :=
  ∀ k, sweep rule ps (x ++ k) = (x' ++ (sweep rule ps' k).1, (sweep rule ps' k).2)

section Runs

variable {rule : Rule Text} {x y : Text}

theorem Idle.of_flat (h : '(' ∉ x) : Idle rule x := by
  rintro s r k rfl
  simp at h

theorem Idle.append (hx : Idle rule x) (hy : Idle rule y) : Idle rule (x ++ y) := by
  intro s r k h
  rcases List.append_eq_append_iff.mp h with ⟨a, rfl, hy'⟩ | ⟨a, rfl, hr⟩
  · exact hy a r k hy'
  · cases a with
    | nil => exact hy [] r k (by simpa using hr.symm)
    | cons c a =>
        obtain ⟨rfl, rfl⟩ := List.cons.inj hr
        simpa using hx s a (y ++ k) rfl

theorem Idle.open (hmiss : ∀ k, rule [] ('(' :: (x ++ k)) = none) (hx : Idle rule x) :
    Idle rule ('(' :: x) := by
  intro s r k h
  cases s with
  | nil =>
      obtain ⟨_, rfl⟩ := List.cons.inj h
      exact hmiss k
  | cons c s => exact hx s r k (List.cons.inj h).2

variable {ps ps' ps'' : List Text} {x' y' : Text}

theorem Runs.append (hx : Runs rule ps x x' ps') (hy : Runs rule ps' y y' ps'') :
    Runs rule ps (x ++ y) (x' ++ y') ps'' := by
  intro k
  rw [List.append_assoc, hx, hy, List.append_assoc]

variable (hrule : AtForms rule)

include hrule

theorem Runs.open (hmiss : ∀ k, rule [] ('(' :: (x ++ k)) = none) (hx : Runs rule ps x x' ps') :
    Runs rule ps ('(' :: x) ('(' :: x') ps' := by
  intro k
  rw [List.cons_append, sweep_keep hrule (hmiss k), hx]
  rfl

theorem Runs.hit {p : Text} (hne : x ≠ []) (hx : ∀ k, rule [] (x ++ k) = some (x.length, p)) :
    Runs rule ps x (reference ps.length) (ps ++ [p]) :=
  fun k => sweep_hit hrule hne (hx k)

theorem Idle.runs (h : Idle rule x) (ps : List Text) : Runs rule ps x x ps := by
  induction x with
  | nil => exact fun k => rfl
  | cons c x ih =>
      have hx : Idle rule x := fun s r k hr => h (c :: s) r k (by rw [hr, List.cons_append])
      intro k
      have hmiss : rule [] (c :: (x ++ k)) = none := by
        by_cases hc : c = '('
        · exact hc ▸ h [] x k (by rw [hc, List.nil_append])
        · exact hrule.opens _ hc
      rw [List.cons_append, sweep_keep hrule hmiss, ih hx k]
      rfl

end Runs

def Advances (rule : Rule Text) (P : List Text → Text → Prop) (ps : List Text) (x : Text) : Prop :=
  Idle rule x ∨ ∃ x' more, Runs rule ps x x' (ps ++ more) ∧ P (ps ++ more) x' ∧
    x'.count '(' < x.count '('

namespace Advances

variable {rule : Rule Text} (hrule : AtForms rule) {P : List Text → Text → Prop} {ps : List Text}
  {x : Text}

include hrule

theorem flat_append {s : Text} (hs : '(' ∉ s) (h : Advances rule P ps x) :
    Advances rule (fun ps y => ∃ x, y = s ++ x ∧ P ps x) ps (s ++ x) := by
  have hidle : Idle rule s := .of_flat hs
  rcases h with h | ⟨x', more, hruns, hp, hcount⟩
  · exact .inl (hidle.append h)
  · refine .inr ⟨s ++ x', more, (hidle.runs hrule ps).append hruns, ⟨x', rfl, hp⟩, ?_⟩
    rw [List.count_append, List.count_append]
    omega

theorem append_flat {s : Text} (hs : '(' ∉ s) (h : Advances rule P ps x) :
    Advances rule (fun ps y => ∃ x, y = x ++ s ∧ P ps x) ps (x ++ s) := by
  have hidle : Idle rule s := .of_flat hs
  rcases h with h | ⟨x', more, hruns, hp, hcount⟩
  · exact .inl (h.append hidle)
  · refine .inr ⟨x' ++ s, more, hruns.append (hidle.runs hrule _), ⟨x', rfl, hp⟩, ?_⟩
    rw [List.count_append, List.count_append]
    omega

theorem append {Q : List Text → Text → Prop} {y : Text} (hx : Advances rule P ps x) (hp : P ps x)
    (hextend : ∀ ps more x, P ps x → P (ps ++ more) x)
    (hy : ∀ more, Q (ps ++ more) y ∧ Advances rule Q (ps ++ more) y) :
    Advances rule (fun ps z => ∃ x y, z = x ++ y ∧ P ps x ∧ Q ps y) ps (x ++ y) := by
  rcases hx with hx | ⟨x', more, hruns, hp', hcount⟩
  · obtain ⟨-, hstep⟩ := hy []
    rw [List.append_nil] at hstep
    rcases hstep with hy | ⟨y', more, hruns, hq, hcount⟩
    · exact .inl (hx.append hy)
    · refine .inr ⟨x ++ y', more, (hx.runs hrule ps).append hruns,
        ⟨x, y', rfl, hextend ps more x hp, hq⟩, ?_⟩
      rw [List.count_append, List.count_append]
      omega
  · obtain ⟨hq, hy | ⟨y', more', hruns', hq', hcount'⟩⟩ := hy more
    · refine .inr ⟨x' ++ y, more, hruns.append (hy.runs hrule _), ⟨x', y, rfl, hp', hq⟩, ?_⟩
      rw [List.count_append, List.count_append]
      omega
    · have hp'' := hextend _ more' x' hp'
      rw [List.append_assoc] at hruns' hq' hp''
      refine .inr ⟨x' ++ y', more ++ more', hruns.append hruns', ⟨x', y', rfl, hp'', hq'⟩, ?_⟩
      rw [List.count_append, List.count_append]
      omega

omit hrule in
theorem mono {Q : List Text → Text → Prop} (h : Advances rule P ps x)
    (hpq : ∀ more y, P (ps ++ more) y → Q (ps ++ more) y) : Advances rule Q ps x := by
  rcases h with h | ⟨x', more, hruns, hp, hcount⟩
  · exact .inl h
  · exact .inr ⟨x', more, hruns, hpq more x' hp, hcount⟩

theorem enclose {head body : Text} (hhead : '(' ∉ head)
    (hmiss : ∀ k, rule [] (enclose head body ++ k) = none) (h : Advances rule P ps body) :
    Advances rule (fun ps y => ∃ body, y = Evaluation.enclose head body ∧ P ps body) ps
      (enclose head body) := by
  have hinner := (h.append_flat hrule (s := [')']) (by decide)).flat_append hrule hhead
  rcases hinner with hidle | ⟨x', more, hruns, ⟨y, rfl, body', rfl, hp⟩, hcount⟩
  · exact .inl (hidle.open hmiss)
  · refine .inr ⟨_, more, hruns.open hrule hmiss, ⟨body', rfl, hp⟩, ?_⟩
    rw [List.count_cons_self, Evaluation.enclose, List.count_cons_self]
    omega

end Advances

variable {lex : Lexicon}

theorem advances_spread {rule : Rule Text} (hrule : AtForms rule) {ts : List Tree} {xs : List Text}
    {ps : List Text} {body : Text}
    (hstep : ∀ t ∈ ts, ∀ ps x, Reduced lex ps t x →
      Advances rule (fun ps x => Reduced lex ps t x) ps x)
    (h : List.Forall₂ (Reduced lex ps) ts xs) (hbody : Spread xs body) :
    Advances rule (fun ps y => ∃ xs, List.Forall₂ (Reduced lex ps) ts xs ∧ Spread xs y) ps
      body := by
  induction hbody generalizing ts ps with
  | nil => exact .inl (.of_flat (by simp))
  | @cons g x r xs hg hr ih =>
      cases h with
      | @cons t _ ts _ ht hts =>
          have hgap : '(' ∉ g := fun hmem => nomatch hg.not_paren _ hmem
          have hrest (more : List Text) := hts.imp fun _ _ h => h.extend more
          have htail (more : List Text) :=
            ih (fun t ht => hstep t (List.mem_cons_of_mem _ ht)) (hrest more)
          have hhead := hstep t List.mem_cons_self ps x ht
          have hall := hhead.append hrule ht (fun ps more x h => h.extend more) fun more =>
            ⟨⟨xs, hrest more, hr⟩, htail more⟩
          rw [List.append_assoc]
          refine (hall.flat_append hrule hgap).mono ?_
          rintro more _ ⟨_, rfl, x, y, rfl, hx, xs, hxs, hy⟩
          rw [← List.append_assoc]
          exact ⟨x :: xs, .cons hx hxs, .cons hg hy⟩

inductive Pass where
  | label
  | application
  | operation

namespace Pass

def rule (lex : Lexicon) : Pass → Rule Text
  | .label => labelRule lex
  | .application => applyRule lex
  | .operation => operatorRule

theorem atForms (lex : Lexicon) (pass : Pass) : AtForms (pass.rule lex) := by
  cases pass with
  | label => exact atForms_labelRule lex
  | application => exact atForms_applyRule lex
  | operation => exact atForms_operatorRule

theorem rule_arguments (pass : Pass) (t : Text) : pass.rule lex [] ("(@ARGS" ++ t) = none := by
  cases pass <;> rfl

theorem rule_label {pass : Pass} (h : pass ≠ .label) (t : Text) :
    pass.rule lex [] ("(@LABEL" ++ t) = none := by
  cases pass with
  | label => exact absurd rfl h
  | _ => rfl

theorem rule_application {pass : Pass} (h : pass ≠ .application) (t : Text) :
    pass.rule lex [] ("(@APPLY" ++ t) = none := by
  cases pass with
  | application => exact absurd rfl h
  | _ => rfl

theorem rule_operation {pass : Pass} (h : pass ≠ .operation) (op : Operator) (t : Text) :
    pass.rule lex [] ('(' :: op.symbol :: t) = none := by
  cases pass with
  | operation => exact absurd rfl h
  | _ => cases op <;> rfl

end Pass

namespace Reduced

variable {ps : List Text} {t : Tree} {x : Text}

theorem advances_hit {rule : Rule Text} (hrule : AtForms rule) {head body p : Text}
    (hnode : (t.reading lex).1 = false)
    (hit : ∀ k, rule [] (enclose head body ++ k) = some ((enclose head body).length, p))
    (hp : Fills (values ps) p (t.value lex)) :
    Advances rule (fun ps x => Reduced lex ps t x) ps (enclose head body) := by
  have hcount : (reference ps.length).count '(' = 0 :=
    List.count_eq_zero.mpr (not_mem_reference isBreak_paren.1 _)
  refine .inr ⟨_, [p], .hit hrule (by simp [enclose]) hit, .piece hnode hp.getElem?, ?_⟩
  rw [hcount, enclose, List.count_cons_self]
  omega

section Advance

variable (hlex : Avoids lex openMark) (pass : Pass) {ts : List Tree} {xs : List Text}
  (hstep : ∀ t ∈ ts, ∀ ps x, Reduced lex ps t x →
    Advances (pass.rule lex) (fun ps x => Reduced lex ps t x) ps x)
  (hts : List.Forall₂ (Reduced lex ps) ts xs)

include hlex in
theorem advances_label {kind name : Atom} {body : Text} (hkind : ∀ c ∈ kind.text, isLatin c = true)
    (hname : openMark ∉ name.text) (hbody : Spread [kind.text, name.text] body) :
    Advances (pass.rule lex) (fun ps x => Reduced lex ps (.label kind name) x) ps
      (enclose "@LABEL" body) := by
  have hpiece : Sealed openMark 0 (labelPiece lex kind.text name.text) :=
    sealed_labelPiece (.inl rfl) hlex kind.text (.of_not_mem hname)
  by_cases hpass : pass = .label
  · subst hpass
    exact advances_hit (Pass.atForms lex _) rfl (labelRule_label hkind hbody)
      (.of_not_mem hpiece.not_mem)
  · have hatoms : ∀ x ∈ [kind.text, name.text], ∃ a : Atom, x = a.text := by simp
    have hflat : '(' ∉ body := fun hmem => nomatch isParen_of_spread_atoms hbody hatoms _ hmem
    exact .inl (.open (fun k => Pass.rule_label hpass _) (.of_flat (by simpa using hflat)))

include hstep hts

theorem advances_operation {op : Operator} (hlen : op.accepts ts.length = true) {body : Text}
    (hbody : Spread xs body) :
    Advances (pass.rule lex) (fun ps x => Reduced lex ps (.node (.operation op) ts) x) ps
      (enclose [op.symbol] body) := by
  have hrule := pass.atForms lex
  have hform : '(' ∉ [op.symbol] := by cases op <;> decide
  have hinner := advances_spread hrule hstep hts hbody
  have hmiss (h : ∀ k, pass.rule lex [] (enclose [op.symbol] body ++ k) = none) :
      Advances (pass.rule lex) (fun ps x => Reduced lex ps (.node (.operation op) ts) x) ps
        (enclose [op.symbol] body) := by
    refine (hinner.enclose hrule hform h).mono ?_
    rintro more _ ⟨body, rfl, xs, hxs, hbody⟩
    exact .operation hlen hxs hbody
  by_cases hpass : pass = .operation
  · subst hpass
    rcases spread_cases hbody (items hts) with hatoms | ⟨s, r, rfl, hs⟩
    · have hne : xs ≠ [] := by
        rintro rfl
        cases hts
        cases op <;> cases hlen
      obtain ⟨p, hp, hfills⟩ := fills_render hts hatoms hlen
      exact advances_hit hrule (by simp) (operatorRule_hit hbody hne hatoms hp) hfills
    · exact hmiss (operatorRule_miss op hs r)
  · exact hmiss fun k => Pass.rule_operation hpass op _

include hlex in
theorem advances_application {f : Atom} (hf : openMark ∉ f.text) (hne : ts ≠ []) {args body : Text}
    (hargs : Spread xs args) (hbody : Spread [f.text, enclose "@ARGS" args] body) :
    Advances (pass.rule lex) (fun ps x => Reduced lex ps (.node (.application f) ts) x) ps
      (enclose "@APPLY" body) := by
  have hrule := pass.atForms lex
  have hmiss (h : ∀ k, pass.rule lex [] (enclose "@APPLY" body ++ k) = none) :
      Advances (pass.rule lex) (fun ps x => Reduced lex ps (.node (.application f) ts) x) ps
        (enclose "@APPLY" body) := by
    obtain ⟨g, g', hg, hg', rfl⟩ := spread_pair_iff.mp hbody
    have hflat : '(' ∉ g ++ f.text ++ g' := by
      simp only [List.mem_append, not_or]
      refine ⟨⟨fun hmem => ?_, fun hmem => ?_⟩, fun hmem => ?_⟩
      · cases hg.not_paren _ hmem
      · exact f.not_mem_open hmem
      · cases hg'.not_paren _ hmem
    have hparens : ∀ k, pass.rule lex [] (enclose "@ARGS" args ++ k) = none :=
      fun k => pass.rule_arguments _
    have hinner := (advances_spread hrule hstep hts hargs).enclose hrule (by decide) hparens
    rw [← List.append_assoc] at h ⊢
    refine ((hinner.flat_append hrule hflat).enclose hrule (by decide) h).mono ?_
    rintro more _ ⟨_, rfl, _, rfl, args, rfl, xs, hxs, hargs⟩
    exact .application hf hne hxs hargs (spread_pair_iff.mpr ⟨g, g', hg, hg', by simp⟩)
  by_cases hpass : pass = .application
  · subst hpass
    rcases spread_cases hargs (items hts) with hatoms | ⟨s, r, rfl, hs⟩
    · have hne : xs ≠ [] := by
        rintro rfl
        cases hts
        exact hne rfl
      exact advances_hit hrule (by simp) (applyRule_hit hbody hargs hne hatoms)
        (fills_applyPiece hts hatoms hlex hf)
    · exact hmiss (applyRule_miss hbody hs)
  · exact hmiss fun k => Pass.rule_application hpass _

end Advance

theorem advances (hlex : Avoids lex openMark) (pass : Pass) (h : Reduced lex ps t x) :
    Advances (pass.rule lex) (fun ps x => Reduced lex ps t x) ps x := by
  induction t generalizing ps x with
  | atom a =>
      cases h with
      | atom _ => exact .inl (.of_flat (Atom.not_mem_open _))
      | piece _ _ => exact .inl (.of_flat (Atom.not_mem_open _))
  | label kind name =>
      cases h with
      | piece _ _ => exact .inl (.of_flat (Atom.not_mem_open _))
      | label hkind hname hbody => exact advances_label hlex pass hkind hname hbody
  | node shape ts ih =>
      cases h with
      | piece _ _ => exact .inl (.of_flat (Atom.not_mem_open _))
      | application hf hne hts hargs hbody =>
          exact advances_application hlex pass (fun t ht ps x => ih t ht) hts hf hne hargs hbody
      | operation hlen hts hbody =>
          exact advances_operation pass (fun t ht ps x => ih t ht) hts hlen hbody

end Reduced

def Fires (lex : Lexicon) (x : Text) : Prop :=
  ∃ (pass : Pass) (s r : Text), x = s ++ '(' :: r ∧
    ∀ k, pass.rule lex [] ('(' :: (r ++ k)) ≠ none

namespace Fires

theorem of_hit (pass : Pass) {head body p : Text}
    (h : ∀ k, pass.rule lex [] (enclose head body ++ k) = some ((enclose head body).length, p)) :
    Fires lex (enclose head body) := by
  refine ⟨pass, [], head ++ (body ++ [')']), rfl, fun k hnone => ?_⟩
  have hsome := h k
  rw [enclose, List.cons_append, hnone] at hsome
  cases hsome

theorem within {x : Text} (h : Fires lex x) (s r : Text) : Fires lex (s ++ x ++ r) := by
  obtain ⟨pass, s', r', rfl, hfires⟩ := h
  exact ⟨pass, s ++ s', r' ++ r, by simp, fun k => by simpa using hfires (r ++ k)⟩

theorem enclose {body : Text} (h : Fires lex body) (head : Text) :
    Fires lex (enclose head body) := by
  have := h.within ('(' :: head) [')']
  simpa [Evaluation.enclose] using this

theorem of_spread {xs : List Text} {body x : Text} (hbody : Spread xs body) (hx : x ∈ xs)
    (h : Fires lex x) : Fires lex body := by
  induction hbody with
  | nil => cases hx
  | @cons g y r xs _ _ ih =>
      rcases List.mem_cons.mp hx with rfl | hx
      · exact h.within g r
      · simpa using (ih hx).within (g ++ y) []

end Fires

namespace Reduced

variable {ps : List Text} {t : Tree} {x : Text}

theorem fires_or_atoms {ts : List Tree} {xs : List Text} (h : List.Forall₂ (Reduced lex ps) ts xs)
    (hfires : ∀ t ∈ ts, ∀ x, Reduced lex ps t x → '(' ∈ x → Fires lex x) :
    (∃ x ∈ xs, Fires lex x) ∨ ∀ x ∈ xs, ∃ a : Atom, x = a.text := by
  induction h with
  | nil => exact .inr (by simp)
  | @cons t x ts xs ht _ ih =>
      rcases ih fun t hmem => hfires t (List.mem_cons_of_mem _ hmem) with ⟨y, hy, h⟩ | hatoms
      · exact .inl ⟨y, List.mem_cons_of_mem _ hy, h⟩
      · cases ht.item with
        | atom a => exact .inr (List.forall_mem_cons.mpr ⟨⟨a, rfl⟩, hatoms⟩)
        | form _ =>
            exact .inl ⟨_, List.mem_cons_self, hfires t List.mem_cons_self _ ht List.mem_cons_self⟩

theorem fires (h : Reduced lex ps t x) (hx : '(' ∈ x) : Fires lex x := by
  induction t generalizing x with
  | atom a =>
      cases h with
      | atom _ => exact absurd hx (Atom.not_mem_open _)
      | piece _ _ => exact absurd hx (Atom.not_mem_open _)
  | label kind name =>
      cases h with
      | piece _ _ => exact absurd hx (Atom.not_mem_open _)
      | label hkind _ hbody => exact .of_hit .label (labelRule_label hkind hbody)
  | node shape ts ih =>
      cases h with
      | piece _ _ => exact absurd hx (Atom.not_mem_open _)
      | @application f _ xs args _ _ hne hts hargs hbody =>
          rcases fires_or_atoms hts fun t ht x => ih t ht with ⟨y, hy, hfires⟩ | hatoms
          · have hinner : Fires lex (enclose "@ARGS" args) := (hfires.of_spread hargs hy).enclose _
            exact (hinner.of_spread hbody (by simp)).enclose _
          · have hne : xs ≠ [] := by
              rintro rfl
              cases hts
              exact hne rfl
            exact .of_hit .application (applyRule_hit hbody hargs hne hatoms)
      | @operation op _ xs body hlen hts hbody =>
          rcases fires_or_atoms hts fun t ht x => ih t ht with ⟨y, hy, hfires⟩ | hatoms
          · exact (hfires.of_spread hbody hy).enclose _
          · have hne : xs ≠ [] := by
              rintro rfl
              cases hts
              cases op <;> cases hlen
            obtain ⟨p, hp, _⟩ := fills_render hts hatoms hlen
            exact .of_hit .operation (operatorRule_hit hbody hne hatoms hp)

end Reduced

namespace State

variable {s : State} {t : Tree}

theorem apply_runs {rule : Rule Text} {ps ps' : List Text} {x x' : Text}
    (h : Runs rule ps x x' ps') : State.apply ⟨x, ps⟩ rule = ⟨x', ps'⟩ := by
  have hsweep := h []
  rw [List.append_nil, sweep_nil, List.append_nil] at hsweep
  change (⟨(sweep rule ps x).1, (sweep rule ps x).2⟩ : State) = _
  rw [hsweep]

theorem apply_idle {rule : Rule Text} (hrule : AtForms rule) (h : Idle rule s.text) :
    s.apply rule = s :=
  apply_runs (h.runs hrule s.pieces)

theorem round_idle (h : ∀ pass : Pass, Idle (pass.rule lex) s.text) : s.round lex = s := by
  have hlabel : s.apply (labelRule lex) = s := apply_idle (Pass.atForms lex .label) (h .label)
  have happly : s.apply (applyRule lex) = s :=
    apply_idle (Pass.atForms lex .application) (h .application)
  have hoperator : s.apply operatorRule = s :=
    apply_idle (Pass.atForms lex .operation) (h .operation)
  rw [round, hlabel, happly, hoperator]

theorem apply_reduced (hlex : Avoids lex openMark) (pass : Pass)
    (h : Reduced lex s.pieces t s.text) :
    Reduced lex (s.apply (pass.rule lex)).pieces t (s.apply (pass.rule lex)).text ∧
      (s.apply (pass.rule lex) = s ∧ Idle (pass.rule lex) s.text ∨
        (s.apply (pass.rule lex)).text.count '(' < s.text.count '(') := by
  rcases h.advances hlex pass with hidle | ⟨x', more, hruns, hx', hcount⟩
  · have happly := apply_idle (pass.atForms lex) hidle
    rw [happly]
    exact ⟨h, .inl ⟨rfl, hidle⟩⟩
  · have happly : s.apply (pass.rule lex) = ⟨x', s.pieces ++ more⟩ := apply_runs hruns
    rw [happly]
    exact ⟨hx', .inr hcount⟩

def applyAll (lex : Lexicon) (passes : List Pass) (s : State) : State :=
  passes.foldl (fun s pass => s.apply (pass.rule lex)) s

theorem round_eq_applyAll (s : State) :
    s.round lex = s.applyAll lex [.label, .application, .operation] := rfl

theorem applyAll_reduced (hlex : Avoids lex openMark) (passes : List Pass)
    (h : Reduced lex s.pieces t s.text) :
    Reduced lex (s.applyAll lex passes).pieces t (s.applyAll lex passes).text ∧
      (s.applyAll lex passes = s ∧ (∀ pass ∈ passes, Idle (pass.rule lex) s.text) ∨
        (s.applyAll lex passes).text.count '(' < s.text.count '(') := by
  induction passes generalizing s with
  | nil => exact ⟨h, .inl ⟨rfl, by simp⟩⟩
  | cons pass passes ih =>
      have hcons :
          s.applyAll lex (pass :: passes) = (s.apply (pass.rule lex)).applyAll lex passes := rfl
      obtain ⟨hfirst, hstep⟩ := apply_reduced hlex pass h
      obtain ⟨hrest, hsteps⟩ := ih hfirst
      rw [hcons]
      refine ⟨hrest, ?_⟩
      rcases hstep with ⟨heq, hidle⟩ | hlt
      · rw [heq] at hsteps ⊢
        rcases hsteps with ⟨heq', hall⟩ | hlt
        · exact .inl ⟨heq', List.forall_mem_cons.mpr ⟨hidle, hall⟩⟩
        · exact .inr hlt
      · rcases hsteps with ⟨heq', _⟩ | hlt'
        · rw [heq']
          exact .inr hlt
        · exact .inr (Nat.lt_trans hlt' hlt)

theorem round_reduced (hlex : Avoids lex openMark) (h : Reduced lex s.pieces t s.text) :
    Reduced lex (s.round lex).pieces t (s.round lex).text ∧
      (s.round lex = s ∧ '(' ∉ s.text ∨ (s.round lex).text.count '(' < s.text.count '(') := by
  rw [round_eq_applyAll]
  obtain ⟨hround, ⟨heq, hidle⟩ | hlt⟩ :=
    applyAll_reduced hlex [.label, .application, .operation] h
  · refine ⟨hround, .inl ⟨heq, fun hmem => ?_⟩⟩
    obtain ⟨pass, s', r, htext, hfires⟩ := h.fires hmem
    exact hfires [] (hidle pass (by cases pass <;> simp) s' r [] htext)
  · exact ⟨hround, .inr hlt⟩

theorem settleWithin_reduced (hlex : Avoids lex openMark) {n : Nat}
    (h : Reduced lex s.pieces t s.text) (hn : s.text.count '(' ≤ n) :
    Reduced lex (s.settleWithin lex n).pieces t (s.settleWithin lex n).text ∧
      '(' ∉ (s.settleWithin lex n).text := by
  induction n generalizing s with
  | zero => exact ⟨h, List.count_eq_zero.mp (Nat.le_zero.mp hn)⟩
  | succ n ih =>
      obtain ⟨hround, hstep⟩ := round_reduced hlex h
      rw [settleWithin]
      split
      · next heq =>
          refine ⟨h, ?_⟩
          rcases hstep with ⟨_, hmem⟩ | hlt
          · exact hmem
          · rw [heq] at hlt
            exact absurd hlt (Nat.lt_irrefl _)
      · next hne =>
          rcases hstep with ⟨heq, _⟩ | hlt
          · exact absurd (congrArg State.text heq) hne
          -- The round that changed the text took away a parenthesis, and so pays for itself.
          · exact ih hround (by omega)

theorem settle_reduced (hlex : Avoids lex openMark) (h : Reduced lex s.pieces t s.text) :
    Reduced lex (s.settle lex).pieces t (s.settle lex).text ∧ '(' ∉ (s.settle lex).text :=
  settleWithin_reduced hlex h (Nat.le_refl _)

end State

end WorksheetTex.Evaluation
