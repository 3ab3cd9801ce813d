import WorksheetTex.Proofs.Settling
import WorksheetTex.Proofs.Tidy

namespace WorksheetTex

open Text Tex Paren Vocabulary Form Evaluation

namespace Tree

theorem written_atom {a : Atom} {x : Text} (h : Sexp.Written (.atom a) x) : x = a.text := by
  cases h with
  | atom h => exact h

variable {lex : Lexicon} {t : Tree} {x : Text}

theorem Evaluable.reduced (ht : t.Evaluable) (hx : t.sexp.Written x) : Reduced lex [] t x := by
  induction t generalizing x with
  | atom a =>
      cases ht with
      | atom ha =>
          rw [written_atom hx]
          exact .atom ha
  | label kind name =>
      cases ht with
      | label hkind hname =>
          cases hx with
          | form hitems hbody =>
              simp only [List.forall₂_cons_left_iff, List.forall₂_nil_left_iff] at hitems
              obtain ⟨k, _, hk, ⟨n, _, hn, rfl, rfl⟩, rfl⟩ := hitems
              obtain rfl := written_atom hk
              obtain rfl := written_atom hn
              exact .label hkind hname hbody
  | node shape ts ih =>
      have hall (hts : ∀ t ∈ ts, Evaluable t) {xs : List Text}
          (hxs : List.Forall₂ Sexp.Written (ts.map sexp) xs) :
          List.Forall₂ (Reduced lex []) ts xs :=
        Sexp.forall₂_of_mem (List.forall₂_map_left_iff.mp hxs) fun t ht x => ih t ht (hts t ht)
      rw [sexp_node] at hx
      cases ht with
      | application hf hne hts =>
          cases hx with
          | form hitems hbody =>
              change List.Forall₂ Sexp.Written [_, _] _ at hitems
              simp only [List.forall₂_cons_left_iff, List.forall₂_nil_left_iff] at hitems
              obtain ⟨f, _, hname, ⟨args, _, hargs, rfl, rfl⟩, rfl⟩ := hitems
              obtain rfl := written_atom hname
              cases hargs with
              | form hxs hargs => exact .application hf hne (hall hts hxs) hargs hbody
      | operation hlen hts =>
          cases hx with
          | form hitems hbody => exact .operation hlen (hall hts hitems) hbody

theorem tidy_labelPiece (hlex : lex.All Tidy) (kind : Text) (name : Atom) :
    Tidy (labelPiece lex kind name.text) := by
  have hname : Tidy (replaceGlyphs name.text) := .word name.replaced.isWord
  rw [labelPiece]
  cases LabelKind.ofName? kind with
  | none => exact hname
  | some kind => exact hlex.label hname hname.upright hname.operatorName kind

theorem Evaluable.tidy (hlex : lex.All Tidy) (ht : t.Evaluable) : Tidy (t.value lex) := by
  induction t with
  | atom a => exact .word a.replaced.isWord
  | label kind name => exact tidy_labelPiece hlex kind.text name
  | node shape ts ih =>
      have hall (hts : ∀ t ∈ ts, Evaluable t) : ∀ v ∈ ts.map (value lex), Tidy v := by
        intro v hv
        obtain ⟨t, ht, rfl⟩ := List.mem_map.mp hv
        exact ih t ht (hts t ht)
      cases ht with
      | @application f _ hf hne hts =>
          have hcomma : Tidy [','] := by decide
          have hargument : Tidy (joinWith ", " (ts.map (value lex))) := by
            refine .joinWith (fun s t hs ht => ?_) (by simpa using hne) (hall hts)
            simpa using (hs.append hcomma).spaced ht
          rw [value_application]
          exact (hlex.function (.word f.isWord)).applyTemplate hargument
      | @operation op _ hlen hts =>
          rcases operation_cases lex hlen with ⟨t, u, r, rfl, rfl, hflag⟩ | hflag
          · rw [value_power hflag]
            exact (hall hts _ (by simp)).group.append (hall hts _ (by simp)).sup
          · obtain ⟨v, hv⟩ : ∃ v, op.render (ts.map (value lex)) = some v :=
              exists_render (by rwa [List.length_map])
            rw [value_operation hflag hv]
            exact .render (hall hts) hv

theorem reading_of_ne_atom (h : ∀ a, t ≠ .atom a) : (t.reading lex).1 = false := by
  cases t with
  | atom a => exact absurd rfl (h a)
  | label kind name => rfl
  | node shape ts => rw [reading_node]

end Tree

theorem Vocabulary.all_tidy_default : (Lexicon.ofDeclarations {}).All Tidy := by
  refine Lexicon.all_ofDeclarations ?_ (by simp)
  decide +kernel

namespace Evaluation

variable {lex : Lexicon} {t : Tree} {x y : Text}

theorem Reduced.exists_reference {ps : List Text} (h : Reduced lex ps t x)
    (hnode : (t.reading lex).1 = false) (hflat : '(' ∉ x) :
    ∃ n, x = reference n ∧ (values ps)[n]? = some (t.value lex) := by
  cases h with
  | atom _ => cases hnode
  | @piece _ n _ hv => exact ⟨n, rfl, hv⟩
  | label => exact absurd List.mem_cons_self hflat
  | application => exact absurd List.mem_cons_self hflat
  | operation => exact absurd List.mem_cons_self hflat

theorem State.settle_flat {s : State} (h : '(' ∉ s.text) : s.settle lex = s := by
  rw [State.settle, List.count_eq_zero.mpr h]
  rfl

theorem collapsed_of_settle {ps : List Text} {n : Nat}
    (h : State.settle lex ⟨balance y, []⟩ = ⟨reference n, ps⟩) :
    collapsed lex y = ⟨reference n, ps⟩ := by
  have hflat : '(' ∉ reference n := not_mem_reference isBreak_paren.1 n
  have htags : dropTags (reference n) = reference n := dropTags_of_not_mem hflat
  have hbalance : balance (reference n) = reference n :=
    balance_of_balanced (balanced_flat (not_isParen_of_mem_reference n))
  rw [collapsed, h]
  simp only [htags, hbalance]
  exact State.settle_flat hflat

theorem collapse_reduced (hlex : Avoids lex openMark) (hnode : (t.reading lex).1 = false)
    (hx : Reduced lex [] t (balance y)) (hy : openMark ∉ y) :
    collapse lex y = .ok (collapseBlanks (t.value lex)) := by
  obtain ⟨hsettled, hflat⟩ := State.settle_reduced (s := ⟨balance y, []⟩) hlex hx
  obtain ⟨n, htext, hvalue⟩ := hsettled.exists_reference hnode hflat
  have hstate : State.settle lex ⟨balance y, []⟩ =
      ⟨reference n, (State.settle lex ⟨balance y, []⟩).pieces⟩ := by
    rw [← htext]
  rw [collapse_eq_fill (.inl rfl) hlex hy, collapsed_of_settle hstate, (Fills.reference hvalue).2]

theorem collapse_written (hlex : Avoids lex openMark) (htidy : lex.All Tidy) (ht : t.Evaluable)
    (hform : ∀ a, t ≠ .atom a) (hx : t.sexp.Written x) {n : Nat}
    (hy : x = y ++ List.replicate n ')' ∨ y = x ++ List.replicate n ')') :
    collapse lex y = .ok (t.value lex) := by
  have hreduced : Reduced lex [] t x := ht.reduced hx
  have hmark : openMark ∉ x := hreduced.isSealed.not_mem
  have hbalanced : Balanced x := hreduced.item.balanced
  have hclose : openMark ∉ List.replicate n ')' := fun hmem =>
    absurd (List.eq_of_mem_replicate hmem) (by decide)
  have hbalance : balance y = x := by
    rcases hy with rfl | rfl
    · exact balance_clipped hbalanced
    · exact balance_extended hbalanced n
  have hmark' : openMark ∉ y := by
    rcases hy with rfl | rfl
    · exact fun hmem => hmark (List.mem_append_left _ hmem)
    · exact fun hmem => (List.mem_append.mp hmem).elim hmark hclose
  rw [collapse_reduced hlex (Tree.reading_of_ne_atom hform) (hbalance ▸ hreduced) hmark',
    (ht.tidy htidy).collapseBlanks]

theorem collapse_default (ht : t.Evaluable) (hform : ∀ a, t ≠ .atom a) (hx : t.sexp.Written x)
    {n : Nat} (hy : x = y ++ List.replicate n ')' ∨ y = x ++ List.replicate n ')') :
    collapse (.ofDeclarations {}) y = .ok (t.value (.ofDeclarations {})) :=
  collapse_written (avoids_default (.inl rfl)) all_tidy_default ht hform hx hy

theorem collapse_default_clipped :
    collapse (.ofDeclarations {}) "(^ (@LABEL VARIABLE e) (@APPLY sin (@ARGS α".toList =
      .ok "\x7be\x7d^\x7b\\sin(\\alpha)\x7d".toList := by
  let kind : Atom := .ofText "VARIABLE" rfl
  let e : Atom := .ofText "e" rfl
  let sin : Atom := .ofText "sin" rfl
  let alpha : Atom := .ofText "α" rfl
  let sine : Tree := .node (.application sin) [.atom alpha]
  let power : Tree := .node (.operation .power) [.label kind e, sine]
  have hsine : sine.Evaluable :=
    .application (by decide) (by simp) (List.forall_mem_singleton.mpr (.atom (by decide)))
  have hpower : power.Evaluable :=
    .operation rfl (List.forall_mem_cons.mpr
      ⟨.label (List.all_eq_true.mp rfl) (by decide), List.forall_mem_singleton.mpr hsine⟩)
  have htext : power.sexp.print =
      "(^ (@LABEL VARIABLE e) (@APPLY sin (@ARGS α".toList ++ List.replicate 3 ')' := by
    decide +kernel
  have hvalue : power.value (.ofDeclarations {}) =
      "\x7be\x7d^\x7b\\sin(\\alpha)\x7d".toList := by
    decide +kernel
  rw [collapse_default hpower (fun a h => nomatch h) power.sexp.written_print (.inl htext), hvalue]

end Evaluation

end WorksheetTex
