import Mathlib.Data.List.Nodup
import WorksheetTex.Proofs.Imbalance
import WorksheetTex.Proofs.Lexicon
import WorksheetTex.Proofs.SpacingTwice
import WorksheetTex.Proofs.Table
import WorksheetTex.Proofs.Typesetting

namespace WorksheetTex

open Text Tex Paren Vocabulary Form

namespace Vocabulary

section Overlay

variable {es ds : List (Text × Text)} {k q v : Text}

def overlay (es ds : List (Text × Text)) : Table :=
  (Table.mk es).insertMany (declared ds)

theorem find?_overlay (es ds : List (Text × Text)) (k : Text) :
    (overlay es ds).find? k = (ds.reverse.lookup k).or (es.lookup k) := by
  rw [overlay, Table.find?_insertMany, lookup_reverse_declared]
  rfl

theorem mem_keys_overlay :
    k ∈ (overlay es ds).keys ↔ k ∈ ds.map Prod.fst ∨ k ∈ es.map Prod.fst := by
  have hreverse : (ds.reverse.lookup k).isSome = true ↔ k ∈ ds.map Prod.fst := by
    rw [← mem_map_fst_iff, List.map_reverse, List.mem_reverse]
  rw [Table.mem_keys_iff, find?_overlay, Option.isSome_or, Bool.or_eq_true, hreverse,
    ← mem_map_fst_iff]

theorem find?_addSpellings_of_unique {t : Table} (hv : t.find? k = some v)
    (hunique : ∀ q ∈ t.keys, replaceGlyphs q = replaceGlyphs k → q = k) :
    t.addSpellings.find? (replaceGlyphs k) = some v := by
  have hkey : k ∈ t.keys := Table.mem_keys_iff.mpr (by simp [hv])
  rw [Table.find?_addSpellings]
  cases hfind : t.find? (replaceGlyphs k) with
  | some w =>
      have htaken : replaceGlyphs k ∈ t.keys := Table.mem_keys_iff.mpr (by simp [hfind])
      rw [hunique _ htaken (replaceGlyphs_idem k), hv] at hfind
      exact hfind.symm
  | none =>
      have hfirst : t.keys.find? (fun q => replaceGlyphs q == replaceGlyphs k) = some k := by
        cases hq : t.keys.find? fun q => replaceGlyphs q == replaceGlyphs k with
        | none => exact absurd (List.find?_eq_none.mp hq k hkey) (by simp)
        | some q =>
            have hspelled : replaceGlyphs q = replaceGlyphs k := by
              simpa using List.find?_some hq
            rw [hunique q (List.mem_of_find?_eq_some hq) hspelled]
      rw [hfirst]
      exact hv

theorem find?_addSpellings_of_default
    (h : (es.map Prod.fst).find? (fun q => replaceGlyphs q == k) = some q) :
    (overlay es ds).addSpellings.find? k =
      ((overlay es ds).find? k).or ((overlay es ds).find? q) := by
  have hfirst := (Table.keys_prefix_insertMany (Table.mk es) (declared ds)).find?_eq_some h
  rw [Table.find?_addSpellings, overlay, hfirst]
  rfl

def erase (name : Text) (ds : List (Text × Text)) : List (Text × Text) :=
  ds.filter fun e => e.1 != name

theorem lookup_erase (h : q ≠ k) : (erase k ds).reverse.lookup q = ds.reverse.lookup q := by
  rw [erase, ← List.filter_reverse]
  induction ds.reverse with
  | nil => rfl
  | cons e r ih =>
      by_cases he : e.1 = k
      · rw [List.filter_cons_of_neg (by simpa using he), ih, lookup_cons_ite, he, if_neg h]
      · rw [List.filter_cons_of_pos (by simpa using he), lookup_cons_ite, lookup_cons_ite, ih]

theorem find?_overlay_erase (h : q ≠ k) :
    (overlay es (erase k ds)).find? q = (overlay es ds).find? q := by
  rw [find?_overlay, find?_overlay, lookup_erase h]

theorem find?_addSpellings_overlay (hv : ds.reverse.lookup k = some v)
    (hapart : ∀ e ∈ ds, ∀ e' ∈ ds, replaceGlyphs e.1 = replaceGlyphs e'.1 → e.1 = e'.1)
    (h : replaceGlyphs k = k ∨ ∀ e ∈ es, replaceGlyphs e.1 = replaceGlyphs k → e.1 = k) :
    (overlay es ds).addSpellings.find? (replaceGlyphs k) = some v := by
  have hfind : (overlay es ds).find? k = some v := by rw [find?_overlay, hv, Option.some_or]
  rcases h with h | h
  · rw [h, Table.find?_addSpellings, hfind, Option.some_or]
  · refine find?_addSpellings_of_unique hfind fun q hq hspelled => ?_
    have hk : k ∈ ds.map Prod.fst := by
      rw [← List.mem_reverse, ← List.map_reverse, mem_map_fst_iff, hv]
      rfl
    obtain ⟨e, he, rfl⟩ := List.mem_map.mp hk
    rcases mem_keys_overlay.mp hq with hq | hq
    · obtain ⟨e', he', rfl⟩ := List.mem_map.mp hq
      exact hapart e' he' e he hspelled
    · obtain ⟨e', he', rfl⟩ := List.mem_map.mp hq
      exact h e' he' hspelled

theorem find?_addSpellings_erase (hspell : (es.map fun e => replaceGlyphs e.1).Nodup)
    (hk : replaceGlyphs k ≠ k) {e : Text × Text} (he : e ∈ es)
    (hspelled : replaceGlyphs e.1 = replaceGlyphs k) (hne : e.1 ≠ k) :
    ((overlay es ds).addSpellings.find? (replaceGlyphs k)).isSome = true ∧
      (overlay es (erase k ds)).addSpellings.find? (replaceGlyphs k) =
        (overlay es ds).addSpellings.find? (replaceGlyphs k) := by
  have hfirst : (es.map Prod.fst).find? (fun q => replaceGlyphs q == replaceGlyphs k) =
      some e.1 := by
    rw [List.find?_map, Option.map_eq_some_iff]
    refine ⟨e, ?_, rfl⟩
    cases hx : es.find? ((fun q => replaceGlyphs q == replaceGlyphs k) ∘ Prod.fst) with
    | none => exact absurd (List.find?_eq_none.mp hx e he) (by simp [hspelled])
    | some x =>
        have hxk : replaceGlyphs x.1 = replaceGlyphs k := by simpa using List.find?_some hx
        rw [List.inj_on_of_nodup_map hspell (List.mem_of_find?_eq_some hx) he
          (hxk.trans hspelled.symm)]
  have hsome : ((overlay es ds).find? e.1).isSome = true :=
    Table.mem_keys_iff.mp (mem_keys_overlay.mpr (.inr (List.mem_map_of_mem he)))
  rw [find?_addSpellings_of_default hfirst, find?_addSpellings_of_default hfirst,
    find?_overlay_erase hk, find?_overlay_erase hne, Option.isSome_or, hsome, Bool.or_true]
  exact ⟨rfl, rfl⟩

end Overlay

section Lower

theorem countP_isAscii_lowerFrom (before t : Text) :
    t.countP isAscii ≤ (lowerFrom before t).countP isAscii := by
  have hall : ∀ n < 128,
      1 ≤ (mapCase lowerSeveral lowerRuns (Char.ofNat n)).countP isAscii := by
    decide +kernel
  induction t generalizing before with
  | nil => exact Nat.le_refl _
  | cons c r ih =>
      rw [lowerFrom, List.countP_append, List.countP_cons, Nat.add_comm]
      refine Nat.add_le_add ?_ (ih (c :: before))
      split
      · next hc =>
          have hlow := hall c.toNat (of_decide_eq_true hc)
          rw [Char.ofNat_toNat] at hlow
          have hne : c ≠ 'Σ' := by
            rintro rfl
            cases hc
          rwa [if_neg hne]
      · exact Nat.zero_le _

theorem countP_isAscii_glyph {c : Char} (h : glyph c ≠ [c]) :
    [c].countP isAscii < (glyph c).countP isAscii := by
  have hmem := (glyph_cases c).resolve_left h
  obtain ⟨hc, hall⟩ := ascii_of_mem_glyphs hmem
  have hlow : [c].countP isAscii = 0 := by simp [hc]
  rw [hlow, List.countP_eq_length.mpr hall]
  exact List.length_pos_iff.mpr (glyph_ne_nil c)

theorem countP_isAscii_replaceGlyphs {t : Text} (h : replaceGlyphs t ≠ t) :
    t.countP isAscii < (replaceGlyphs t).countP isAscii := by
  induction t with
  | nil => exact absurd rfl h
  | cons c r ih =>
      have hsplit : (c :: r).countP isAscii = [c].countP isAscii + r.countP isAscii := by
        rw [← List.countP_append, List.singleton_append]
      rw [replaceGlyphs_cons, List.countP_append, hsplit]
      have hrest : r.countP isAscii ≤ (replaceGlyphs r).countP isAscii := by
        by_cases hr : replaceGlyphs r = r
        · rw [hr]
        · exact Nat.le_of_lt (ih hr)
      by_cases hc : glyph c = [c]
      · have hr : replaceGlyphs r ≠ r := fun hr => h (by rw [replaceGlyphs_cons, hc, hr]; rfl)
        rw [hc]
        exact Nat.add_lt_add_left (ih hr) _
      · exact Nat.add_lt_add_of_lt_of_le (countP_isAscii_glyph hc) hrest

theorem lower_replaceGlyphs_ne {t : Text} (h : replaceGlyphs t ≠ t) :
    lower (replaceGlyphs t) ≠ t := by
  intro heq
  have hlower := countP_isAscii_lowerFrom [] (replaceGlyphs t)
  rw [← lower, heq] at hlower
  exact absurd (countP_isAscii_replaceGlyphs h) (Nat.not_lt.mpr hlower)

end Lower

end Vocabulary

def Vocabulary.Declarations.options (d : Declarations) : Options where
  units := .value d.units
  constants := .value d.constants
  functions := .value d.functions

inductive Role where
  | constant
  | unit
  | function
deriving DecidableEq, Repr

namespace Role

def entries (d : Declarations) : Role → List (Text × Text)
  | .constant => d.constants
  | .unit => d.units
  | .function => d.functions

def defaults : Role → List (Text × Text)
  | .constant => defaultConstants
  | .unit => defaultUnits
  | .function => defaultFunctions

def without (name : Text) (d : Declarations) : Role → Declarations
  | .constant => { d with constants := erase name d.constants }
  | .unit => { d with units := erase name d.units }
  | .function => { d with functions := erase name d.functions }

def form (name : Text) : Role → Text
  | .constant => "(@LABEL CONSTANT " ++ name ++ ")"
  | .unit => "(@LABEL UNIT " ++ name ++ ")"
  | .function => "(@APPLY " ++ name ++ " (@ARGS x))"

def tree (name : Atom) : Role → Tree
  | .constant => .label (.ofText "CONSTANT" rfl) name
  | .unit => .label (.ofText "UNIT" rfl) name
  | .function => .node (.application name) [.atom (.ofText "x" rfl)]

def laid (latex : Text) : Role → Text
  | .function => applyTemplate latex "x"
  | _ => latex

def meaning (lex : Lexicon) (name : Text) : Role → Text
  | .constant => lex.label .constant name
  | .unit => lex.unit name
  | .function => lex.function name

def Reached (r : Role) (name : Text) : Prop :=
  replaceGlyphs name = name ∨
    r ≠ .function ∧ ∀ e ∈ r.defaults, replaceGlyphs e.1 = replaceGlyphs name → e.1 = name

instance (r : Role) (name : Text) : Decidable (r.Reached name) :=
  inferInstanceAs (Decidable (_ ∨ _))

theorem print_tree (r : Role) (a : Atom) : (r.tree a).sexp.print = r.form a.text := by
  cases r with
  | constant =>
      change "(@LABEL CONSTANT ".toList ++ (a.text ++ [] ++ [')']) = _
      rw [List.append_nil, ← List.append_assoc]
      rfl
  | unit =>
      change "(@LABEL UNIT ".toList ++ (a.text ++ [] ++ [')']) = _
      rw [List.append_nil, ← List.append_assoc]
      rfl
  | function =>
      change "(@APPLY ".toList ++ (a.text ++ " (@ARGS x)".toList ++ [')']) = _
      rw [List.append_assoc, ← List.append_assoc]
      rfl

theorem labelled_of_kind {kind : Text} {k : LabelKind}
    (h : LabelKind.ofName? (replaceGlyphs kind) = some k) (lex : Lexicon) (name : Text) :
    Tree.labelled lex (replaceGlyphs kind) name = lex.label k name := by
  rw [Tree.labelled, h]

theorem latex_tree (lex : Lexicon) (r : Role) (a : Atom) :
    (r.tree a).latex lex = spaceCommands (r.laid (r.meaning lex (replaceGlyphs a.text))) := by
  cases r with
  | constant =>
      have hkind : LabelKind.ofName? (replaceGlyphs "CONSTANT".toList) = some .constant := by
        decide +kernel
      exact congrArg spaceCommands (labelled_of_kind hkind lex _)
  | unit =>
      have hkind : LabelKind.ofName? (replaceGlyphs "UNIT".toList) = some .unit := by
        decide +kernel
      exact congrArg spaceCommands (labelled_of_kind hkind lex _)
  | function =>
      have hargument : joinWith ", " [spaceCommands (replaceGlyphs "x".toList)] = ['x'] := by
        decide +kernel
      rw [tree, Tree.latex_node]
      change spaceCommands (applyTemplate (lex.function (replaceGlyphs a.text))
        (joinWith ", " [spaceCommands (replaceGlyphs "x".toList)])) = _
      rw [hargument]
      rfl

theorem wellFormed_tree (r : Role) (a : Atom) : (r.tree a).WellFormed := by
  cases r with
  | constant => exact .label _ a
  | unit => exact .label _ a
  | function =>
      have hadmits : (Shape.application a).Admits [.atom (.ofText "x" rfl)] := trivial
      refine .node hadmits fun t ht => ?_
      obtain rfl := List.mem_singleton.mp ht
      exact .atom _

theorem height_tree (r : Role) (a : Atom) : (r.tree a).height = 2 := by
  cases r <;> rfl

theorem typeset_form (d : Declarations) (r : Role) (a : Atom) :
    typeset (.record d.options) (r.form a.text) =
      .ok (spaceCommands (r.laid (r.meaning (.ofDeclarations d) (replaceGlyphs a.text)))) := by
  have hwritten : (r.tree a).sexp.Written (r.form a.text) :=
    print_tree r a ▸ Sexp.written_print (r.tree a).sexp
  have hheight : (r.tree a).height ≤ defaultLimit.levels := by
    rw [height_tree]
    decide
  have hset := Setting.typeset_written ⟨.ofDeclarations d, defaultLimit⟩ (r.tree a)
    (wellFormed_tree r a) hheight hwritten
  have hbalance : imbalance? (r.form a.text) = none :=
    imbalance?_of_balanced hwritten.spelled.item.balanced
  have hreport := report_record (o := d.options) rfl hset (.inr hbalance)
  rw [latex_tree, spaceCommands_idem] at hreport
  exact congrArg (Except.map (·.latex)) hreport

theorem nodup_spellings (r : Role) : (r.defaults.map fun e => replaceGlyphs e.1).Nodup := by
  cases r <;> decide +kernel

theorem meaning_of_reached {d : Declarations} {r : Role} {name v : Text}
    (hnewton : ¬ (r = .unit ∧ name = ['N']))
    (hapart : ∀ e ∈ r.entries d, ∀ e' ∈ r.entries d,
      replaceGlyphs e.1 = replaceGlyphs e'.1 → e.1 = e'.1)
    (hv : (r.entries d).reverse.lookup name = some v) (h : r.Reached name) :
    r.meaning (.ofDeclarations d) (replaceGlyphs name) = v := by
  have hspelled : (overlay r.defaults (r.entries d)).addSpellings.find? (replaceGlyphs name) =
      some v := find?_addSpellings_overlay hv hapart (h.imp_right And.right)
  rw [Lexicon.ofDeclarations_eq_merged]
  cases r with
  | constant => exact congrArg (Option.getD · _) hspelled
  | unit =>
      have hne : replaceGlyphs name ≠ ['N'] := fun heq =>
        hnewton ⟨rfl, eq_of_replaceGlyphs_eq (by decide) heq⟩
      have hfind : (Lexicon.merged d).units.find? (replaceGlyphs name) = some v := hspelled
      rw [meaning, Lexicon.unit, if_neg hne, hfind]
      rfl
  | function =>
      have hname : replaceGlyphs name = name := h.resolve_right fun h => h.1 rfl
      have hfind : (Lexicon.merged d).functions.find? name = some v := by
        change (overlay defaultFunctions d.functions).find? name = some v
        rw [find?_overlay]
        exact congrArg (Option.or · _) hv
      rw [meaning, hname, Lexicon.function, hfind]
      rfl

theorem find?_without {r : Role} {name : Text} (hr : r ≠ .function) (h : ¬ r.Reached name)
    (ds : List (Text × Text)) :
    ((overlay r.defaults ds).addSpellings.find? (replaceGlyphs name)).isSome = true ∧
      (overlay r.defaults (erase name ds)).addSpellings.find? (replaceGlyphs name) =
        (overlay r.defaults ds).addSpellings.find? (replaceGlyphs name) := by
  rw [Reached, not_or, not_and] at h
  obtain ⟨hname, h⟩ := h
  obtain ⟨e, he⟩ := not_forall.mp (h hr)
  obtain ⟨hmem, hspelled, hne⟩ : e ∈ r.defaults ∧ replaceGlyphs e.1 = replaceGlyphs name ∧
      e.1 ≠ name := by
    simpa only [Classical.not_imp] using he
  exact find?_addSpellings_erase (nodup_spellings r) hname hmem hspelled hne

theorem meaning_without {d : Declarations} {r : Role} {name : Text} (h : ¬ r.Reached name) :
    r.meaning (.ofDeclarations (r.without name d)) (replaceGlyphs name) =
      r.meaning (.ofDeclarations d) (replaceGlyphs name) := by
  rw [Lexicon.ofDeclarations_eq_merged, Lexicon.ofDeclarations_eq_merged]
  cases r with
  | constant => exact congrArg (Option.getD · _) (find?_without (by decide) h d.constants).2
  | unit =>
      obtain ⟨hsome, heq⟩ := find?_without (by decide) h d.units
      obtain ⟨v, hv⟩ := Option.isSome_iff_exists.mp hsome
      have hfind : (Lexicon.merged d).units.find? (replaceGlyphs name) = some v := hv
      have hfind' : (Lexicon.merged (without name d .unit)).units.find?
          (replaceGlyphs name) = some v := heq.trans hv
      rw [meaning, meaning, Lexicon.unit, Lexicon.unit, hfind, hfind', Option.some_or,
        Option.some_or]
  | function =>
      have hname : replaceGlyphs name ≠ name := fun hname => h (.inl hname)
      have hfind {q : Text} (hq : q ≠ name) :
          (Lexicon.merged (without name d .function)).functions.find? q =
            (Lexicon.merged d).functions.find? q :=
        (find?_overlay_erase hq : (overlay defaultFunctions _).find? q = _)
      rw [meaning, meaning, Lexicon.function, Lexicon.function, hfind hname,
        hfind (lower_replaceGlyphs_ne hname)]

theorem typeset_form_of_declared (d : Declarations) (r : Role) (name : Atom) (latex : Text)
    (hnewton : ¬ (r = .unit ∧ name.text = ['N']))
    (hapart : ∀ e ∈ r.entries d, ∀ e' ∈ r.entries d,
      replaceGlyphs e.1 = replaceGlyphs e'.1 → e.1 = e'.1)
    (hlatex : (r.entries d).reverse.lookup name.text = some latex) :
    (r.Reached name.text → typeset (.record d.options) (r.form name.text) =
      .ok (spaceCommands (r.laid latex))) ∧
    (¬ r.Reached name.text → typeset (.record d.options) (r.form name.text) =
      typeset (.record (r.without name.text d).options) (r.form name.text)) := by
  constructor
  · intro h
    rw [typeset_form, meaning_of_reached hnewton hapart hlatex h]
  · intro h
    rw [typeset_form, typeset_form, meaning_without h]

def glyphDeclarations : Declarations where
  constants := [("θ_0", "\\vartheta_0"), ("c", "c_0")]
  functions := [("φ", "F")]

theorem typeset_form_theta :
    typeset (.record glyphDeclarations.options) "(@LABEL CONSTANT θ_0)" = .ok "\\vartheta_0" ∧
      typeset (.record glyphDeclarations.options) "(@APPLY φ (@ARGS x))" = .ok "\\phi(x)" := by
  have htheta := typeset_form_of_declared glyphDeclarations .constant (.ofText "θ_0" rfl)
    "\\vartheta_0" (by decide) (by decide +kernel) (by decide +kernel)
  have hphi := typeset_form_of_declared glyphDeclarations .function (.ofText "φ" rfl) "F"
    (by decide) (by decide +kernel) (by decide +kernel)
  exact ⟨(htheta.1 (by decide +kernel)).trans (by decide +kernel),
    (hphi.2 (by decide +kernel)).trans (by decide +kernel)⟩

theorem typeset_form_unreached :
    typeset (.record (Declarations.options { functions := [("φ", "F")] })) "(@APPLY φ (@ARGS x))" =
        .ok "\\phi(x)" ∧ spaceCommands (Role.function.laid "F") = "F(x)".toList ∧
      typeset (.record (Declarations.options { constants := [("µ_0", "X")] }))
        "(@LABEL CONSTANT µ_0)" = .ok "\\mu_0" ∧
      typeset (.record (Declarations.options { units := [("mοl", "X")] })) "(@LABEL UNIT mοl)" =
        .ok "\\mathrm{mol}" := by
  refine ⟨(typeset_form _ .function (.ofText "φ" rfl)).trans ?_, ?_,
    (typeset_form _ .constant (.ofText "µ_0" rfl)).trans ?_,
    (typeset_form _ .unit (.ofText "mοl" rfl)).trans ?_⟩
  all_goals decide +kernel

end Role

end WorksheetTex
