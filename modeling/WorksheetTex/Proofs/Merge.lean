import Mathlib.Data.List.Induction
import WorksheetTex.Proofs.Declaration

namespace WorksheetTex.Vocabulary

open List (Perm)

section Ordinal

variable {k ds : Text} {n : Nat} {c : Char}

def IsOrdinal (k : Text) (n : Nat) : Prop :=
  k = Nat.toDigits 10 n ∧ n < 4294967295

theorem toDigits_of_isDigit (h : c.isDigit = true) : Nat.toDigits 10 (c.toNat - 48) = [c] := by
  have hrange := toNat_of_isDigit h
  have hlt : c.toNat - 48 < 10 := by omega
  have hc : Nat.digitChar (c.toNat - 48) = c := by
    apply Char.toNat_inj.mp
    rw [Nat.toNat_digitChar_of_lt_ten hlt]
    omega
  rw [Nat.toDigits_of_lt_base hlt, hc]

theorem toDigits_append_digits (hn : 0 < n) (hds : ds.all Char.isDigit = true) :
    Nat.toDigits 10 n ++ ds = Nat.toDigits 10 (Nat.ofDigitChars 10 ds n) := by
  induction ds generalizing n with
  | nil => rw [List.append_nil, Nat.ofDigitChars_nil]
  | cons c ds ih =>
      rw [List.all_cons, Bool.and_eq_true] at hds
      have hrange := toNat_of_isDigit hds.1
      have hdigit : Nat.toDigits 10 n ++ [c] = Nat.toDigits 10 (10 * n + (c.toNat - 48)) := by
        rw [← toDigits_of_isDigit hds.1]
        exact Nat.toDigits_append_toDigits (by decide) hn (by omega)
      calc Nat.toDigits 10 n ++ c :: ds = (Nat.toDigits 10 n ++ [c]) ++ ds := by simp
        _ = Nat.toDigits 10 (Nat.ofDigitChars 10 ds (10 * n + (c.toNat - 48))) := by
            rw [hdigit, ih (by omega) hds.2]
        _ = Nat.toDigits 10 (Nat.ofDigitChars 10 (c :: ds) n) := by
            rw [Nat.ofDigitChars_cons]
            rfl

theorem toDigits_ofDigitChars (hds : (c :: ds).all Char.isDigit = true)
    (hzero : c = '0' → ds = []) :
    Nat.toDigits 10 (Nat.ofDigitChars 10 (c :: ds) 0) = c :: ds := by
  rw [List.all_cons, Bool.and_eq_true] at hds
  by_cases hc : c = '0'
  · rw [hzero hc, hc]
    rfl
  · have hrange := toNat_of_isDigit hds.1
    have hne : c.toNat ≠ 48 := fun h => hc (Char.toNat_inj.mp h)
    have hdigits := toDigits_append_digits (n := c.toNat - 48) (by omega) hds.2
    rw [toDigits_of_isDigit hds.1, List.singleton_append] at hdigits
    rw [Nat.ofDigitChars_cons, hdigits, Nat.mul_zero, Nat.zero_add]
    rfl

theorem head?_toDigits_ne (hn : 0 < n) : (Nat.toDigits 10 n).head? ≠ some '0' := by
  induction n using Nat.strongRecOn with
  | ind n ih =>
      by_cases hlt : n < 10
      · rw [Nat.toDigits_of_lt_base hlt, List.head?_cons]
        intro h
        have hnat := congrArg Char.toNat (Option.some.inj h)
        rw [Nat.toNat_digitChar_of_lt_ten hlt] at hnat
        exact absurd hnat (by change 48 + n ≠ 48; omega)
      · rw [Nat.toDigits_of_base_le (by decide) (by omega),
          List.head?_append_of_ne_nil _ Nat.toDigits_ne_nil]
        exact ih (n / 10) (by omega) (by omega)

theorem ordinal?_eq_some_iff : ordinal? k = some n ↔ IsOrdinal k n := by
  have hfold (k : Text) :
      k.foldl (fun n c => 10 * n + (c.toNat - 48)) 0 = Nat.ofDigitChars 10 k 0 :=
    Nat.ofDigitChars_eq_foldl.symm
  rw [ordinal?, hfold]
  constructor
  · intro h
    split at h
    · cases h
    · next hform =>
        simp only [Bool.or_eq_true, Bool.not_eq_true', not_or, Bool.not_eq_true,
          Bool.not_eq_false] at hform
        obtain ⟨⟨hne, hall⟩, hzero⟩ := hform
        dsimp only at h
        split at h
        · next hlt =>
            obtain rfl := Option.some.inj h
            cases k with
            | nil => cases hne
            | cons c ds =>
                refine ⟨(toDigits_ofDigitChars hall fun hc => ?_).symm, hlt⟩
                simpa [hc] using hzero
        · cases h
  · rintro ⟨rfl, hlt⟩
    have hne : (Nat.toDigits 10 n).isEmpty = false := by simp
    have hall : (Nat.toDigits 10 n).all Char.isDigit = true :=
      List.all_eq_true.mpr fun c hc => Nat.isDigit_of_mem_toDigits (by decide) (by decide) hc
    have hzero : ("0".toList.isPrefixOf (Nat.toDigits 10 n) &&
        decide (1 < (Nat.toDigits 10 n).length)) = false := by
      cases n with
      | zero => rw [Nat.toDigits_zero]; rfl
      | succ n =>
          have hhead := head?_toDigits_ne (Nat.succ_pos n)
          cases hds : Nat.toDigits 10 (n + 1) with
          | nil => rfl
          | cons c ds =>
              have hc : '0' ≠ c := fun hc => hhead (by rw [hds, ← hc]; rfl)
              simp [hc]
    rw [hne, hall, hzero, Nat.ofDigitChars_ten_toDigits]
    exact if_pos hlt

theorem IsOrdinal.unique {m : Nat} (hm : IsOrdinal k m) (hn : IsOrdinal k n) : m = n :=
  Option.some.inj ((ordinal?_eq_some_iff.mpr hm).symm.trans (ordinal?_eq_some_iff.mpr hn))

theorem not_isOrdinal (h : (ordinal? k).isNone = true) (n : Nat) : ¬ IsOrdinal k n := by
  intro hn
  rw [ordinal?_eq_some_iff.mpr hn] at h
  cases h

end Ordinal

inductive Precedes (written : List Text) (k l : Text) : Prop
  | ordinal {n : Nat} : IsOrdinal k n → (∀ m, IsOrdinal l m → n < m) → Precedes written k l
  | written : (∀ n, ¬ IsOrdinal k n) → (∀ n, ¬ IsOrdinal l n) →
      written.idxOf k < written.idxOf l → Precedes written k l

structure Listed (ds : List (Text × Text)) (names : List Text) : Prop where
  mem_iff (k : Text) : k ∈ names ↔ k ∈ ds.map Prod.fst
  pairwise : names.Pairwise (Precedes (ds.map Prod.fst))

theorem Listed.nodup {ds : List (Text × Text)} {names : List Text} (h : Listed ds names) :
    names.Nodup := by
  refine h.pairwise.imp fun {k l} hkl => ?_
  rintro rfl
  cases hkl with
  | ordinal hk hlt => exact Nat.lt_irrefl _ (hlt _ hk)
  | written _ _ hlt => exact Nat.lt_irrefl _ hlt

section Order

variable {ns : List (Nat × Text × Text)}

theorem pairwise_eraseDups (ls : List Text) :
    ls.eraseDups.Pairwise fun k l => ls.idxOf k < ls.idxOf l := by
  induction ls using List.reverseRecOn with
  | nil => exact .nil
  | append_singleton ls x ih =>
      have hold : ls.eraseDups.Pairwise fun k l => (ls ++ [x]).idxOf k < (ls ++ [x]).idxOf l := by
        refine ih.imp_of_mem fun {k l} hk hl hlt => ?_
        rwa [List.idxOf_append_of_mem (List.mem_eraseDups.mp hk),
          List.idxOf_append_of_mem (List.mem_eraseDups.mp hl)]
      rw [List.eraseDups_append]
      by_cases hx : x ∈ ls
      · simpa [List.removeAll, hx] using hold
      · have hlast : ([x].removeAll ls).eraseDups = [x] := by
          simp [List.removeAll, hx, List.eraseDups_cons]
        rw [hlast, List.pairwise_append]
        refine ⟨hold, List.pairwise_singleton _ _, fun k hk l hl => ?_⟩
        obtain rfl := List.mem_singleton.mp hl
        have hk := List.mem_eraseDups.mp hk
        rw [List.idxOf_append_of_mem hk, List.idxOf_append_of_notMem hx]
        exact Nat.lt_add_right _ (List.idxOf_lt_length_of_mem hk)

theorem eraseDups_of_nodup {ls : List Text} (h : ls.Nodup) : ls.eraseDups = ls := by
  induction ls with
  | nil => rfl
  | cons k ls ih =>
      obtain ⟨hnew, hrest⟩ := List.nodup_cons.mp h
      have hkeep : (ls.filter fun l => !l == k) = ls :=
        List.filter_eq_self.mpr fun l hl => by
          simpa using fun heq : l = k => hnew (heq ▸ hl)
      rw [List.eraseDups_cons, hkeep, ih hrest]

theorem keys_insertMany_nil (ds : List (Text × Text)) :
    ((Table.mk []).insertMany ds).keys = (ds.map Prod.fst).eraseDups := by
  have hall : (ds.map Prod.fst).filter (· ∉ (Table.mk []).keys) = ds.map Prod.fst :=
    List.filter_eq_self.mpr fun k _ => by simp [Table.keys]
  rw [Table.keys_insertMany, foldl_enter, hall]
  rfl

theorem pairwise_insertNumbered {e : Nat × Text × Text} (h : ns.Pairwise (·.1 ≤ ·.1)) :
    (insertNumbered e ns).Pairwise (·.1 ≤ ·.1) := by
  induction ns with
  | nil => exact List.pairwise_singleton _ _
  | cons n ns ih =>
      obtain ⟨hfirst, hrest⟩ := List.pairwise_cons.mp h
      rw [insertNumbered]
      split
      · next hle =>
          refine .cons (fun m hm => ?_) h
          rcases List.mem_cons.mp hm with rfl | hm
          · exact hle
          · exact Nat.le_trans hle (hfirst m hm)
      · next hlt =>
          refine .cons (fun m hm => ?_) (ih hrest)
          rcases List.mem_cons.mp ((perm_insertNumbered e ns).mem_iff.mp hm) with rfl | hm
          · exact Nat.le_of_lt (Nat.not_le.mp hlt)
          · exact hfirst m hm

def sortNumbered (es : List (Text × Text)) : List (Nat × Text × Text) :=
  (es.filterMap fun e => (ordinal? e.1).map (·, e)).foldr insertNumbered []

theorem perm_sortNumbered (es : List (Text × Text)) :
    Perm (sortNumbered es) (es.filterMap fun e => (ordinal? e.1).map (·, e)) :=
  perm_foldr_insertNumbered _

theorem pairwise_sortNumbered (es : List (Text × Text)) :
    (sortNumbered es).Pairwise (·.1 ≤ ·.1) := by
  rw [sortNumbered]
  induction es.filterMap fun e => (ordinal? e.1).map (·, e) with
  | nil => exact .nil
  | cons n ns ih => exact pairwise_insertNumbered ih

theorem isOrdinal_of_mem {es : List (Text × Text)} {p : Nat × Text × Text}
    (hp : p ∈ sortNumbered es) : IsOrdinal p.2.1 p.1 := by
  obtain ⟨e, -, he⟩ := List.mem_filterMap.mp ((perm_sortNumbered es).mem_iff.mp hp)
  obtain ⟨n, hn, rfl⟩ := Option.map_eq_some_iff.mp he
  exact ordinal?_eq_some_iff.mp hn

theorem precedes_sortNumbered {es : List (Text × Text)} (hes : (es.map Prod.fst).Nodup)
    (written : List Text) :
    (sortNumbered es).Pairwise fun p q => Precedes written p.2.1 q.2.1 := by
  have hnames : (sortNumbered es).Pairwise fun p q => p.2.1 ≠ q.2.1 := by
    have hperm := ((perm_sortNumbered es).map Prod.snd).map Prod.fst
    rw [map_snd_numbered] at hperm
    have hnodup := hperm.nodup_iff.mpr ((List.filter_sublist.map Prod.fst).nodup hes)
    rw [List.map_map, List.Nodup, List.pairwise_map] at hnodup
    exact hnodup
  refine ((pairwise_sortNumbered es).and hnames).imp_of_mem fun {p q} hp hq hpq => ?_
  refine .ordinal (isOrdinal_of_mem hp) fun m hm => ?_
  obtain rfl := hm.unique (isOrdinal_of_mem hq)
  refine Nat.lt_of_le_of_ne hpq.1 fun heq => hpq.2 ?_
  rw [(isOrdinal_of_mem hp).1, (isOrdinal_of_mem hq).1, heq]

theorem listed_declared (ds : List (Text × Text)) : Listed ds ((declared ds).map Prod.fst) := by
  have hkeys := keys_insertMany_nil ds
  have hnodup : ((Table.mk []).insertMany ds).keys.Nodup :=
    Table.nodup_keys_insertMany (t := Table.mk []) List.nodup_nil ds
  have hwritten := pairwise_eraseDups (ds.map Prod.fst)
  rw [← hkeys, Table.keys, List.pairwise_map] at hwritten
  refine ⟨fun k => ?_, ?_⟩
  · rw [((perm_declared ds).map Prod.fst).mem_iff, ← List.mem_eraseDups (l := ds.map Prod.fst),
      ← hkeys]
    rfl
  · have hdeclared : declared ds =
        (sortNumbered ((Table.mk []).insertMany ds).entries).map Prod.snd ++
          ((Table.mk []).insertMany ds).entries.filter fun e => (ordinal? e.1).isNone := rfl
    rw [hdeclared, List.pairwise_map]
    refine List.pairwise_append.mpr ⟨?_, ?_, fun p hp q hq => ?_⟩
    · rw [List.pairwise_map]
      exact precedes_sortNumbered hnodup _
    · refine (hwritten.sublist List.filter_sublist).imp_of_mem fun {p q} hp hq hlt => ?_
      exact .written (not_isOrdinal (List.mem_filter.mp hp).2)
        (not_isOrdinal (List.mem_filter.mp hq).2) hlt
    · obtain ⟨p, hmem, rfl⟩ := List.mem_map.mp hp
      exact .ordinal (isOrdinal_of_mem hmem)
        fun m hm => absurd hm (not_isOrdinal (List.mem_filter.mp hq).2 m)

example : (declared [("b", "x"), ("10", "x"), ("07", "x"), ("9", "x"), ("b", "y")]).map Prod.fst =
    ["9", "10", "b", "07"] := by
  decide +kernel

end Order

section Merged

variable {es ds : List (Text × Text)}

def valueOf? (es ds : List (Text × Text)) (k : Text) : Option Text :=
  (ds.reverse.lookup k).or (es.lookup k)

structure Merged (es ds : List (Text × Text)) (names : List Text) (t : Table) : Prop where
  names_eq : ∃ new, Listed ds new ∧
    names = es.map Prod.fst ++ new.filter (· ∉ es.map Prod.fst)
  keys_eq : t.keys = names ++ ((names.map replaceGlyphs).filter (· ∉ names)).eraseDups
  nodup : t.keys.Nodup
  find?_eq (k : Text) : t.find? k =
    (valueOf? es ds k).or ((names.find? (replaceGlyphs · == k)).bind (valueOf? es ds))

theorem keys_overlay (es ds : List (Text × Text)) : (overlay es ds).keys =
    es.map Prod.fst ++ ((declared ds).map Prod.fst).filter (· ∉ es.map Prod.fst) := by
  have hnodup := (listed_declared ds).nodup.sublist
    (List.filter_sublist (p := fun k => k ∉ es.map Prod.fst))
  rw [overlay, Table.keys_insertMany, foldl_enter]
  exact congrArg (es.map Prod.fst ++ ·) (eraseDups_of_nodup hnodup)

theorem merged_overlay (hes : (es.map Prod.fst).Nodup) (ds : List (Text × Text)) :
    Merged es ds (overlay es ds).keys (overlay es ds).addSpellings where
  names_eq := ⟨_, listed_declared ds, keys_overlay es ds⟩
  keys_eq := by rw [Table.keys_addSpellings, foldl_enter]
  nodup := by
    rw [Table.keys_addSpellings]
    exact nodup_foldl_enter (Table.nodup_keys_insertMany hes _) _
  find?_eq k := by
    rw [Table.find?_addSpellings, find?_overlay]
    exact congrArg (Option.or _ <| Option.bind _ ·) (funext (find?_overlay es ds))

end Merged

section Lexicon

theorem nodup_names (r : Role) : (r.defaults.map Prod.fst).Nodup := by
  refine List.Nodup.of_map replaceGlyphs ?_
  rw [List.map_map]
  exact r.nodup_spellings

theorem merged_units (d : Declarations) : Merged defaultUnits d.units
    (overlay defaultUnits d.units).keys (Lexicon.ofDeclarations d).units := by
  rw [Lexicon.ofDeclarations_eq_merged]
  exact merged_overlay (nodup_names .unit) d.units

theorem merged_constants (d : Declarations) : Merged defaultConstants d.constants
    (overlay defaultConstants d.constants).keys (Lexicon.ofDeclarations d).constants := by
  rw [Lexicon.ofDeclarations_eq_merged]
  exact merged_overlay (nodup_names .constant) d.constants

theorem merged_ofDeclarations (d : Declarations) :
    (∃ names, Merged defaultUnits d.units names (Lexicon.ofDeclarations d).units) ∧
    (∃ names, Merged defaultConstants d.constants names (Lexicon.ofDeclarations d).constants) ∧
    Lexicon.ofDeclarations {} =
      ⟨(Table.mk defaultUnits).addSpellings, (Table.mk defaultConstants).addSpellings,
        Table.mk defaultFunctions⟩ ∧
    Lexicon.ofDeclarations d = Lexicon.merged d :=
  ⟨⟨_, merged_units d⟩, ⟨_, merged_constants d⟩, rfl, Lexicon.ofDeclarations_eq_merged d⟩

end Lexicon

end WorksheetTex.Vocabulary
