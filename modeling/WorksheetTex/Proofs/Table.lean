import WorksheetTex.Vocabulary.Lexicon

namespace WorksheetTex.Vocabulary

open List (Perm)

section Entries

variable {es es' : List (Text × Text)} {name latex : Text}

theorem lookup_cons_ite (e : Text × Text) (es : List (Text × Text)) (k : Text) :
    (e :: es).lookup k = if k = e.1 then some e.2 else es.lookup k := by
  obtain ⟨key, latex⟩ := e
  by_cases hk : k = key
  · rw [hk, List.lookup_cons_self, if_pos rfl]
  · have hne : (k == key) = false := by simpa using hk
    rw [List.lookup_cons, hne, if_neg hk]

theorem lookup_putEntry (name latex : Text) (es : List (Text × Text)) (k : Text) :
    (putEntry name latex es).lookup k = if k = name then some latex else es.lookup k := by
  induction es with
  | nil => exact lookup_cons_ite (name, latex) [] k
  | cons e es ih =>
      rw [putEntry, lookup_cons_ite]
      split
      · next hname =>
          rw [lookup_cons_ite, ← hname]
          by_cases hk : k = e.1 <;> simp [hk]
      · next hname =>
          rw [lookup_cons_ite, ih]
          by_cases hk : k = e.1
          · simp [hk, hname]
          · simp [hk]

def enter (ks : List Text) (k : Text) : List Text :=
  if k ∈ ks then ks else ks ++ [k]

theorem foldl_enter (ks ls : List Text) :
    ls.foldl enter ks = ks ++ (ls.filter (· ∉ ks)).eraseDups := by
  induction ls generalizing ks with
  | nil => simp
  | cons k ls ih =>
      rw [List.foldl_cons, ih, enter]
      split
      · next hk => rw [List.filter_cons_of_neg (by simpa using hk)]
      · next hk =>
          have hlater : ls.filter (· ∉ ks ++ [k]) =
              (ls.filter (· ∉ ks)).filter fun l => !l == k := by
            rw [List.filter_filter]
            refine List.filter_congr fun l _ => ?_
            by_cases hl : l = k <;> simp [hl]
          rw [List.filter_cons_of_pos (by simpa using hk), List.eraseDups_cons, hlater,
            List.append_assoc, List.singleton_append]

theorem nodup_enter {ks : List Text} (h : ks.Nodup) (k : Text) : (enter ks k).Nodup := by
  rw [enter]
  split
  · exact h
  · next hnew =>
      have hapart : ∀ l ∈ ks, l ≠ k := fun l hl he => hnew (he ▸ hl)
      exact List.nodup_append.mpr ⟨h, by simp, by simpa using hapart⟩

theorem nodup_foldl_enter {ks : List Text} (h : ks.Nodup) (ls : List Text) :
    (ls.foldl enter ks).Nodup := by
  induction ls generalizing ks with
  | nil => exact h
  | cons k ls ih => exact ih (nodup_enter h k)

theorem map_fst_putEntry (name latex : Text) (es : List (Text × Text)) :
    (putEntry name latex es).map Prod.fst = enter (es.map Prod.fst) name := by
  rw [enter]
  induction es with
  | nil => simp [putEntry]
  | cons e es ih =>
      rw [putEntry]
      split
      · next hname => simp [← hname]
      · next hname =>
          rw [List.map_cons, ih, List.map_cons]
          have hne : name ≠ e.1 := Ne.symm hname
          by_cases hmem : name ∈ es.map Prod.fst <;> simp [hmem, hne]

theorem mem_map_fst_iff {k : Text} : k ∈ es.map Prod.fst ↔ (es.lookup k).isSome = true := by
  induction es with
  | nil => simp
  | cons e es ih =>
      rw [List.map_cons, List.mem_cons, lookup_cons_ite, ih]
      by_cases hk : k = e.1 <;> simp [hk]

theorem lookup_eq_some_iff_mem (h : (es.map Prod.fst).Nodup) {k v : Text} :
    es.lookup k = some v ↔ (k, v) ∈ es := by
  induction es with
  | nil => simp
  | cons e es ih =>
      obtain ⟨hnew, hrest⟩ := List.nodup_cons.mp h
      by_cases hk : k = e.1
      · subst hk
        have hout : (e.1, v) ∉ es := fun hmem => hnew (List.mem_map.mpr ⟨_, hmem, rfl⟩)
        simp [lookup_cons_ite, hout, Prod.ext_iff, eq_comm]
      · simp [lookup_cons_ite, hk, ih hrest, Prod.ext_iff]

theorem lookup_of_perm (hp : Perm es es') (h : (es.map Prod.fst).Nodup) (k : Text) :
    es.lookup k = es'.lookup k := by
  have h' : (es'.map Prod.fst).Nodup := (hp.map Prod.fst).nodup_iff.mp h
  refine Option.ext fun v => ?_
  rw [lookup_eq_some_iff_mem h, lookup_eq_some_iff_mem h', hp.mem_iff]

end Entries

namespace Table

def keys (t : Table) : List Text :=
  t.entries.map Prod.fst

theorem mem_keys_iff {t : Table} {k : Text} : k ∈ t.keys ↔ (t.find? k).isSome = true :=
  mem_map_fst_iff

@[simp] theorem find?_insert (t : Table) (e : Text × Text) (k : Text) :
    (t.insert e).find? k = if k = e.1 then some e.2 else t.find? k :=
  lookup_putEntry e.1 e.2 t.entries k

theorem keys_insert (t : Table) (e : Text × Text) : (t.insert e).keys = enter t.keys e.1 :=
  map_fst_putEntry e.1 e.2 t.entries

theorem find?_insertMany (t : Table) (es : List (Text × Text)) (k : Text) :
    (t.insertMany es).find? k = (es.reverse.lookup k).or (t.find? k) := by
  induction es generalizing t with
  | nil => rfl
  | cons e es ih =>
      rw [insertMany, List.foldl_cons, ← insertMany, ih, find?_insert, List.reverse_cons,
        List.lookup_append, lookup_cons_ite, Option.or_assoc]
      by_cases hk : k = e.1 <;> simp [hk]

theorem keys_insertMany (t : Table) (es : List (Text × Text)) :
    (t.insertMany es).keys = (es.map Prod.fst).foldl enter t.keys := by
  induction es generalizing t with
  | nil => rfl
  | cons e es ih =>
      rw [List.map_cons, List.foldl_cons, ← keys_insert]
      exact ih (t.insert e)

theorem keys_prefix_insertMany (t : Table) (es : List (Text × Text)) :
    t.keys <+: (t.insertMany es).keys := by
  rw [keys_insertMany, foldl_enter]
  exact List.prefix_append _ _

theorem nodup_keys_insertMany {t : Table} (h : t.keys.Nodup) (es : List (Text × Text)) :
    (t.insertMany es).keys.Nodup := by
  rw [keys_insertMany]
  exact nodup_foldl_enter h _

end Table

section Declared

theorem perm_insertNumbered (e : Nat × Text × Text) (ns : List (Nat × Text × Text)) :
    Perm (insertNumbered e ns) (e :: ns) := by
  induction ns with
  | nil => exact .refl _
  | cons n ns ih =>
      rw [insertNumbered]
      split
      · exact .refl _
      · exact (ih.cons n).trans (.swap e n ns)

theorem perm_foldr_insertNumbered (ns : List (Nat × Text × Text)) :
    Perm (ns.foldr insertNumbered []) ns := by
  induction ns with
  | nil => exact .refl _
  | cons n ns ih => exact (perm_insertNumbered n _).trans (ih.cons n)

theorem map_snd_numbered (es : List (Text × Text)) :
    (es.filterMap fun e => (ordinal? e.1).map (·, e)).map Prod.snd =
      es.filter fun e => (ordinal? e.1).isSome := by
  induction es with
  | nil => rfl
  | cons e es ih => cases hn : ordinal? e.1 <;> simp [hn, ih]

theorem perm_declared (es : List (Text × Text)) :
    Perm (declared es) ((Table.mk []).insertMany es).entries := by
  rw [declared]
  generalize ((Table.mk []).insertMany es).entries = unique
  have hnumbered := (perm_foldr_insertNumbered
    (unique.filterMap fun e => (ordinal? e.1).map (·, e))).map Prod.snd
  rw [map_snd_numbered] at hnumbered
  refine (hnumbered.append_right _).trans ?_
  simpa using List.filter_append_perm (fun e => (ordinal? e.1).isSome) unique

theorem lookup_reverse_declared (es : List (Text × Text)) (k : Text) :
    (declared es).reverse.lookup k = es.reverse.lookup k := by
  have hperm := perm_declared es
  have hnodup : (((Table.mk []).insertMany es).entries.map Prod.fst).Nodup :=
    Table.nodup_keys_insertMany (t := Table.mk []) List.nodup_nil es
  have hentries := lookup_of_perm (hperm.symm.trans (List.reverse_perm _).symm) hnodup k
  rw [← hentries]
  exact (Table.find?_insertMany (Table.mk []) es k).trans (Option.or_none ..)

end Declared

namespace Table

section Spellings

def addSpelling (t : Table) (e : Text × Text) : Table :=
  if t.contains (replaceGlyphs e.1) then t else t.insert (replaceGlyphs e.1, e.2)

theorem find?_addSpelling (t : Table) (e : Text × Text) (k : Text) :
    (t.addSpelling e).find? k =
      (t.find? k).or (if replaceGlyphs e.1 = k then some e.2 else none) := by
  rw [addSpelling, contains]
  split
  · next h =>
      obtain ⟨v, hv⟩ := Option.isSome_iff_exists.mp h
      by_cases hk : replaceGlyphs e.1 = k
      · rw [← hk, hv]
        rfl
      · simp [hk]
  · next h =>
      rw [find?_insert]
      by_cases hk : replaceGlyphs e.1 = k
      · have hnone : t.find? k = none := by simpa [hk] using h
        simp [hk, hnone]
      · simp [hk, Ne.symm hk]

theorem keys_addSpelling (t : Table) (e : Text × Text) :
    (t.addSpelling e).keys = enter t.keys (replaceGlyphs e.1) := by
  have hcontains : t.contains (replaceGlyphs e.1) = true ↔ replaceGlyphs e.1 ∈ t.keys :=
    mem_keys_iff.symm
  rw [addSpelling]
  split
  · next h => rw [enter, if_pos (hcontains.mp h)]
  · exact keys_insert t _

theorem keys_addSpellings (t : Table) :
    t.addSpellings.keys = (t.keys.map replaceGlyphs).foldl enter t.keys := by
  have hfold (u : Table) (es : List (Text × Text)) : (es.foldl addSpelling u).keys =
      ((es.map Prod.fst).map replaceGlyphs).foldl enter u.keys := by
    induction es generalizing u with
    | nil => rfl
    | cons e es ih =>
        rw [List.foldl_cons, ih, keys_addSpelling]
        rfl
  exact hfold t t.entries

theorem find?_foldl_addSpelling (t : Table) (es : List (Text × Text)) (k : Text) :
    (es.foldl addSpelling t).find? k =
      (t.find? k).or ((es.find? fun e => replaceGlyphs e.1 == k).map Prod.snd) := by
  induction es generalizing t with
  | nil => simp
  | cons e es ih =>
      rw [List.foldl_cons, ih, find?_addSpelling, Option.or_assoc]
      by_cases hk : replaceGlyphs e.1 = k
      · simp [hk]
      · have hne : (replaceGlyphs e.1 == k) = false := by simpa using hk
        simp [hk, hne]

theorem map_snd_find? (p : Text → Bool) (es : List (Text × Text)) :
    (es.find? fun e => p e.1).map Prod.snd =
      ((es.map Prod.fst).find? p).bind fun q => es.lookup q := by
  induction es with
  | nil => rfl
  | cons e es ih =>
      by_cases hp : p e.1 = true
      · simp [hp, lookup_cons_ite]
      · have hskip : ∀ q ∈ (es.map Prod.fst).find? p, (e :: es).lookup q = es.lookup q := by
          intro q hq
          have hne : q ≠ e.1 := fun h => hp (h ▸ List.find?_some hq)
          simp [lookup_cons_ite, hne]
        have hfind : (e :: es).find? (fun e => p e.1) = es.find? fun e => p e.1 :=
          List.find?_cons_of_neg hp
        rw [hfind, List.map_cons, List.find?_cons_of_neg hp, ih]
        exact Option.bind_congr fun q hq => (hskip q hq).symm

theorem find?_addSpellings (t : Table) (k : Text) :
    t.addSpellings.find? k =
      (t.find? k).or ((t.keys.find? fun q => replaceGlyphs q == k).bind t.find?) := by
  have hfold := find?_foldl_addSpelling t t.entries k
  rw [map_snd_find? (fun q => replaceGlyphs q == k)] at hfold
  exact hfold

end Spellings

end Table

end WorksheetTex.Vocabulary
