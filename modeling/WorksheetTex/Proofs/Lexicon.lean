import WorksheetTex.Vocabulary.Lexicon

namespace WorksheetTex.Vocabulary

open Tex

section Entries

variable {P : Text → Prop} {t : Table} {es : List (Text × Text)}

theorem forall_putEntry {name latex : Text} (h : ∀ e ∈ es, P e.2) (hp : P latex) :
    ∀ e ∈ putEntry name latex es, P e.2 := by
  induction es with
  | nil => simpa [putEntry] using hp
  | cons e es ih =>
      have htail : ∀ e ∈ es, P e.2 := fun x hx => h x (by simp [hx])
      rw [putEntry]
      split
      · exact List.forall_mem_cons.mpr ⟨hp, htail⟩
      · exact List.forall_mem_cons.mpr ⟨h e (by simp), ih htail⟩

theorem forall_insertMany (ht : ∀ e ∈ t.entries, P e.2) (h : ∀ e ∈ es, P e.2) :
    ∀ e ∈ (t.insertMany es).entries, P e.2 := by
  induction es generalizing t with
  | nil => exact ht
  | cons e es ih =>
      have hinsert : ∀ x ∈ (t.insert e).entries, P x.2 := forall_putEntry ht (h e (by simp))
      exact ih hinsert fun x hx => h x (by simp [hx])

theorem forall_addSpellings (ht : ∀ e ∈ t.entries, P e.2) :
    ∀ e ∈ t.addSpellings.entries, P e.2 := by
  rw [Table.addSpellings]
  suffices h : ∀ (es : List (Text × Text)) (u : Table), (∀ e ∈ u.entries, P e.2) →
      (∀ e ∈ es, P e.2) → ∀ e ∈ (es.foldl _ u).entries, P e.2 from h t.entries t ht ht
  intro es
  induction es with
  | nil => exact fun u hu _ => hu
  | cons e es ih =>
      intro u hu hes
      rw [List.foldl_cons]
      refine ih _ ?_ fun x hx => hes x (by simp [hx])
      split
      · exact hu
      · exact forall_putEntry hu (hes e (by simp))

theorem forall_insertNumbered {e : Nat × Text × Text} {ns : List (Nat × Text × Text)}
    (he : P e.2.2) (h : ∀ x ∈ ns, P x.2.2) : ∀ x ∈ insertNumbered e ns, P x.2.2 := by
  induction ns with
  | nil => simpa [insertNumbered] using he
  | cons n ns ih =>
      rw [insertNumbered]
      split
      · exact List.forall_mem_cons.mpr ⟨he, h⟩
      · exact List.forall_mem_cons.mpr ⟨h n (by simp), ih fun x hx => h x (by simp [hx])⟩

theorem forall_foldr_insertNumbered {ns : List (Nat × Text × Text)} (h : ∀ x ∈ ns, P x.2.2) :
    ∀ x ∈ ns.foldr insertNumbered [], P x.2.2 := by
  induction ns with
  | nil => simp
  | cons n ns ih => exact forall_insertNumbered (h n (by simp)) (ih fun x hx => h x (by simp [hx]))

theorem forall_declared (h : ∀ e ∈ es, P e.2) : ∀ e ∈ declared es, P e.2 := by
  have hunique : ∀ e ∈ ((Table.mk []).insertMany es).entries, P e.2 :=
    forall_insertMany (by simp) h
  intro e he
  rcases List.mem_append.mp he with he | he
  · obtain ⟨x, hx, rfl⟩ := List.mem_map.mp he
    refine forall_foldr_insertNumbered (fun y hy => ?_) x hx
    obtain ⟨e, he, hmap⟩ := List.mem_filterMap.mp hy
    obtain ⟨n, -, rfl⟩ := Option.map_eq_some_iff.mp hmap
    exact hunique e he
  · exact hunique e (List.mem_filter.mp he).1

end Entries

namespace Lexicon

def All (lex : Lexicon) (P : Text → Prop) : Prop :=
  ∀ e ∈ lex.units.entries ++ lex.constants.entries ++ lex.functions.entries, P e.2

variable {P Q : Text → Prop} {lex : Lexicon}

theorem All.mono (h : lex.All P) (hpq : ∀ t, P t → Q t) : lex.All Q :=
  fun e he => hpq _ (h e he)

theorem ofDeclarations_eq_merged (d : Declarations) : ofDeclarations d = merged d := by
  obtain ⟨units, constants, functions⟩ := d
  rw [ofDeclarations]
  split
  · next hempty =>
      simp only [Declarations.isEmpty, Bool.and_eq_true, List.isEmpty_iff] at hempty
      obtain ⟨⟨rfl, rfl⟩, rfl⟩ := hempty
      rfl
  · rfl

theorem all_ofDeclarations {d : Declarations}
    (hdefault : ∀ e ∈ defaultUnits ++ defaultConstants ++ defaultFunctions, P e.2)
    (hd : ∀ e ∈ d.units ++ d.constants ++ d.functions, P e.2) : (ofDeclarations d).All P := by
  have hinsert : ∀ es ds : List (Text × Text), (∀ e ∈ es, P e.2) → (∀ e ∈ ds, P e.2) →
      ∀ e ∈ ((Table.mk es).insertMany (declared ds)).entries, P e.2 :=
    fun es ds hes hds => forall_insertMany hes (forall_declared hds)
  have hunits := hinsert defaultUnits d.units
    (fun e he => hdefault e (by simp [he])) fun e he => hd e (by simp [he])
  have hconstants := hinsert defaultConstants d.constants
    (fun e he => hdefault e (by simp [he])) fun e he => hd e (by simp [he])
  have hfunctions := hinsert defaultFunctions d.functions
    (fun e he => hdefault e (by simp [he])) fun e he => hd e (by simp [he])
  rw [ofDeclarations_eq_merged]
  intro e he
  rcases List.mem_append.mp he with he | he
  · rcases List.mem_append.mp he with he | he
    · exact forall_addSpellings hunits e he
    · exact forall_addSpellings hconstants e he
  · exact hfunctions e he

theorem of_find? {t : Table} {name v : Text} (h : ∀ e ∈ t.entries, P e.2)
    (hv : t.find? name = some v) : P v := by
  obtain ⟨l₁, l₂, hl, -⟩ := List.lookup_eq_some_iff.mp hv
  exact h (name, v) (by rw [hl]; simp)

theorem of_getD {o : Option Text} {t : Text} (ho : ∀ v, o = some v → P v) (ht : P t) :
    P (o.getD t) := by
  cases o with
  | none => exact ht
  | some v => exact ho v rfl

theorem All.function (h : lex.All P) {name : Text} (hname : P name) : P (lex.function name) := by
  have htable : ∀ e ∈ lex.functions.entries, P e.2 := fun e he => h e (by simp [he])
  refine of_getD (fun v hv => ?_) hname
  rcases Option.or_eq_some_iff.mp hv with hv | ⟨-, hv⟩
  · exact of_find? htable hv
  · exact of_find? htable hv

theorem All.unit (h : lex.All P) {name : Text} (hname : P (upright name)) : P (lex.unit name) := by
  have htable : ∀ e ∈ lex.units.entries, P e.2 := fun e he => h e (by simp [he])
  rw [Lexicon.unit]
  split
  · next hn => rwa [← hn]
  · refine of_getD (fun v hv => ?_) hname
    rcases Option.or_eq_some_iff.mp hv with hv | ⟨-, hv⟩
    · exact of_find? htable hv
    · rw [caselessUnit?] at hv
      split at hv
      · obtain ⟨e, he, rfl⟩ := Option.map_eq_some_iff.mp hv
        exact htable e (List.mem_of_find?_eq_some he)
      · cases hv

theorem All.label (h : lex.All P) {name : Text} (hname : P name) (hunit : P (upright name))
    (hfunction : P (operatorName name)) (kind : LabelKind) : P (lex.label kind name) := by
  cases kind with
  | constant => exact of_getD (fun v hv => of_find? (fun e he => h e (by simp [he])) hv) hname
  | unit => exact h.unit hunit
  | var => exact hname
  | function => exact hfunction

end Lexicon

end WorksheetTex.Vocabulary
