import WorksheetTex.Proofs.Ready
import WorksheetTex.Proofs.Sealed
import WorksheetTex.Proofs.Tree

namespace WorksheetTex

open Text Tex Vocabulary Form Evaluation

def Shape.value (lex : Lexicon) : Shape → List (Bool × Text) → Text
  | .application f, vs => applyTemplate (lex.function f.text) (joinWith ", " (vs.map (·.2)))
  | .operation .power, (false, a) :: (_, b) :: _ => group a ++ sup b
  | .operation op, vs => (op.render (vs.map (·.2))).getD []
  | _, _ => []

namespace Tree

def reading (lex : Lexicon) : Tree → Bool × Text :=
  fold (fun a => (true, replaceGlyphs a.text))
    (fun kind name => (false, labelPiece lex kind.text name.text))
    fun shape vs => (false, shape.value lex vs)

def value (lex : Lexicon) (t : Tree) : Text :=
  (t.reading lex).2

inductive Evaluable : Tree → Prop
  | atom {a : Atom} : openMark ∉ a.text → Evaluable (.atom a)
  | label {kind name : Atom} : (∀ c ∈ kind.text, isLatin c = true) → openMark ∉ name.text →
      Evaluable (.label kind name)
  | application {f : Atom} {ts : List Tree} : openMark ∉ f.text → ts ≠ [] →
      (∀ t ∈ ts, Evaluable t) → Evaluable (.node (.application f) ts)
  | operation {op : Operator} {ts : List Tree} : op.accepts ts.length = true →
      (∀ t ∈ ts, Evaluable t) → Evaluable (.node (.operation op) ts)

@[simp] theorem reading_node (lex : Lexicon) (shape : Shape) (ts : List Tree) :
    (node shape ts).reading lex = (false, shape.value lex (ts.map (reading lex))) := by
  simp [reading, fold, foldAll_eq_map]

section Nodes

variable {lex : Lexicon}

theorem map_snd_reading (ts : List Tree) :
    (ts.map (reading lex)).map (·.2) = ts.map (value lex) := by
  rw [List.map_map]
  rfl

theorem value_application (f : Atom) (ts : List Tree) :
    (node (.application f) ts).value lex =
      applyTemplate (lex.function f.text) (joinWith ", " (ts.map (value lex))) := by
  rw [value, reading_node, ← map_snd_reading]
  rfl

theorem value_operation {op : Operator} {ts : List Tree} {v : Text}
    (h : op = .power → ∀ t ∈ ts.head?, (t.reading lex).1 = true)
    (hv : op.render (ts.map (value lex)) = some v) : (node (.operation op) ts).value lex = v := by
  suffices hvalue :
      (node (.operation op) ts).value lex = (op.render (ts.map (value lex))).getD [] by
    rw [hvalue, hv]
    rfl
  rw [value, reading_node, ← map_snd_reading]
  cases op with
  | power =>
      cases ts with
      | nil => rfl
      | cons t ts =>
          have hread : t.reading lex = (true, t.value lex) := Prod.ext (h rfl t rfl) rfl
          rw [List.map_cons, hread]
          rfl
  | _ => rfl

theorem value_power {t u : Tree} {ts : List Tree} (h : (t.reading lex).1 = false) :
    (node (.operation .power) (t :: u :: ts)).value lex =
      group (t.value lex) ++ sup (u.value lex) := by
  have hread : t.reading lex = (false, t.value lex) := Prod.ext h rfl
  rw [value, reading_node, List.map_cons, List.map_cons, hread]
  rfl

theorem operation_cases (lex : Lexicon) {op : Operator} {ts : List Tree}
    (hlen : op.accepts ts.length = true) :
    (∃ t u r, op = .power ∧ ts = t :: u :: r ∧ (t.reading lex).1 = false) ∨
      (op = .power → ∀ t ∈ ts.head?, (t.reading lex).1 = true) := by
  cases ts with
  | nil => exact .inr (by simp)
  | cons t ts =>
      by_cases hpower : op = .power ∧ (t.reading lex).1 = false
      · obtain ⟨rfl, hflag⟩ := hpower
        cases ts with
        | nil => cases hlen
        | cons u r => exact .inl ⟨t, u, r, rfl, rfl, hflag⟩
      · refine .inr fun hop s hs => ?_
        obtain rfl := Option.some.inj hs
        simpa [hop] using hpower

theorem exists_render {op : Operator} {ts : List Text} (h : op.accepts ts.length = true) :
    ∃ v, op.render ts = some v := by
  rwa [← Option.isSome_iff_exists, Operator.isSome_render]

end Nodes

end Tree

namespace Evaluation

def Fills (vs : List Text) (s v : Text) : Prop :=
  Sealed openMark vs.length s ∧ fill vs s = v

theorem Fills.of_not_mem {vs : List Text} {t : Text} (h : openMark ∉ t) : Fills vs t t :=
  ⟨.of_not_mem h, fill_of_not_mem h⟩

theorem assembles_fills (vs : List Text) : Assembles (Fills vs) := by
  refine assembles_of_ascii ?_ ?_
  · rintro s t v w ⟨hs, rfl⟩ ⟨ht, rfl⟩
    exact ⟨hs.append ht, fill_append (.inl rfl) hs ht⟩
  · intro t ht
    have hsealed : Sealed openMark 0 t := .ascii (.inl rfl) ht
    exact .of_not_mem hsealed.not_mem

theorem Fills.reference {vs : List Text} {n : Nat} {v : Text} (h : vs[n]? = some v) :
    Fills vs (reference n) v := by
  obtain ⟨hlt, _⟩ := List.getElem?_eq_some_iff.mp h
  have hsealed : Sealed openMark vs.length (Evaluation.reference n ++ []) := .reference hlt .nil
  have hfill := fill_reference vs n []
  rw [List.append_nil] at hsealed hfill
  exact ⟨hsealed, by simpa [h, fill, segments, segmentsFrom] using hfill⟩

theorem Fills.getElem? {ps : List Text} {p v : Text} (h : Fills (values ps) p v) :
    (values (ps ++ [p]))[ps.length]? = some v := by
  rw [values_concat, ← length_values ps, List.getElem?_concat_length, h.2]

theorem getElem?_values_append {ps : List Text} {n : Nat} {v : Text}
    (h : (values ps)[n]? = some v) (more : List Text) : (values (ps ++ more))[n]? = some v := by
  induction more using List.reverseRecOn with
  | nil => rwa [List.append_nil]
  | append_singleton more p ih =>
      rw [← List.append_assoc, values_concat]
      obtain ⟨hlt, _⟩ := List.getElem?_eq_some_iff.mp ih
      rwa [List.getElem?_append_left hlt]

end Evaluation

end WorksheetTex
