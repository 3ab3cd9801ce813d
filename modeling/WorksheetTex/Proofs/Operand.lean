import WorksheetTex.Proofs.Clipping
import WorksheetTex.Proofs.EvaluationResult
import WorksheetTex.Proofs.Rounds

namespace WorksheetTex

open Text Tex Paren Vocabulary Form Evaluation

structure PlainAtom extends Atom where
  unmarked : openMark ∉ text

inductive Operand where
  | atom (a : PlainAtom)
  | label (kind : Atom) (name : PlainAtom) (latin : ∀ c ∈ kind.text, isLatin c = true)

namespace Operand

def tree : Operand → Tree
  | .atom a => .atom a.toAtom
  | .label kind name _ => .label kind name.toAtom

def sexp (t : Operand) : Sexp :=
  t.tree.sexp

def printAll (ts : List Operand) : Text :=
  Sexp.printAll (ts.map sexp)

theorem evaluable (t : Operand) : t.tree.Evaluable := by
  cases t with
  | atom a => exact .atom a.unmarked
  | label kind name latin => exact .label latin name.unmarked

end Operand

namespace Evaluation

def line (xs : List Atom) : Text :=
  Sexp.printAll (xs.map .atom)

section Line

variable (xs ys : List Atom)

theorem spread_line : Spread (xs.map Atom.text) (line xs) := by
  have hspread := Sexp.spread_printAll (xs.map .atom)
  rw [List.map_map] at hspread
  exact hspread

theorem exists_atom_of_mem_line : ∀ t ∈ xs.map Atom.text, ∃ a : Atom, t = a.text := by
  intro t ht
  obtain ⟨a, _, rfl⟩ := List.mem_map.mp ht
  exact ⟨a, rfl⟩

theorem not_paren_line : ∀ c ∈ line xs, isParen c = false :=
  isParen_of_spread_atoms (spread_line xs) (exists_atom_of_mem_line xs)

theorem not_mem_open_line : '(' ∉ line xs :=
  fun hmem => nomatch not_paren_line xs _ hmem

theorem line_append : line (xs ++ ys) = line xs ++ line ys := by
  rw [line, List.map_append, Sexp.printAll_append]
  rfl

end Line

def beside (op : Operator) (zs ys : List Atom) : Text :=
  enclose [op.symbol] (line zs) ++ line ys

def worked (op : Operator) (zs ys : List Atom) (ps : List Text) : State :=
  (op.render ((zs.map Atom.text).map replaceGlyphs)).elim ⟨beside op zs ys, ps⟩ fun p =>
    ⟨reference ps.length ++ line ys, ps ++ [p]⟩

section Beside

variable {lex : Lexicon} (op : Operator) (zs ys : List Atom) (ps : List Text)

theorem not_mem_open_symbol : '(' ∉ [op.symbol] := by
  cases op <;> decide

theorem balanced_operation {body : Text} (h : Balanced body) :
    Balanced (enclose [op.symbol] body) := by
  have hsymbol : Balanced [op.symbol] := by cases op <;> rfl
  have hinner := (hsymbol.append h).enclose
  rwa [List.append_assoc] at hinner

theorem balanced_line (xs : List Atom) : Balanced (line xs) :=
  balanced_flat (not_paren_line xs)

theorem balanced_beside : Balanced (beside op zs ys) :=
  (balanced_operation op (balanced_line zs)).append (balanced_line ys)

theorem idle_beside {rule : Rule Text}
    (h : ∀ k, rule [] (enclose [op.symbol] (line zs) ++ k) = none) :
    Idle rule (beside op zs ys) := by
  have hinner : '(' ∉ [op.symbol] ++ (line zs ++ [')']) := by
    simpa [not_mem_open_line] using not_mem_open_symbol op
  exact (Idle.open h (.of_flat hinner)).append (.of_flat (not_mem_open_line ys))

variable {zs}

theorem operatorRule_line (hzs : zs ≠ []) (k : Text) :
    operatorRule [] (enclose [op.symbol] (line zs) ++ k) =
      (op.render ((zs.map Atom.text).map replaceGlyphs)).map fun p =>
        ((enclose [op.symbol] (line zs)).length, p) :=
  operatorRule_atoms op (spread_line zs) (by simpa using hzs) (exists_atom_of_mem_line zs) k

theorem apply_beside (hzs : zs ≠ []) :
    State.apply ⟨beside op zs ys, ps⟩ operatorRule = worked op zs ys ps := by
  have hrule := operatorRule_line op hzs
  rw [worked]
  cases hp : op.render ((zs.map Atom.text).map replaceGlyphs) with
  | none =>
      rw [hp] at hrule
      exact State.apply_idle atForms_operatorRule (idle_beside op zs ys hrule)
  | some p =>
      rw [hp] at hrule
      have hrest : Idle operatorRule (line ys) := .of_flat (not_mem_open_line ys)
      have hit : Runs operatorRule ps (enclose [op.symbol] (line zs)) _ _ :=
        .hit atForms_operatorRule (by simp [enclose]) hrule
      exact State.apply_runs (hit.append (hrest.runs atForms_operatorRule _))

theorem rule_symbol (pass : Pass) (h : pass ≠ .operation) (body k : Text) :
    pass.rule lex [] (enclose [op.symbol] body ++ k) = none :=
  Pass.rule_operation h op _

theorem round_of_label {s : State} (hzs : zs ≠ [])
    (h : s.apply (labelRule lex) = ⟨beside op zs ys, ps⟩) : s.round lex = worked op zs ys ps := by
  have happly : Idle (applyRule lex) (beside op zs ys) :=
    idle_beside op zs ys (rule_symbol op .application nofun (line zs))
  rw [State.round, h, State.apply_idle (atForms_applyRule lex) happly, apply_beside op ys ps hzs]

theorem round_beside (hzs : zs ≠ []) :
    State.round lex ⟨beside op zs ys, ps⟩ = worked op zs ys ps := by
  have hlabel : Idle (labelRule lex) (beside op zs ys) :=
    idle_beside op zs ys (rule_symbol op .label nofun (line zs))
  exact round_of_label op ys ps hzs (State.apply_idle (atForms_labelRule lex) hlabel)

theorem dropTags_beside : dropTags (beside op zs ys) = beside op zs ys := by
  have hinner : '(' ∉ [op.symbol] ++ (line zs ++ [')']) ++ line ys := by
    simpa [not_mem_open_line] using not_mem_open_symbol op
  have hmiss : bareTagRule [] ('(' :: ([op.symbol] ++ (line zs ++ [')']) ++ line ys)) = none := by
    cases op <;> rfl
  rw [beside, enclose, List.cons_append, dropTags_keep hmiss, dropTags_of_not_mem hinner]

theorem round_worked (hzs : zs ≠ []) :
    (worked op zs ys ps).round lex = worked op zs ys ps := by
  cases hp : op.render ((zs.map Atom.text).map replaceGlyphs) with
  | none =>
      have hworked : worked op zs ys ps = ⟨beside op zs ys, ps⟩ := by rw [worked, hp]; rfl
      rw [hworked, round_beside op ys ps hzs, hworked]
  | some p =>
      have hflat : '(' ∉ reference ps.length ++ line ys := by
        simpa [not_mem_open_line] using not_mem_reference isBreak_paren.1 ps.length
      rw [worked, hp]
      exact State.round_idle fun pass => .of_flat hflat

theorem balance_worked (zs : List Atom) :
    balance (dropTags (worked op zs ys ps).text) = (worked op zs ys ps).text := by
  suffices h : dropTags (worked op zs ys ps).text = (worked op zs ys ps).text ∧
      Balanced (worked op zs ys ps).text by
    rw [h.1, balance_of_balanced h.2]
  rw [worked]
  cases op.render ((zs.map Atom.text).map replaceGlyphs) with
  | none => exact ⟨dropTags_beside op ys, balanced_beside op zs ys⟩
  | some p =>
      have hflat : ∀ c ∈ reference ps.length ++ line ys, isParen c = false := by
        intro c hc
        rcases List.mem_append.mp hc with hc | hc
        · exact not_isParen_of_mem_reference _ c hc
        · exact not_paren_line ys c hc
      exact ⟨dropTags_of_not_mem fun hmem => (nomatch hflat _ hmem), balanced_flat hflat⟩

theorem collapsed_eq_worked {e : Text} {s : State} (hzs : zs ≠ [])
    (hs : State.settle lex ⟨balance e, []⟩ = s)
    (htext : State.round lex ⟨balance (dropTags s.text), s.pieces⟩ = worked op zs ys ps) :
    collapsed lex e = worked op zs ys ps := by
  rw [collapsed, hs]
  exact State.settle_of_round htext (round_worked op ys ps hzs)

theorem collapsed_beside {b a : Text} {ps' : List Text} (hzs : zs ≠ []) (hbalanced : Balanced b)
    (hbalanced' : Balanced a) (hb : Runs (labelRule lex) [] b (line zs) ps')
    (ha : Runs (labelRule lex) ps' a (line ys) ps) :
    collapsed lex (enclose [op.symbol] b ++ a) = worked op zs ys ps := by
  have hrule := atForms_labelRule lex
  have hsymbol := (Idle.of_flat (not_mem_open_symbol op)).runs hrule []
  have hclose : Idle (labelRule lex) [')'] := .of_flat (by decide)
  have hform : Runs (labelRule lex) [] (enclose [op.symbol] b) _ ps' :=
    Runs.open hrule (rule_symbol op .label nofun b)
      (hsymbol.append (hb.append (hclose.runs hrule ps')))
  have hround : State.round lex ⟨enclose [op.symbol] b ++ a, []⟩ = worked op zs ys ps :=
    round_of_label op ys ps hzs (State.apply_runs (hform.append ha))
  have hwhole : Balanced (enclose [op.symbol] b ++ a) :=
    (balanced_operation op hbalanced).append hbalanced'
  refine collapsed_eq_worked op ys ps hzs (s := worked op zs ys ps) ?_ ?_
  · rw [balance_of_balanced hwhole]
    exact State.settle_of_round hround (round_worked op ys ps hzs)
  · rw [balance_worked]
    exact round_worked op ys ps hzs

end Beside

end Evaluation

namespace Operand

def shown (lex : Lexicon) : Operand → Text
  | .atom a => a.text
  | .label kind name _ => labelPiece lex kind.text name.text

theorem exists_runs (lex : Lexicon) (ts : List Operand) (ps : List Text) :
    ∃ (xs : List Atom) (more : List Text),
      Runs (labelRule lex) ps (printAll ts) (line xs) (ps ++ more) ∧
        (Avoids lex openMark →
          List.Forall₂ (Reduced lex (ps ++ more)) (ts.map tree) (xs.map Atom.text)) := by
  have hrule := atForms_labelRule lex
  induction ts generalizing ps with
  | nil =>
      have hnil : Idle (labelRule lex) [] := .of_flat (by simp)
      exact ⟨[], [], (List.append_nil ps).symm ▸ hnil.runs hrule ps, fun _ => .nil⟩
  | cons t ts ih =>
      have hspace (ps : List Text) : Runs (labelRule lex) ps [' '] [' '] ps :=
        (Idle.of_flat (by decide)).runs hrule ps
      cases t with
      | atom a =>
          obtain ⟨xs, more, hruns, hreduced⟩ := ih ps
          have hatom := (Idle.of_flat a.not_mem_open).runs hrule ps
          exact ⟨a.toAtom :: xs, more, ((hspace ps).append hatom).append hruns, fun hlex =>
            .cons (.atom a.unmarked) (hreduced hlex)⟩
      | label kind name latin =>
          let piece := labelPiece lex kind.text name.text
          obtain ⟨xs, more, hruns, hreduced⟩ := ih (ps ++ [piece])
          rw [List.append_assoc] at hruns hreduced
          have hit : Runs (labelRule lex) ps (enclose "@LABEL" (line [kind, name.toAtom])) _ _ :=
            .hit hrule (by simp [enclose]) (labelRule_label latin (spread_line [kind, name.toAtom]))
          refine ⟨referenceAtom ps.length :: xs, piece :: more,
            ((hspace ps).append hit).append hruns, fun hlex => ?_⟩
          have hpiece : Sealed openMark 0 piece :=
            sealed_labelPiece (.inl rfl) hlex kind.text (.of_not_mem name.unmarked)
          have hfills : Fills (values ps) piece piece := .of_not_mem hpiece.not_mem
          have hstowed : Reduced lex (ps ++ [piece]) (.label kind name.toAtom) _ :=
            .piece rfl hfills.getElem?
          have hextended := hstowed.extend more
          rw [List.append_assoc] at hextended
          exact .cons hextended (hreduced hlex)

def operation (op : Operator) (ts : List Operand) : Tree :=
  .node (.operation op) (ts.map tree)

def spilled (lex : Lexicon) (ts : List Operand) : Text :=
  ts.flatMap fun t => ' ' :: t.shown lex

def formed (lex : Lexicon) (op : Operator) (ts : List Operand) : Text :=
  if op.accepts ts.length then (operation op ts).value lex
  else enclose [op.symbol] (spilled lex ts)

variable {lex : Lexicon}

section Filled

variable {ps : List Text} {ts zs : List Operand} {xs ys : List Atom}

theorem fills_shown {t : Operand} {x : Text} (h : Reduced lex ps t.tree x) (hx : '(' ∉ x) :
    Fills (values ps) x (t.shown lex) := by
  cases t with
  | atom a =>
      cases h with
      | atom ha => exact .of_not_mem ha
      | piece hnode _ => cases hnode
  | label kind name latin =>
      cases h with
      | piece _ hvalue => exact .reference hvalue
      | label => exact absurd List.mem_cons_self hx

theorem fills_spilled (h : List.Forall₂ (Reduced lex ps) (ts.map tree) (xs.map Atom.text)) :
    Fills (values ps) (line xs) (spilled lex ts) := by
  have hR := assembles_fills (values ps)
  induction ts generalizing xs with
  | nil =>
      obtain rfl : xs = [] := by simpa using h
      exact hR.literal rfl
  | cons t ts ih =>
      cases xs with
      | nil => cases h
      | cons x xs =>
          obtain ⟨ht, hts⟩ := List.forall₂_cons.mp h
          have hspace : Fills (values ps) [' '] [' '] := hR.literal rfl
          exact hR.append (hR.append hspace (fills_shown ht x.not_mem_open)) (ih hts)

theorem fill_worked (op : Operator)
    (hz : List.Forall₂ (Reduced lex ps) (zs.map tree) (xs.map Atom.text))
    (hy : List.Forall₂ (Reduced lex ps) (ts.map tree) (ys.map Atom.text)) :
    fill (values (worked op xs ys ps).pieces) (worked op xs ys ps).text =
      formed lex op zs ++ spilled lex ts := by
  have hlength : ((xs.map Atom.text).map replaceGlyphs).length = zs.length := by
    simpa using hz.length_eq.symm
  by_cases haccepts : op.accepts zs.length = true
  · obtain ⟨p, hp, hfills⟩ := Reduced.fills_render hz (exists_atom_of_mem_line xs)
      (by rwa [List.length_map])
    have hR := assembles_fills (values (ps ++ [p]))
    have hrest := fills_spilled (hy.imp fun _ _ h => h.extend [p])
    rw [worked, hp, formed, if_pos haccepts]
    exact (hR.append (.reference hfills.getElem?) hrest).2
  · have hp : op.render ((xs.map Atom.text).map replaceGlyphs) = none := by
      rw [← Option.isNone_iff_eq_none, ← Option.not_isSome, Operator.isSome_render, hlength]
      simpa using haccepts
    have hR := assembles_fills (values ps)
    have hsymbol : Fills (values ps) [op.symbol] [op.symbol] := hR.literal (by cases op <;> rfl)
    have hform := hR.paren (hR.append hsymbol (fills_spilled hz))
    rw [worked, hp, formed, if_neg haccepts, enclose, ← List.append_assoc]
    have := hR.append hform (fills_spilled hy)
    simpa [beside, enclose] using this.2

end Filled

section Tidied

variable (htidy : lex.All Tidy)

include htidy

theorem tidy_shown (t : Operand) : Tidy (t.shown lex) := by
  cases t with
  | atom a => exact .word a.isWord
  | label kind name latin => exact Tree.tidy_labelPiece htidy kind.text name.toAtom

theorem tidy_spilled {s : Text} (hs : Tidy s) (ts : List Operand) :
    Tidy (s ++ spilled lex ts) := by
  induction ts generalizing s with
  | nil => simpa [spilled] using hs
  | cons t ts ih =>
      have hnext := ih (hs.spaced (tidy_shown htidy t))
      simpa [spilled] using hnext

theorem tidy_formed (op : Operator) (ts : List Operand) : Tidy (formed lex op ts) := by
  rw [formed]
  split
  · next haccepts =>
      have hevaluable : (operation op ts).Evaluable := by
        refine .operation (by rwa [List.length_map]) fun t ht => ?_
        obtain ⟨t, _, rfl⟩ := List.mem_map.mp ht
        exact t.evaluable
      exact hevaluable.tidy htidy
  · have hopen : Tidy ['(', op.symbol] := by cases op <;> decide
    have hclose : Tidy [')'] := by decide
    have hform := (tidy_spilled htidy hopen ts).append hclose
    simpa [enclose] using hform

end Tidied

theorem balanced_printAll (ts : List Operand) : Balanced (printAll ts) :=
  Sexp.balanced_printAll _

theorem print_operation (op : Operator) (ts : List Operand) :
    (operation op ts).sexp.print = enclose [op.symbol] (printAll ts) := by
  rw [operation, Tree.sexp_node, List.map_map]
  rfl

theorem not_mem_printAll (ts : List Operand) : openMark ∉ printAll ts := by
  have hitems : ∀ x ∈ (ts.map sexp).map Sexp.print, Sealed openMark 0 x := by
    intro x hx
    obtain ⟨e, he, rfl⟩ := List.mem_map.mp hx
    obtain ⟨t, _, rfl⟩ := List.mem_map.mp he
    have hreduced : Reduced (.ofDeclarations {}) [] t.tree t.sexp.print :=
      t.evaluable.reduced (Sexp.written_print _)
    exact hreduced.isSealed
  exact (Reduced.sealed_spread (.inl rfl) (Sexp.spread_printAll _) hitems).not_mem

theorem collapse_beside (hlex : Avoids lex openMark) (htidy : lex.All Tidy) (op : Operator)
    {ts : List Operand} (hts : ts ≠ []) (after : List Operand) :
    collapse lex ((operation op ts).sexp.print ++ printAll after) =
      .ok (formed lex op ts ++ spilled lex after) := by
  obtain ⟨xs, more, hxs, hreduced⟩ := exists_runs lex ts []
  obtain ⟨ys, more', hys, hreduced'⟩ := exists_runs lex after ([] ++ more)
  have hlength := (hreduced hlex).length_eq
  have hne : xs ≠ [] := by
    rintro rfl
    simp [hts] at hlength
  have hcollapsed := collapsed_beside op ys _ hne (balanced_printAll ts) (balanced_printAll after)
    hxs hys
  have hsymbol : openMark ∉ [op.symbol] := by cases op <;> decide
  have hmark : openMark ∉ enclose [op.symbol] (printAll ts) ++ printAll after := by
    have hparens : openMark ≠ '(' ∧ openMark ≠ ')' := by decide
    simpa [enclose, not_mem_printAll, hparens] using hsymbol
  have hfill := fill_worked op ((hreduced hlex).imp fun _ _ h => h.extend more')
    (hreduced' hlex)
  rw [print_operation, collapse_eq_fill (.inl rfl) hlex hmark, hcollapsed, hfill,
    (tidy_spilled htidy (tidy_formed htidy op ts) after).collapseBlanks]

def joint? : Operator → Option Text
  | .plus => some " + "
  | .minus => some " - "
  | .times => some " \\cdot "
  | _ => none

section Apart

variable (lex : Lexicon) {op : Operator} {joint : Text}

def valueAll (ts : List Operand) : List Text :=
  ts.map fun t => t.tree.value lex

theorem value_operation (hop : op ≠ .power) {ts : List Operand} {v : Text}
    (hv : op.render (valueAll lex ts) = some v) : (operation op ts).value lex = v := by
  refine Tree.value_operation (fun h => absurd h hop) ?_
  rwa [List.map_map]

theorem formed_pair (op : Operator) (t u : Operand) (ts : List Operand) :
    formed lex op (t :: u :: ts) = (operation op (t :: u :: ts)).value lex := by
  have haccepts : op.accepts (t :: u :: ts).length = true := by
    cases op <;> simp [Operator.accepts]
  rw [formed, if_pos haccepts]

theorem formed_joined (hop : joint? op = some joint) (t u : Operand) (ts : List Operand) :
    formed lex op (t :: u :: ts) = joinWith joint (valueAll lex (t :: u :: ts)) := by
  cases op with
  | divide => cases hop
  | power => cases hop
  | _ =>
      obtain rfl := Option.some.inj hop
      rw [formed_pair]
      exact value_operation lex (by decide) rfl

theorem length_formed_le (hop : joint? op = some joint) {ts : List Operand} (hts : ts ≠ []) :
    (formed lex op ts).length ≤ (joinWith joint (valueAll lex ts)).length + 1 := by
  obtain ⟨t, ts, rfl⟩ := List.exists_cons_of_ne_nil hts
  cases ts with
  | cons u ts =>
      rw [formed_joined lex hop]
      exact Nat.le_succ _
  | nil =>
      have hone : joinWith joint (valueAll lex [t]) = t.tree.value lex := by
        simp [valueAll, joinWith]
      have hformed (haccepts : op.accepts 1 = true) {v : Text}
          (hpower : op ≠ .power) (hv : op.render (valueAll lex [t]) = some v) :
          formed lex op [t] = v := by
        rw [formed, List.length_singleton, if_pos haccepts]
        exact value_operation lex hpower hv
      rw [hone]
      cases op with
      | divide => cases hop
      | power => cases hop
      | minus => rw [hformed rfl (by decide) rfl]; exact Nat.le_refl _
      | _ => rw [hformed rfl (by decide) rfl]; simp [joinWith]

theorem length_shown_le (t : Operand) : (t.shown lex).length ≤ (t.tree.value lex).length := by
  cases t with
  | label kind name latin => exact Nat.le_refl _
  | atom a => exact length_le_replaceGlyphs a.text

theorem exists_formed_pair (hop : joint? op = none) (t u : Operand) :
    ∃ c s, c ≠ '(' ∧ ∀ ts, formed lex op (t :: u :: ts) = c :: s := by
  simp only [formed_pair]
  cases op with
  | divide => exact ⟨'\\', _, by decide, fun ts => value_operation lex (by decide) rfl⟩
  | power =>
      cases hflag : (t.tree.reading lex).1 with
      | false => exact ⟨'{', _, by decide, fun ts => Tree.value_power hflag⟩
      | true =>
          have hvalue (ts : List Operand) : (operation .power (t :: u :: ts)).value lex =
              (if t.tree.value lex = ['e'] then t.tree.value lex else group (t.tree.value lex)) ++
                sup (u.tree.value lex) := by
            refine Tree.value_operation (fun _ s hs => ?_) rfl
            obtain rfl := Option.some.inj hs
            exact hflag
          by_cases he : t.tree.value lex = ['e']
          · simp only [he, if_true] at hvalue
            exact ⟨'e', _, by decide, hvalue⟩
          · simp only [he, if_false] at hvalue
            exact ⟨'{', _, by decide, hvalue⟩
  | _ => cases hop

theorem length_spilled_le (hop : joint? op = some joint) (ts : List Operand) :
    (spilled lex ts).length + 2 * ts.length ≤ ((valueAll lex ts).flatMap (joint ++ ·)).length := by
  have hjoint : 3 ≤ joint.length := by
    cases op <;> cases hop <;> decide
  induction ts with
  | nil => exact Nat.le_refl _
  | cons t ts ih =>
      have hshown := length_shown_le lex t
      simp only [spilled, valueAll, List.flatMap_cons, List.map_cons, List.length_append,
        List.length_cons] at ih ⊢
      omega

theorem formed_append_ne (op : Operator) {ts after : List Operand} (hts : ts ≠ [])
    (hafter : after ≠ []) :
    formed lex op ts ++ spilled lex after ≠ formed lex op (ts ++ after) := by
  intro heq
  cases hop : joint? op with
  | some joint =>
      -- A sign is missing before each operand that is left outside, and one at most is gained.
      have hjoined : formed lex op (ts ++ after) = joinWith joint (valueAll lex (ts ++ after)) := by
        obtain ⟨t, ts, rfl⟩ := List.exists_cons_of_ne_nil hts
        obtain ⟨u, us, hus⟩ : ∃ u us, ts ++ after = u :: us :=
          List.exists_cons_of_ne_nil (by simp [hafter])
        rw [List.cons_append, hus, formed_joined lex hop]
      have hsplit : valueAll lex (ts ++ after) = valueAll lex ts ++ valueAll lex after :=
        List.map_append
      have hlength := congrArg List.length heq
      rw [hjoined, hsplit, joinWith_append _ (by simpa [valueAll] using hts), List.length_append,
        List.length_append] at hlength
      have hformed := length_formed_le lex hop hts
      have hspilled := length_spilled_le lex hop after
      have hpos := List.length_pos_iff.mpr hafter
      omega
  | none =>
      obtain ⟨t, ts, rfl⟩ := List.exists_cons_of_ne_nil hts
      cases ts with
      | nil =>
          obtain ⟨u, us, rfl⟩ := List.exists_cons_of_ne_nil hafter
          obtain ⟨c, s, hc, hformed⟩ := exists_formed_pair lex hop t u
          have hone : formed lex op [t] = enclose [op.symbol] (spilled lex [t]) := by
            cases op <;> cases hop <;> rfl
          rw [hone, List.singleton_append, hformed] at heq
          exact hc (List.cons.inj heq).1.symm
      | cons u ts =>
          obtain ⟨c, s, _, hformed⟩ := exists_formed_pair lex hop t u
          rw [List.cons_append, List.cons_append, hformed, hformed,
            List.append_right_eq_self] at heq
          obtain ⟨v, vs, rfl⟩ := List.exists_cons_of_ne_nil hafter
          simp [spilled] at heq

end Apart

end Operand

end WorksheetTex
