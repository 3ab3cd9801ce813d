import WorksheetTex.Proofs.Bare
import WorksheetTex.Proofs.Imbalance
import WorksheetTex.Proofs.Spacing

namespace WorksheetTex

open Text Tex Paren Vocabulary Form

theorem append_ne_of_alphanum {t x y : Text} (hne : t ≠ []) (ht : ∀ c ∈ t, c.isAlphanum = true)
    {c : Char} (hc : c.isAlphanum = false) : t ++ x ≠ c :: y := by
  obtain ⟨d, t, rfl⟩ := List.exists_cons_of_ne_nil hne
  intro h
  have hd := ht d (by simp)
  rw [(List.cons.inj h).1, hc] at hd
  cases hd

theorem spaced_of_alphanum {t : Text} (h : ∀ c ∈ t, c.isAlphanum = true) : Spaced t :=
  .of_not_mem fun hmem => nomatch h _ hmem

inductive Rank where
  | factor
  | product
  | sum

namespace Tree

inductive Ranked : Rank → Tree → Prop
  | atom {a : Atom} : (∀ c ∈ a.text, c.isAlphanum = true) → Ranked .factor (.atom a)
  | parens {t : Tree} : Ranked .sum t → Ranked .factor (.node .parens [t])
  | quotient {a b : Tree} : Ranked .sum a → Ranked .sum b →
      Ranked .factor (.node (.operation .divide) [a, b])
  | power {a b : Tree} : Ranked .sum a → Ranked .sum b →
      Ranked .factor (.node (.operation .power) [a, b])
  | product {ts : List Tree} : 2 ≤ ts.length → (∀ t ∈ ts, Ranked .factor t) →
      Ranked .product (.node (.operation .times) ts)
  | ofFactor {t : Tree} : Ranked .factor t → Ranked .product t
  | sum {ts : List Tree} : 2 ≤ ts.length → (∀ t ∈ ts, Ranked .product t) →
      Ranked .sum (.node (.operation .plus) ts)
  | difference {ts : List Tree} : 2 ≤ ts.length → (∀ t ∈ ts, Ranked .product t) →
      Ranked .sum (.node (.operation .minus) ts)
  | opposite {t : Tree} : Ranked .product t → Ranked .sum (.node (.operation .minus) [t])
  | ofProduct {t : Tree} : Ranked .product t → Ranked .sum t

theorem Ranked.bare {r : Rank} {t : Tree} (h : t.Ranked r) : t.Bare := by
  induction h with
  | @atom a _ => exact .atom a
  | parens _ ih => exact .parens ih
  | quotient _ _ iha ihb => exact .operation (by simp [iha, ihb])
  | power _ _ iha ihb => exact .operation (by simp [iha, ihb])
  | product _ _ ih => exact .operation ih
  | ofFactor _ ih => exact ih
  | sum _ _ ih => exact .operation ih
  | difference _ _ ih => exact .operation ih
  | opposite _ ih => exact .operation (by simp [ih])
  | ofProduct _ ih => exact ih

end Tree

namespace Rank

def wider : Rank → Rank
  | .factor => .product
  | _ => .sum

def endings : Rank → List Text
  | .factor => [" \\cdot ", " + ", " - ", "\x7d", "\\right)"]
  | .product => [" + ", " - ", "\x7d", "\\right)"]
  | .sum => ["\x7d", "\\right)"]

def Stops (r : Rank) (x : Text) : Prop :=
  x = [] ∨ ∃ w ∈ r.endings, w <+: x

inductive Joins : Rank → Operator → Text → Prop
  | times : Joins .factor .times " \\cdot "
  | plus : Joins .product .plus " + "
  | minus : Joins .product .minus " - "

variable {r : Rank} {x y w : Text} {op : Operator}

theorem mem_endings_of_wider (h : w ∈ r.wider.endings) : w ∈ r.endings := by
  cases r with
  | factor => exact List.mem_cons_of_mem _ h
  | product => exact List.mem_cons_of_mem _ (List.mem_cons_of_mem _ h)
  | sum => exact h

theorem mem_endings_factor (h : w ∈ r.endings) : w ∈ factor.endings := by
  cases r with
  | factor => exact h
  | product => exact @mem_endings_of_wider factor w h
  | sum => exact @mem_endings_of_wider factor w (@mem_endings_of_wider product w h)

theorem eq_of_endings {v : Text} (hv : v ∈ factor.endings) (hw : w ∈ factor.endings)
    (h : v ++ x = w ++ y) : v = w := by
  have hfree : ∀ v ∈ factor.endings, ∀ w ∈ factor.endings, v <+: w → v = w := by decide
  rcases List.prefix_or_prefix_of_prefix ⟨x, h⟩ (List.prefix_append w y) with hp | hp
  · exact hfree v hv w hw hp
  · exact (hfree w hw v hv hp).symm

namespace Stops

theorem nil : r.Stops [] :=
  .inl rfl

theorem of_mem (h : w ∈ r.endings) (k : Text) : r.Stops (w ++ k) :=
  .inr ⟨w, h, List.prefix_append w k⟩

theorem of_wider (h : r.wider.Stops x) : r.Stops x :=
  h.imp_right fun ⟨w, hw, hx⟩ => ⟨w, mem_endings_of_wider hw, hx⟩

theorem head (h : r.Stops x) : ∀ c ∈ x.head?, c.isAlphanum = false ∧ c ≠ '^' := by
  rcases h with rfl | ⟨w, hw, k, rfl⟩
  · simp
  · have hall : ∀ w ∈ factor.endings,
        w.head?.any (fun c => !c.isAlphanum && c != '^') = true := by decide
    obtain ⟨d, hd, hstop⟩ := (Option.any_eq_true _ _).mp (hall w (mem_endings_factor hw))
    intro c hc
    rw [List.head?_append, hd] at hc
    obtain rfl := Option.some.inj hc
    simpa using hstop

end Stops

namespace Joins

theorem mem_endings (h : r.Joins op w) : w ∈ r.endings := by
  cases h <;> decide

theorem spaced (h : r.Joins op w) : Spaced w := by
  cases h with
  | times => exact .char (by decide) (.of_mem (by decide))
  | plus => exact .of_not_mem (by decide)
  | minus => exact .of_not_mem (by decide)

theorem eq_of_append {op' : Operator} {w' : Text} (h : r.Joins op w) (h' : r.Joins op' w')
    (heq : w ++ x = w' ++ y) : op = op' ∧ w = w' := by
  have hw := eq_of_endings (mem_endings_factor h.mem_endings) (mem_endings_factor h'.mem_endings)
    heq
  refine ⟨?_, hw⟩
  cases h <;> cases h' <;> first | rfl | exact absurd hw (by decide)

theorem not_stops (h : r.Joins op w) (k : Text) : ¬ r.wider.Stops (w ++ k) := by
  rintro (hnil | ⟨v, hv, u, hu⟩)
  · cases h <;> cases hnil
  · have hw := eq_of_endings (mem_endings_factor hv) (mem_endings_factor h.mem_endings) hu
    subst hw
    cases h <;> exact absurd hv (by decide)

end Joins

end Rank

namespace Tree

def chain (op : Operator) (t : Tree) : List Tree → Tree
  | [] => t
  | u :: us => .node (.operation op) (t :: u :: us)

inductive Chained (r : Rank) : Tree → Prop
  | intro {op : Operator} {w : Text} {t : Tree} {ts : List Tree} : r.Joins op w → t.Ranked r →
      (∀ u ∈ ts, u.Ranked r) → Chained r (chain op t ts)

theorem exists_chain (op : Operator) {ts : List Tree} (hlen : 2 ≤ ts.length) :
    ∃ t us, ts = t :: us ∧ node (.operation op) ts = chain op t us := by
  match ts, hlen with
  | t :: u :: us, _ => exact ⟨t, u :: us, rfl, rfl⟩

theorem Ranked.chained {r : Rank} {op : Operator} {w : Text} {ts : List Tree} (hw : r.Joins op w)
    (hlen : 2 ≤ ts.length) (hts : ∀ t ∈ ts, t.Ranked r) :
    Chained r (node (.operation op) ts) := by
  obtain ⟨t, us, rfl, hchain⟩ := exists_chain op hlen
  rw [List.forall_mem_cons] at hts
  rw [hchain]
  exact .intro hw hts.1 hts.2

theorem Ranked.chained_single {r : Rank} {op : Operator} {w : Text} {t : Tree} (hw : r.Joins op w)
    (ht : t.Ranked r) : Chained r t :=
  @Chained.intro r op w t [] hw ht (by simp)

theorem Ranked.product_cases {t : Tree} (h : t.Ranked .product) : Chained .factor t := by
  cases h with
  | product hlen hts => exact chained .times hlen hts
  | ofFactor h => exact chained_single .times h

theorem Ranked.sum_cases {t : Tree} (h : t.Ranked .sum) :
    Chained .product t ∨ ∃ u, u.Ranked .product ∧ t = node (.operation .minus) [u] := by
  cases h with
  | sum hlen hts => exact .inl (chained .plus hlen hts)
  | difference hlen hts => exact .inl (chained .minus hlen hts)
  | @opposite u hu => exact .inr ⟨u, hu, rfl⟩
  | ofProduct h => exact .inl (chained_single .plus h)

section Layout

variable {lex : Lexicon} {r : Rank} {op : Operator} {w x y : Text}

theorem latex_atom {a : Atom} (ha : ∀ c ∈ a.text, c.isAlphanum = true) :
    (atom a).latex lex = a.text := by
  have hascii : a.text.all isAscii = true :=
    List.all_eq_true.mpr fun c hc => isAscii_of_isAlphanum (ha c hc)
  change spaceCommands (replaceGlyphs a.text) = a.text
  rw [replaceGlyphs_ascii hascii, spaceCommands_of_spaced (spaced_of_alphanum ha)]

theorem spaced_parens {t : Text} (h : Spaced t) : Spaced ("\\left(" ++ (t ++ "\\right)")) :=
  .command (by decide) (h.append (.of_mem (by decide)))

theorem latex_parens {t : Tree} (h : Spaced (t.latex lex)) :
    (node .parens [t]).latex lex = "\\left(" ++ (t.latex lex ++ "\\right)") := by
  rw [latex_node, ← spaceCommands_of_spaced (spaced_parens h), ← List.append_assoc]
  rfl

theorem latex_quotient (a b : Tree) :
    (node (.operation .divide) [a, b]).latex lex =
      "\\frac\x7b" ++ (a.latex lex ++ '}' :: '{' :: (b.latex lex ++ ['}'])) := by
  rw [latex_node]
  change "\\frac" ++ group (a.latex lex) ++ group (b.latex lex) = _
  simp only [group, List.append_assoc, List.cons_append, List.nil_append]
  rfl

def base (t : Text) : Text :=
  if t = ['e'] then t else group t

theorem base_cases (t : Text) :
    t = ['e'] ∧ base t = ['e'] ∨ t ≠ ['e'] ∧ base t = '{' :: (t ++ ['}']) := by
  by_cases h : t = ['e']
  · exact .inl ⟨h, (if_pos h).trans h⟩
  · exact .inr ⟨h, if_neg h⟩

theorem latex_power (a b : Tree) :
    (node (.operation .power) [a, b]).latex lex =
      base (a.latex lex) ++ '^' :: '{' :: (b.latex lex ++ ['}']) := by
  rw [latex_node]
  rfl

theorem latex_opposite (t : Tree) :
    (node (.operation .minus) [t]).latex lex = '-' :: t.latex lex := by
  rw [latex_node]
  rfl

theorem latex_operation (hw : r.Joins op w) {ts : List Tree} (hlen : 2 ≤ ts.length) :
    (node (.operation op) ts).latex lex = joinWith w (ts.map (latex lex)) := by
  match ts, hlen with
  | t :: u :: us, _ =>
      rw [latex_node]
      cases hw <;> rfl

theorem spaced_operation (hw : r.Joins op w) {ts : List Tree} (hlen : 2 ≤ ts.length)
    (hts : ∀ t ∈ ts, Spaced (t.latex lex)) : Spaced ((node (.operation op) ts).latex lex) := by
  rw [latex_operation hw hlen]
  exact .joinWith hw.spaced (List.forall_mem_map.mpr hts)

theorem Ranked.spaced {t : Tree} (h : t.Ranked r) : Spaced (t.latex lex) := by
  have hbrace : Spaced ['}'] := .of_not_mem (by decide)
  induction h with
  | @atom a ha =>
      rw [latex_atom ha]
      exact spaced_of_alphanum ha
  | parens _ ih =>
      rw [latex_parens ih]
      exact spaced_parens ih
  | quotient _ _ iha ihb =>
      rw [latex_quotient]
      exact .command (by decide)
        (iha.append (.char (by decide) (.char (by decide) (ihb.append hbrace))))
  | @power a b _ _ iha ihb =>
      have hbase : Spaced (base (a.latex lex)) := by
        rcases base_cases (a.latex lex) with ⟨_, h⟩ | ⟨_, h⟩ <;> rw [h]
        · exact .of_not_mem (by decide)
        · exact .char (by decide) (iha.append hbrace)
      rw [latex_power]
      exact hbase.append (.char (by decide) (.char (by decide) (ihb.append hbrace)))
  | product hlen _ ih => exact spaced_operation .times hlen ih
  | ofFactor _ ih => exact ih
  | sum hlen _ ih => exact spaced_operation .plus hlen ih
  | difference hlen _ ih => exact spaced_operation .minus hlen ih
  | opposite _ ih =>
      rw [latex_opposite]
      exact .char (by decide) ih
  | ofProduct _ ih => exact ih

def tail (lex : Lexicon) (w : Text) (ts : List Tree) : Text :=
  ts.flatMap fun t => w ++ t.latex lex

theorem tail_nil : tail lex w [] = [] := rfl

theorem tail_cons (t : Tree) (ts : List Tree) (x : Text) :
    tail lex w (t :: ts) ++ x = w ++ (t.latex lex ++ (tail lex w ts ++ x)) := by
  simp [tail]

theorem latex_chain (hw : r.Joins op w) (t : Tree) (ts : List Tree) :
    (chain op t ts).latex lex = t.latex lex ++ tail lex w ts := by
  cases ts with
  | nil => exact (List.append_nil _).symm
  | cons u us =>
      rw [chain, latex_operation hw (by simp), List.map_cons, joinWith_eq_flatMap,
        List.flatMap_map, tail]

theorem base_append_ne {t : Text} {c : Char} (he : c ≠ 'e') (hc : c ≠ '{') :
    base t ++ x ≠ c :: y := by
  intro h
  rcases base_cases t with ⟨_, hbase⟩ | ⟨_, hbase⟩ <;> rw [hbase] at h
  · exact he (List.cons.inj h).1.symm
  · exact hc (List.cons.inj h).1.symm

theorem Ranked.append_ne_minus {t : Tree} (h : t.Ranked .product) :
    t.latex lex ++ x ≠ '-' :: y := by
  cases h.product_cases with
  | @intro op w t ts hw ht _ =>
      rw [latex_chain hw, List.append_assoc]
      cases ht with
      | @atom a ha =>
          rw [latex_atom ha]
          exact append_ne_of_alphanum a.ne_nil ha (by decide)
      | parens ht =>
          rw [latex_parens ht.spaced]
          exact fun h => absurd (List.cons.inj h).1 (by decide)
      | quotient _ _ =>
          rw [latex_quotient]
          exact fun h => absurd (List.cons.inj h).1 (by decide)
      | power _ _ =>
          rw [latex_power, List.append_assoc]
          exact base_append_ne (by decide) (by decide)

end Layout

section Reading

variable {lex : Lexicon} {r : Rank} {op : Operator} {w x y : Text}

theorem stops_tail (hw : r.Joins op w) (hx : r.wider.Stops x) (ts : List Tree) :
    r.Stops (tail lex w ts ++ x) := by
  cases ts with
  | nil => exact hx.of_wider
  | cons t ts =>
      rw [tail_cons]
      exact .of_mem hw.mem_endings _

def Readable (lex : Lexicon) (r : Rank) (a : Tree) : Prop :=
  ∀ b x y, b.Ranked r → r.Stops x → r.Stops y → a.latex lex ++ x = b.latex lex ++ y →
    a = b ∧ x = y

theorem tail_readable {op' : Operator} {w' : Text} (hw : r.Joins op w) (hw' : r.Joins op' w')
    (hx : r.wider.Stops x) (hy : r.wider.Stops y) {ts us : List Tree}
    (hts : ∀ t ∈ ts, Readable lex r t) (hus : ∀ u ∈ us, u.Ranked r)
    (h : tail lex w ts ++ x = tail lex w' us ++ y) :
    ts = us ∧ x = y ∧ (ts = [] ∨ op = op') := by
  induction ts generalizing us with
  | nil =>
      cases us with
      | nil => exact ⟨rfl, h, .inl rfl⟩
      | cons u us =>
          rw [tail_nil, List.nil_append, tail_cons] at h
          exact absurd (h ▸ hx) (hw'.not_stops _)
  | cons t ts ih =>
      rw [tail_cons] at h
      cases us with
      | nil =>
          rw [tail_nil, List.nil_append] at h
          exact absurd (h ▸ hy) (hw.not_stops _)
      | cons u us =>
          rw [tail_cons] at h
          obtain ⟨rfl, rfl⟩ := hw.eq_of_append hw' h
          rw [List.forall_mem_cons] at hts hus
          obtain ⟨rfl, htail⟩ := hts.1 u _ _ hus.1 (stops_tail hw hx ts) (stops_tail hw hy us)
            (List.append_cancel_left h)
          obtain ⟨rfl, rfl, _⟩ := ih hts.2 hus.2 htail
          exact ⟨rfl, rfl, .inr rfl⟩

theorem chain_readable (hw : r.Joins op w) {t b : Tree} {ts : List Tree} (ht : Readable lex r t)
    (hts : ∀ u ∈ ts, Readable lex r u) (hb : Chained r b) (hx : r.wider.Stops x)
    (hy : r.wider.Stops y) (h : (chain op t ts).latex lex ++ x = b.latex lex ++ y) :
    chain op t ts = b ∧ x = y := by
  cases hb with
  | @intro op' w' u us hw' hu hus =>
      rw [latex_chain hw, latex_chain hw', List.append_assoc, List.append_assoc] at h
      obtain ⟨rfl, htail⟩ := ht u _ _ hu (stops_tail hw hx ts) (stops_tail hw' hy us) h
      obtain ⟨rfl, rfl, hop⟩ := tail_readable hw hw' hx hy hts hus htail
      refine ⟨?_, rfl⟩
      rcases hop with rfl | rfl <;> rfl

theorem stops_brace (k : Text) : Rank.sum.Stops ('}' :: k) :=
  .of_mem (w := ['}']) (by decide) k

theorem stops_paren (k : Text) : Rank.sum.Stops ("\\right)" ++ k) :=
  .of_mem (by decide) k

theorem base_readable {a b : Tree} (ha : Readable lex .sum a) (hb : b.Ranked .sum)
    (h : base (a.latex lex) ++ '^' :: x = base (b.latex lex) ++ '^' :: y) : a = b ∧ x = y := by
  rcases base_cases (a.latex lex) with ⟨hae, ha'⟩ | ⟨_, ha'⟩ <;>
    rcases base_cases (b.latex lex) with ⟨hbe, hb'⟩ | ⟨_, hb'⟩ <;> rw [ha', hb'] at h
  · have hab := ha b [] [] hb .nil .nil (by rw [hae, hbe])
    exact ⟨hab.1, by simpa using h⟩
  · exact absurd (List.cons.inj h).1 (by decide)
  · exact absurd (List.cons.inj h).1 (by decide)
  · simp only [List.cons_append, List.append_assoc, List.nil_append, List.cons.injEq, true_and] at h
    obtain ⟨rfl, hrest⟩ := ha b _ _ hb (stops_brace _) (stops_brace _) h
    exact ⟨rfl, by simpa using hrest⟩

theorem takeWhile_alphanum {t : Text} (ht : ∀ c ∈ t, c.isAlphanum = true) (hx : r.Stops x) :
    (t ++ x).takeWhile Char.isAlphanum = t :=
  takeWhile_append_of_head ht fun c hc => (hx.head c hc).1

theorem atom_readable {a : Atom} (ha : ∀ c ∈ a.text, c.isAlphanum = true) :
    Readable lex .factor (.atom a) := by
  intro b x y hb hx hy h
  rw [latex_atom ha] at h
  cases hb with
  | @atom b hb =>
      rw [latex_atom hb] at h
      have htext : a.text = b.text := by
        rw [← takeWhile_alphanum ha hx, h, takeWhile_alphanum hb hy]
      obtain ⟨t, _, _⟩ := a
      obtain rfl : t = b.text := htext
      exact ⟨rfl, List.append_cancel_left h⟩
  | parens ht =>
      rw [latex_parens ht.spaced] at h
      exact absurd h (append_ne_of_alphanum a.ne_nil ha (by decide))
  | quotient _ _ =>
      rw [latex_quotient] at h
      exact absurd h (append_ne_of_alphanum a.ne_nil ha (by decide))
  | @power b c _ _ =>
      rw [latex_power, List.append_assoc] at h
      rcases base_cases (b.latex lex) with ⟨_, hbase⟩ | ⟨_, hbase⟩ <;> rw [hbase] at h
      · have htext : a.text = ['e'] := by
          rw [← takeWhile_alphanum ha hx, h]
          rfl
        rw [htext] at h
        obtain rfl := (List.cons.inj h).2
        exact absurd rfl (hx.head '^' rfl).2
      · exact absurd h (append_ne_of_alphanum a.ne_nil ha (by decide))

theorem parens_readable {t : Tree} (ht : t.Ranked .sum) (hread : Readable lex .sum t) :
    Readable lex .factor (node .parens [t]) := by
  intro b x y hb hx hy h
  cases hb with
  | atom hb => exact absurd (atom_readable hb _ _ _ (.parens ht) hy hx h.symm).1 nofun
  | @parens u hu =>
      rw [latex_parens ht.spaced, latex_parens hu.spaced] at h
      simp only [List.append_assoc] at h
      obtain ⟨rfl, hrest⟩ := hread u _ _ hu (stops_paren x) (stops_paren y)
        (List.append_cancel_left h)
      exact ⟨rfl, List.append_cancel_left hrest⟩
  | quotient _ _ =>
      rw [latex_parens ht.spaced, latex_quotient] at h
      exact absurd (List.cons.inj (List.cons.inj h).2).1 (by decide)
  | power _ _ =>
      rw [latex_parens ht.spaced, latex_power, List.append_assoc (base _)] at h
      exact absurd h.symm (base_append_ne (c := '\\') (by decide) (by decide))

theorem quotient_readable {a b : Tree} (ha : a.Ranked .sum) (hb : b.Ranked .sum)
    (hreada : Readable lex .sum a) (hreadb : Readable lex .sum b) :
    Readable lex .factor (node (.operation .divide) [a, b]) := by
  intro c x y hc hx hy h
  cases hc with
  | atom hc => exact absurd (atom_readable hc _ _ _ (.quotient ha hb) hy hx h.symm).1 nofun
  | parens hu =>
      rw [latex_parens hu.spaced, latex_quotient] at h
      exact absurd (List.cons.inj (List.cons.inj h).2).1 (by decide)
  | @quotient a' b' ha' hb' =>
      rw [latex_quotient, latex_quotient] at h
      simp only [List.append_assoc, List.cons_append, List.nil_append] at h
      obtain ⟨rfl, hbehind⟩ := hreada a' _ _ ha' (stops_brace _) (stops_brace _)
        (List.append_cancel_left h)
      simp only [List.cons.injEq, true_and] at hbehind
      obtain ⟨rfl, hrest⟩ := hreadb b' _ _ hb' (stops_brace _) (stops_brace _) hbehind
      exact ⟨rfl, (List.cons.inj hrest).2⟩
  | power _ _ =>
      rw [latex_quotient, latex_power, List.append_assoc (base _)] at h
      exact absurd h.symm (base_append_ne (c := '\\') (by decide) (by decide))

theorem power_readable {a b : Tree} (ha : a.Ranked .sum) (hb : b.Ranked .sum)
    (hreada : Readable lex .sum a) (hreadb : Readable lex .sum b) :
    Readable lex .factor (node (.operation .power) [a, b]) := by
  intro c x y hc hx hy h
  cases hc with
  | atom hc => exact absurd (atom_readable hc _ _ _ (.power ha hb) hy hx h.symm).1 nofun
  | parens hu =>
      rw [latex_parens hu.spaced, latex_power, List.append_assoc] at h
      exact absurd h (base_append_ne (c := '\\') (by decide) (by decide))
  | quotient _ _ =>
      rw [latex_quotient, latex_power, List.append_assoc] at h
      exact absurd h (base_append_ne (c := '\\') (by decide) (by decide))
  | @power a' b' ha' hb' =>
      rw [latex_power, latex_power] at h
      simp only [List.append_assoc, List.cons_append, List.nil_append] at h
      obtain ⟨rfl, hbehind⟩ := base_readable hreada ha' h
      obtain ⟨rfl, hrest⟩ := hreadb b' _ _ hb' (stops_brace _) (stops_brace _)
        (List.cons.inj hbehind).2
      exact ⟨rfl, (List.cons.inj hrest).2⟩

theorem product_readable {t : Tree} {ts : List Tree} (ht : Readable lex .factor t)
    (hts : ∀ u ∈ ts, Readable lex .factor u) : Readable lex .product (chain .times t ts) :=
  fun _ _ _ hb hx hy h => chain_readable .times ht hts hb.product_cases hx hy h

theorem sum_readable (hw : Rank.product.Joins op w) {t : Tree} {ts : List Tree}
    (hranked : t.Ranked .product) (ht : Readable lex .product t)
    (hts : ∀ u ∈ ts, Readable lex .product u) : Readable lex .sum (chain op t ts) := by
  intro b x y hb hx hy h
  rcases hb.sum_cases with hb | ⟨u, _, rfl⟩
  · exact chain_readable hw ht hts hb hx hy h
  · rw [latex_chain hw, latex_opposite, List.append_assoc] at h
    exact absurd h hranked.append_ne_minus

theorem opposite_readable {t : Tree} (ht : Readable lex .product t) :
    Readable lex .sum (node (.operation .minus) [t]) := by
  intro b x y hb hx hy h
  rw [latex_opposite] at h
  rcases hb.sum_cases with hb | ⟨u, hu, rfl⟩
  · cases hb with
    | intro hw hu _ =>
        rw [latex_chain hw, List.append_assoc] at h
        exact absurd h.symm hu.append_ne_minus
  · rw [latex_opposite] at h
    obtain ⟨rfl, hrest⟩ := ht u x y hu (.of_wider hx) (.of_wider hy) (List.cons.inj h).2
    exact ⟨rfl, hrest⟩

theorem Ranked.readable {t : Tree} (h : t.Ranked r) : Readable lex r t := by
  induction h with
  | atom ha => exact atom_readable ha
  | parens ht ih => exact parens_readable ht ih
  | quotient ha hb iha ihb => exact quotient_readable ha hb iha ihb
  | power ha hb iha ihb => exact power_readable ha hb iha ihb
  | product hlen _ ih =>
      obtain ⟨t, ts, rfl, hchain⟩ := exists_chain .times hlen
      rw [List.forall_mem_cons] at ih
      exact hchain ▸ product_readable ih.1 ih.2
  | @ofFactor t _ ih => exact @product_readable lex t [] ih (by simp)
  | sum hlen hts ih =>
      obtain ⟨t, ts, rfl, hchain⟩ := exists_chain .plus hlen
      rw [List.forall_mem_cons] at ih hts
      exact hchain ▸ sum_readable .plus hts.1 ih.1 ih.2
  | difference hlen hts ih =>
      obtain ⟨t, ts, rfl, hchain⟩ := exists_chain .minus hlen
      rw [List.forall_mem_cons] at ih hts
      exact hchain ▸ sum_readable .minus hts.1 ih.1 ih.2
  | opposite _ ih => exact opposite_readable ih
  | @ofProduct t ht ih => exact @sum_readable lex .plus _ .plus t [] ht ih (by simp)

end Reading

end Tree

theorem typeset_ranked {o : Options} {s : Setting} (hs : o.setting = .ok s) {t : Tree}
    (ht : t.Ranked .sum) (hn : t.height ≤ s.limit.levels) :
    typeset (.record o) t.sexp.print = .ok (t.latex s.lexicon) := by
  have hspelled := (Sexp.written_print t.sexp).spelled
  have hreport := report_record hs (Setting.typesetWithin_bare ht.bare hn hspelled)
    (.inr (imbalance?_of_balanced hspelled.item.balanced))
  rw [typeset, hreport, spaceCommands_of_spaced ht.spaced]
  rfl

theorem typeset_injective (o : Options) {s : Setting} (hs : o.setting = .ok s) {a b : Tree}
    (ha : a.Ranked .sum) (hb : b.Ranked .sum) (hna : a.height ≤ s.limit.levels)
    (hnb : b.height ≤ s.limit.levels) :
    ∃ u v, typeset (.record o) a.sexp.print = .ok u ∧ typeset (.record o) b.sexp.print = .ok v ∧
      (u = v → a = b) := by
  refine ⟨_, _, typeset_ranked hs ha hna, typeset_ranked hs hb hnb, fun h => ?_⟩
  exact (ha.readable b [] [] hb .nil .nil (by rw [h])).1

theorem typeset_injective_base :
    ∃ u v, typeset (.record {}) "(- (* e x) (^ e (- x)))".toList = .ok u ∧
      typeset (.record {}) "(- (* e x) (^ (@PARENS e) (- x)))".toList = .ok v ∧ u ≠ v := by
  let e : Tree := .atom (.ofText "e" rfl)
  let x : Tree := .atom (.ofText "x" rfl)
  let difference (base : Tree) : Tree := .node (.operation .minus)
    [.node (.operation .times) [e, x],
      .node (.operation .power) [base, .node (.operation .minus) [x]]]
  have he : e.Ranked .factor := .atom (List.all_eq_true.mp rfl)
  have hx : x.Ranked .factor := .atom (List.all_eq_true.mp rfl)
  have hproduct : (Tree.node (.operation .times) [e, x]).Ranked .product :=
    .product (Nat.le_refl 2) (by simp [he, hx])
  have hdifference {base : Tree} (hbase : base.Ranked .factor) : (difference base).Ranked .sum := by
    have hpower := Tree.Ranked.power (.ofProduct (.ofFactor hbase)) (.opposite (.ofFactor hx))
    exact .difference (Nat.le_refl 2) (by simp [hproduct, Tree.Ranked.ofFactor hpower])
  obtain ⟨u, v, hu, hv, h⟩ := typeset_injective {} rfl (hdifference he)
    (hdifference (.parens (.ofProduct (.ofFactor he)))) (by decide) (by decide)
  exact ⟨u, v, hu, hv, fun huv => nomatch h huv⟩

end WorksheetTex
