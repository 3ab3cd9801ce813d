import Mathlib.Data.List.Induction
import WorksheetTex.CommandLine
import WorksheetTex.Proofs.DepthLimit

namespace WorksheetTex

open Text Vocabulary Form Evaluation Numeral

def Fault.IsRange : Fault → Prop
  | .textTooLong => True
  | .countInfinite => True
  | .referencesCyclic => True
  | _ => False

namespace CommandLine

def Foreseen (f : Fault) : Prop :=
  faultLine? f = none → f.IsRange

theorem foreseen_typesetWithin (s : Setting) (n : Nat) (t : Text) :
    FailsOnly Foreseen (s.typesetWithin n t) := by
  refine s.ends_typesetWithin (I := fun _ _ => True) composes_true (fun _ _ => trivial)
    (fun _ _ => trivial) (fun _ _ h => nomatch h) (fun n t _ => ?_) trivial
  refine Layer.ends_read (inherits_holes _ hereditary_true) (fun _ => trivial) (fun _ => trivial)
    (fun _ _ _ _ => trivial) (fun _ _ _ _ => trivial) trivial (fun _ _ => trivial) fun x hx _ => ?_
  rw [collapse_error hx]
  trivial

theorem foreseen_report (s : Setting) (strict : Bool) (t : Text) :
    FailsOnly Foreseen (s.report strict t) := by
  refine (foreseen_typesetWithin s s.limit.levels t).bind fun latex _ => ?_
  split
  · exact .pure trivial
  · refine .ite ?_ (.pure trivial)
    exact fun h => nomatch h

namespace Invocation

theorem report_options (i : Invocation) (t : Text) :
    i.options.report t =
      Setting.report ⟨.ofDeclarations {}, i.options.limit⟩ i.options.isStrict t := rfl

theorem foreseen_latex (i : Invocation) (t : Text) :
    FailsOnly Foreseen
      (if i.raw then typeset (.record i.options) t else typesetPolished (.record i.options) t) := by
  have hreport : FailsOnly Foreseen (i.options.report t) := by
    rw [report_options]
    exact foreseen_report _ _ _
  refine .ite (hreport.map fun _ _ => trivial) ?_
  exact hreport.bind fun _ _ => .pure trivial

end Invocation

inductive Disciplined : Except Fault Nat × Lines → Prop
  | escaped {f : Fault} : f.IsRange → Disciplined (.error f, ⟨[], []⟩)
  | printed (line : Text) : Disciplined (.ok 0, ⟨[line], []⟩)
  | refused (line : Text) : Disciplined (.ok 1, ⟨[], [line]⟩)
  | misused (lines : List Text) : Disciplined (.ok 2, ⟨[], lines ++ [usage]⟩)

theorem Invocation.disciplined_perform (i : Invocation) : Disciplined (i.perform.run {}) := by
  have hends := i.foreseen_latex (joinWith " " i.words)
  unfold Invocation.perform
  dsimp only
  split
  · exact .printed usage
  · split
    · exact .misused []
    · split
      · exact .printed _
      · next f hf =>
          rw [hf] at hends
          split
          · exact .refused _
          · next hline => exact .escaped (hends hline)

theorem disciplined_attempt (argv : List Text) : Disciplined (attempt argv) := by
  unfold attempt perform
  split
  · exact Invocation.disciplined_perform _
  · exact .misused [_]

structure Word where
  text : Text
  not_option : ¬ "--".toList <+: text
  not_help : text ≠ "-h".toList
deriving DecidableEq

structure Depth where
  text : Text
  value : Binary64
  reads : readNumber text = some value
  isInteger : value.isInteger = true
  pos : 1 ≤ value.ceil
deriving DecidableEq

inductive Argument where
  | word (w : Word)
  | raw
  | strict
  | maxDepth (d : Depth)
deriving DecidableEq

namespace Argument

def spelling : Argument → List Text
  | .word w => [w.text]
  | .raw => ["--raw"]
  | .strict => ["--strict"]
  | .maxDepth d => ["--max-depth", d.text]

def word? : Argument → Option Text
  | .word w => some w.text
  | _ => none

def depth? : Argument → Option Binary64
  | .maxDepth d => some d.value
  | _ => none

end Argument

section Arguments

variable (as : List Argument)

def spell : List Text :=
  as.flatMap Argument.spelling

def wordsOf : List Text :=
  as.filterMap Argument.word?

def lastDepth? : Option Binary64 :=
  (as.filterMap Argument.depth?).getLast?

def invocation : Invocation where
  raw := decide (.raw ∈ as)
  strict := decide (.strict ∈ as)
  maxDepth := (lastDepth? as).elim .missing .value
  words := wordsOf as

end Arguments

namespace Invocation

def take (i : Invocation) : Argument → Invocation
  | .word w => { i with words := i.words ++ [w.text] }
  | .raw => { i with raw := true }
  | .strict => { i with strict := true }
  | .maxDepth d => { i with maxDepth := .value d.value }

theorem readDepth_text (d : Depth) : readDepth d.text = some d.value := by
  simp [readDepth, d.reads, d.isInteger, d.pos]

theorem read_word (i : Invocation) (w : Word) (r : List Text) :
    i.read (w.text :: r) = { i with words := i.words ++ [w.text] }.read r := by
  have hoption {t : Text} (ht : "--".toList <+: t) : w.text ≠ t := by
    rintro rfl
    exact w.not_option ht
  have hraw : w.text ≠ "--raw".toList := hoption ⟨"raw", rfl⟩
  have hstrict : w.text ≠ "--strict".toList := hoption ⟨"strict", rfl⟩
  have hhelp : w.text ≠ "--help".toList := hoption ⟨"help", rfl⟩
  have hdepth : w.text ≠ "--max-depth".toList := hoption ⟨"max-depth", rfl⟩
  have hplain : "--".toList.isPrefixOf w.text = false := by
    simpa [← List.isPrefixOf_iff_prefix] using w.not_option
  rw [read.eq_def]
  dsimp only
  rw [if_neg hraw, if_neg hstrict, if_neg (not_or_intro w.not_help hhelp), if_neg hdepth, hplain]
  rfl

theorem read_spelling (i : Invocation) (a : Argument) (r : List Text) :
    i.read (a.spelling ++ r) = (i.take a).read r := by
  cases a with
  | word w => exact i.read_word w r
  | raw =>
      rw [read.eq_def]
      rfl
  | strict =>
      rw [read.eq_def]
      rfl
  | maxDepth d =>
      change i.read ("--max-depth".toList :: d.text :: r) = _
      rw [read.eq_def]
      dsimp only
      rw [readDepth_text]
      rfl

theorem read_spell (i : Invocation) (as : List Argument) :
    i.read (spell as) = .ok (as.foldl take i) := by
  induction as generalizing i with
  | nil => rfl
  | cons a as ih =>
      rw [spell, List.flatMap_cons, read_spelling, List.foldl_cons, ← ih]
      rfl

theorem take_invocation (as : List Argument) (a : Argument) :
    (invocation as).take a = invocation (as ++ [a]) := by
  cases a <;> simp [invocation, take, wordsOf, lastDepth?, Argument.word?, Argument.depth?]

theorem foldl_take (as : List Argument) : as.foldl take {} = invocation as := by
  induction as using List.reverseRecOn with
  | nil => rfl
  | append_singleton as a ih => rw [List.foldl_append, ih, ← take_invocation]; rfl

end Invocation

theorem perform_spell (as : List Argument) : perform (spell as) = (invocation as).perform := by
  rw [perform, Invocation.read_spell, Invocation.foldl_take]

theorem run_disciplined :
    (∀ argv, Disciplined (attempt argv)) ∧
      (∀ as, perform (spell as) = (invocation as).perform) ∧
      ∀ as bs, wordsOf as = wordsOf bs → (.raw ∈ as ↔ .raw ∈ bs) → (.strict ∈ as ↔ .strict ∈ bs) →
        lastDepth? as = lastDepth? bs →
        attempt (spell as) = attempt (spell bs) ∧ run (spell as) = run (spell bs) := by
  refine ⟨disciplined_attempt, perform_spell, fun as bs hwords hraw hstrict hdepth => ?_⟩
  have hsame : invocation as = invocation bs := by
    simp only [invocation, hwords, hraw, hstrict, hdepth]
  have hattempt : attempt (spell as) = attempt (spell bs) := by
    rw [attempt, attempt, perform_spell, perform_spell, hsame]
  exact ⟨hattempt, by rw [run, run, hattempt]⟩

theorem run_disciplined_mixed :
    run ["--max-depth", "7", "(/", "--raw", "x", "--max-depth", "0x10", "y)"] =
        run ["--raw", "(/", "x", "y)", "--max-depth", "16", "--raw"] ∧
      run ["--raw", "(/", "x", "y)", "--max-depth", "16", "--raw"] =
        .ok ⟨⟨["\\frac\x7bx\x7d\x7by\x7d"], []⟩, 0⟩ := by
  let a : Argument := .word ⟨"(/", by decide, by decide⟩
  let b : Argument := .word ⟨"x", by decide, by decide⟩
  let c : Argument := .word ⟨"y)", by decide, by decide⟩
  let seven : Argument :=
    .maxDepth ⟨"7", .nearest false 7 1, by decide +kernel, by decide, by decide⟩
  let sixteen (t : Text) (ht : readNumber t = some (.nearest false 16 1)) : Argument :=
    .maxDepth ⟨t, .nearest false 16 1, ht, by decide, by decide⟩
  have hsame := run_disciplined.2.2
    [seven, a, .raw, b, sixteen "0x10" (by decide +kernel), c]
    [.raw, a, b, c, sixteen "16" (by decide +kernel), .raw]
    rfl (by decide) (by decide) rfl
  exact ⟨hsame.2, by decide +kernel⟩

end CommandLine

end WorksheetTex
