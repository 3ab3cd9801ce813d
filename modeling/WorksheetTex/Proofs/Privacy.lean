import WorksheetTex.Conversion
import WorksheetTex.Proofs.Layer
import WorksheetTex.Proofs.Sweep

namespace WorksheetTex

open Text Vocabulary Form Evaluation

namespace Setting

section Private

variable (s : Setting) {m : Char} (hm : m = openMark ∨ m = closeMark)
  (hlex : Avoids s.lexicon m) {e : Text}

include hm hlex

theorem ends_read_private {t : Text} (ht : m ∉ t) :
    Ends (Layer.All (m ∉ ·) fun _ => True) (· ≠ .referencesCyclic)
      (Layer.read s.lexicon t) := by
  have hI := hereditary_not_mem m
  have he : m ∉ trim t := hI.trim ht
  refine Layer.ends_read (inherits_holes _ hI) (fun h => nomatch h) (fun h => nomatch h)
    (fun c r hr hc => hI.head hc (hr ▸ he))
    (fun c r hr hc => hI.head hc (hr ▸ Sealed.not_mem_replaceGlyphs hm he)) trivial
    (fun _ _ => trivial) fun x hx => ?_
  rw [collapse_eq_fill hm hlex he] at hx
  cases hx

theorem ends_typesetWithin_private (n : Nat) (he : m ∉ e) :
    FailsOnly (· ≠ .referencesCyclic) (s.typesetWithin n e) :=
  s.ends_typesetWithin composes_true (fun _ _ => trivial) (fun _ _ => trivial)
    (fun _ _ h => nomatch h) (fun _ _ ht => s.ends_read_private hm hlex ht) he

theorem ends_report (strict : Bool) (he : m ∉ e) :
    FailsOnly (· ≠ .referencesCyclic) (s.report strict e) := by
  refine (s.ends_typesetWithin_private hm hlex s.limit.levels he).bind fun latex _ => ?_
  split
  · exact .pure trivial
  · refine .ite ?_ (.pure trivial)
    exact fun h => nomatch h

theorem references_private (he : m ∉ e) :
    (collapsed s.lexicon e).Valid m ∧
      collapse s.lexicon e = .ok (collapseBlanks
        (fill (values (collapsed s.lexicon e).pieces) (collapsed s.lexicon e).text)) ∧
      ∀ strict, s.report strict e ≠ .error .referencesCyclic := by
  refine ⟨valid_collapsed hm hlex he, collapse_eq_fill hm hlex he, fun strict hreport => ?_⟩
  have hends := s.ends_report hm hlex strict he
  rw [hreport] at hends
  exact hends rfl

end Private

theorem references_private_half_mark :
    (Setting.mk (.ofDeclarations {}) (.ofNat 8)).report false
      "(+ \uE0000 (@LABEL VARIABLE x)".toList ≠ .error .referencesCyclic :=
  (references_private (.mk (.ofDeclarations {}) (.ofNat 8)) (.inr rfl) (avoids_default (.inr rfl))
    (by decide)).2.2 false

theorem references_forged :
    collapse (.ofDeclarations {}) "(+ \uE0000\uE001 1)".toList = .error .referencesCyclic ∧
      collapse (.ofDeclarations {}) "(+ \uE0000\uE001 (@LABEL VARIABLE x))".toList =
        .ok "x + x".toList ∧
      (Setting.mk (.ofDeclarations {}) (.ofNat 8)).report false
        "(+ \uE0001\uE001 (@LABEL VARIABLE x)".toList = .error .referencesCyclic := by
  decide +kernel

end Setting

end WorksheetTex
