import WorksheetTex.Tex.Markup

namespace WorksheetTex.Vocabulary

open Tex

def sign (c : Char) (latex : Text) : Char × Text :=
  (c, latex)

def greek : List (Char × Text) :=
  [ sign 'α' "\\alpha", sign 'β' "\\beta", sign 'χ' "\\chi", sign 'δ' "\\delta",
    sign 'ε' "\\epsilon", sign 'φ' "\\phi", sign 'ϕ' "\\varphi", sign 'γ' "\\gamma",
    sign 'η' "\\eta", sign 'ι' "\\iota", sign 'κ' "\\kappa", sign 'λ' "\\lambda", sign 'μ' "\\mu",
    sign 'µ' "\\mu", sign 'ν' "\\nu", sign 'ο' "o", sign 'π' "\\pi", sign 'θ' "\\theta",
    sign 'ϑ' "\\vartheta", sign 'ρ' "\\rho", sign 'σ' "\\sigma", sign 'τ' "\\tau",
    sign 'υ' "\\upsilon", sign 'ω' "\\omega", sign 'ξ' "\\xi", sign 'ψ' "\\psi",
    sign 'ζ' "\\zeta", sign 'Α' (upright "A"), sign 'Β' (upright "B"), sign 'Χ' (upright "X"),
    sign 'Δ' "\\Delta", sign 'Ε' (upright "E"), sign 'Φ' "\\Phi", sign 'Γ' "\\Gamma",
    sign 'Η' (upright "H"), sign 'Ι' (upright "I"), sign 'Κ' (upright "K"), sign 'Λ' "\\Lambda",
    sign 'Μ' (upright "M"), sign 'Ν' (upright "N"), sign 'Ο' (upright "O"), sign 'Π' "\\Pi",
    sign 'Θ' "\\Theta", sign 'Ρ' (upright "P"), sign 'Σ' "\\Sigma", sign 'Τ' (upright "T"),
    sign 'Υ' "\\Upsilon", sign 'Ω' "\\Omega", sign 'Ξ' "\\Xi", sign 'Ψ' "\\Psi",
    sign 'Ζ' (upright "Z") ]

def special : List (Char × Text) :=
  [ sign '†' (group "\\dagger"), sign '‡' (group "\\ddagger"), sign '∗' (sup "*"),
    sign '°' (sup "\\circ"), sign '′' (sup "\\prime"), sign '″' (sup "\\prime\\prime"),
    sign '‴' (sup "\\prime\\prime\\prime") ]

def infinity : Char × Text :=
  sign '∞' "\\infty"

def glyphs : List (Char × Text) :=
  greek ++ special ++ [infinity]

def glyph (c : Char) : Text :=
  (glyphs.lookup c).getD [c]

def replaceGlyphs (t : Text) : Text :=
  t.flatMap glyph

@[simp] theorem replaceGlyphs_append (s t : Text) :
    replaceGlyphs (s ++ t) = replaceGlyphs s ++ replaceGlyphs t := by
  simp [replaceGlyphs]

end WorksheetTex.Vocabulary
