import WorksheetTex.Tex.Markup

namespace WorksheetTex.Vocabulary

open Tex

def entry (name latex : Text) : Text × Text :=
  (name, latex)

def defaultUnits : List (Text × Text) :=
  [ entry "m" (upright "m"), entry "kg" (upright "kg"), entry "s" (upright "s"),
    entry "A" (upright "A"), entry "K" (upright "K"), entry "mol" (upright "mol"),
    entry "cd" (upright "cd"), entry "N" (upright "N"), entry "n" (upright "n"),
    entry "newton" (upright "N"), entry "Pa" (upright "Pa"), entry "J" (upright "J"),
    entry "W" (upright "W"), entry "C" (upright "C"), entry "V" (upright "V"),
    entry "F" (upright "F"), entry "Ω" "\\Omega", entry "S" (upright "S"),
    entry "T" (upright "T"), entry "H" (upright "H"), entry "Hz" (upright "Hz"),
    entry "min" (upright "min"), entry "h" (upright "h"), entry "day" (upright "day"),
    entry "deg" (sup "\\circ"), entry "rad" (upright "rad"), entry "sr" (upright "sr"),
    entry "L" (upright "L"), entry "g" (upright "g"), entry "t" (upright "t"),
    entry "eV" (upright "eV"), entry "bar" (upright "bar"), entry "atm" (upright "atm"),
    entry "in" (upright "in"), entry "ft" (upright "ft"), entry "mi" (upright "mi"),
    entry "lb" (upright "lb") ]

def defaultConstants : List (Text × Text) :=
  [ entry "c" "c", entry "e_c" "e", entry "h" "h", entry "ℏ" "\\hbar",
    entry "k" ("k_" ++ upright "B"), entry "m_u" ("m_" ++ upright "u"),
    entry "N_A" ("N_" ++ upright "A"), entry "R" "R", entry "R_∞" ("R" ++ sub "\\infty"),
    entry "α" "\\alpha", entry "γ" "\\gamma", entry "ε_0" "\\varepsilon_0", entry "μ_0" "\\mu_0",
    entry "σ" "\\sigma", entry "Φ_0" "\\Phi_0", entry "G" "G", entry "g" "g",
    entry "M_e" ("m_" ++ upright "e"), entry "M_p" ("m_" ++ upright "p"),
    entry "M_n" ("m_" ++ upright "n"), entry "q_e" "e", entry "F" "F", entry "n_0" "n_0",
    entry "K_J" ("K_" ++ upright "J"), entry "R_K" ("R_" ++ upright "K"),
    entry "μ_B" ("\\mu_" ++ upright "B"), entry "μ_N" ("\\mu_" ++ upright "N"), entry "a_0" "a_0",
    entry "E_h" ("E_" ++ upright "h"), entry "λ_C" ("\\lambda_" ++ upright "C") ]

def defaultFunctions : List (Text × Text) :=
  [ entry "sin" "\\sin", entry "cos" "\\cos", entry "tan" "\\tan", entry "cot" "\\cot",
    entry "sec" "\\sec", entry "csc" "\\csc", entry "arcsin" "\\arcsin",
    entry "arccos" "\\arccos", entry "arctan" "\\arctan", entry "sinh" "\\sinh",
    entry "cosh" "\\cosh", entry "tanh" "\\tanh", entry "ln" "\\ln", entry "log" "\\log",
    entry "log10" ("\\log" ++ sub "10"), entry "exp" "\\exp", entry "abs" "\\left|#\\right|",
    entry "max" "\\max", entry "min" "\\min" ]

end WorksheetTex.Vocabulary
