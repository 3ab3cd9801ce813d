import WorksheetTex.Text.Basic

namespace WorksheetTex.Text

def patternSigns : Text :=
  ".*+?^$\x7b\x7d()|[]\\"

def escapePattern (t : Text) : Text :=
  t.flatMap fun c => if patternSigns.contains c then ['\\', c] else [c]

end WorksheetTex.Text
