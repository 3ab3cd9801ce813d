import WorksheetTex.Vocabulary.Glyph

namespace WorksheetTex.Vocabulary

structure Table where
  entries : List (Text × Text)
deriving DecidableEq, Repr

def putEntry (name latex : Text) : List (Text × Text) → List (Text × Text)
  | [] => [(name, latex)]
  | (k, v) :: r => if k = name then (k, latex) :: r else (k, v) :: putEntry name latex r

def ordinal? (name : Text) : Option Nat :=
  if name.isEmpty || !name.all Char.isDigit || ("0".toList.isPrefixOf name && 1 < name.length) then
    none
  else
    let n := name.foldl (fun n c => 10 * n + (c.toNat - 48)) 0
    if n < Nat.pow 2 32 - 1 then some n else none

namespace Table

def find? (t : Table) (name : Text) : Option Text :=
  t.entries.lookup name

def contains (t : Table) (name : Text) : Bool :=
  (t.find? name).isSome

def insert (t : Table) (e : Text × Text) : Table :=
  ⟨putEntry e.1 e.2 t.entries⟩

def insertMany (t : Table) (es : List (Text × Text)) : Table :=
  es.foldl insert t

def addSpellings (t : Table) : Table :=
  t.entries.foldl
    (fun u e =>
      if u.contains (replaceGlyphs e.1) then u else u.insert (replaceGlyphs e.1, e.2))
    t

end Table

def insertNumbered (e : Nat × Text × Text) : List (Nat × Text × Text) → List (Nat × Text × Text)
  | [] => [e]
  | x :: r => if e.1 ≤ x.1 then e :: x :: r else x :: insertNumbered e r

def declared (es : List (Text × Text)) : List (Text × Text) :=
  let unique := ((Table.mk []).insertMany es).entries
  let numbered := unique.filterMap fun e => (ordinal? e.1).map (·, e)
  (numbered.foldr insertNumbered []).map (·.2) ++ unique.filter fun e => (ordinal? e.1).isNone

end WorksheetTex.Vocabulary
