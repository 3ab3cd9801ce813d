import WorksheetTex.Typesetting

namespace WorksheetTex

open Numeral Vocabulary

inductive Given (α : Type) where
  | missing
  | null
  | value (a : α)
deriving DecidableEq, Repr

def Given.getD {α : Type} (g : Given α) (whenMissing whenNull : α) : α :=
  match g with
  | .missing => whenMissing
  | .null => whenNull
  | .value a => a

structure Options where
  strict : Given Bool := .missing
  maxDepth : Given Binary64 := .missing
  units : Given (List (Text × Text)) := .missing
  constants : Given (List (Text × Text)) := .missing
  functions : Given (List (Text × Text)) := .missing
  annotate : Given Bool := .missing
deriving DecidableEq, Repr

inductive OptionsValue where
  | absent
  | null
  | scalar
  | record (o : Options)
deriving DecidableEq, Repr

def defaultLimit : Limit :=
  .ofNat 256

namespace Options

def isStrict (o : Options) : Bool :=
  o.strict.getD false false

def annotates (o : Options) : Bool :=
  o.annotate.getD true false

def limit (o : Options) : Limit :=
  match o.maxDepth with
  | .missing => defaultLimit
  | .null => .unset
  | .value x => .number x

def table : Given (List (Text × Text)) → Except Fault (List (Text × Text))
  | .missing => .ok []
  | .null => .error .tableNull
  | .value es => .ok es

def setting (o : Options) : Except Fault Setting := do
  let d : Declarations := ⟨← table o.units, ← table o.constants, ← table o.functions⟩
  return ⟨.ofDeclarations d, o.limit⟩

end Options

def OptionsValue.required : OptionsValue → Except Fault Options
  | .absent => .ok {}
  | .record o => .ok o
  | .null => .error .optionsNotRecord
  | .scalar => .error .optionsNotRecord

def OptionsValue.lenient : OptionsValue → Except Fault Options
  | .absent => .ok {}
  | .record o => .ok o
  | .scalar => .ok {}
  | .null => .error .optionsNull

end WorksheetTex
