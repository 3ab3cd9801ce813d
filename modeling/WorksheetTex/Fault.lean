import WorksheetTex.Numeral.Shortest
import WorksheetTex.Paren.Balance

namespace WorksheetTex

open Numeral Paren

inductive Limit where
  | unset
  | number (value : Binary64)
deriving DecidableEq, Repr

def Limit.levels : Limit → Nat
  | .unset => 0
  | .number x => x.ceil

def Limit.text : Limit → Text
  | .unset => "null"
  | .number x => x.text

def Limit.ofNat (n : Nat) : Limit :=
  .number (.nearest false n 1)

inductive Fault where
  | tooDeep (limit : Limit)
  | unbalanced (cause : Imbalance) (draft : Text)
  | textTooLong
  | countInfinite
  | referencesCyclic
  | optionsNotRecord
  | optionsNull
  | tableNull
deriving DecidableEq, Repr

instance Fault.decidableEqExcept {α : Type} [DecidableEq α] : DecidableEq (Except Fault α)
  | .ok a, .ok b => decidable_of_iff (a = b) (by simp)
  | .error x, .error y => decidable_of_iff (x = y) (by simp)
  | .ok _, .error _ => isFalse (by simp)
  | .error _, .ok _ => isFalse (by simp)

def Fault.message : Fault → Text
  | .tooDeep limit => "Expression nested deeper than " ++ limit.text ++ " levels"
  | .unbalanced cause _ => cause.message
  | .textTooLong => "Invalid string length"
  | .countInfinite => "Invalid count value: Infinity"
  | .referencesCyclic => "Maximum call stack size exceeded"
  | .optionsNotRecord => "options must be an object"
  | .optionsNull => "Cannot destructure property 'annotateUnchanged' of 'options' as it is null."
  | .tableNull => "Cannot convert undefined or null to object"

end WorksheetTex
