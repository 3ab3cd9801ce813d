import WorksheetTex.Conversion
import WorksheetTex.Numeral.Reading

namespace WorksheetTex.CommandLine

open Text Numeral

def usage : Text :=
  "Usage: mathcad2tex [--raw] [--strict] [--max-depth N] <expression...>"

inductive UsageProblem where
  | depthNotPositive (got : Option Text)
  | unknownOption (name : Text)
deriving DecidableEq, Repr

def UsageProblem.message : UsageProblem → Text
  | .depthNotPositive got =>
      "--max-depth expects a positive integer, got " ++ got.getD "nothing"
  | .unknownOption name => "Unknown option " ++ name

structure Invocation where
  raw : Bool := false
  strict : Bool := false
  help : Bool := false
  maxDepth : Given Binary64 := .missing
  words : List Text := []
deriving DecidableEq, Repr

def readDepth (t : Text) : Option Binary64 :=
  (readNumber t).filter fun x => x.isInteger && decide (1 ≤ x.ceil)

def Invocation.read (i : Invocation) : List Text → Except UsageProblem Invocation
  | [] => .ok i
  | a :: r =>
      if a = "--raw".toList then { i with raw := true }.read r
      else if a = "--strict".toList then { i with strict := true }.read r
      else if a = "-h".toList ∨ a = "--help".toList then { i with help := true }.read r
      else if a = "--max-depth".toList then
        match r with
        | [] => .error (.depthNotPositive none)
        | v :: r =>
            match readDepth v with
            | some x => { i with maxDepth := .value x }.read r
            | none => .error (.depthNotPositive (some v))
      else if "--".toList.isPrefixOf a then .error (.unknownOption a)
      else { i with words := i.words ++ [a] }.read r

structure Lines where
  out : List Text := []
  err : List Text := []
deriving DecidableEq, Repr

structure Outcome extends Lines where
  code : Nat
deriving DecidableEq, Repr

abbrev Writing :=
  ExceptT Fault (StateM Lines)

def putOut (line : Text) : Writing Unit :=
  modify fun lines => { lines with out := lines.out ++ [line] }

def putErr (line : Text) : Writing Unit :=
  modify fun lines => { lines with err := lines.err ++ [line] }

def Invocation.options (i : Invocation) : Options :=
  { strict := .value i.strict, maxDepth := i.maxDepth }

def faultLine? : Fault → Option Text
  | f@(.unbalanced _ _) => some ("MalformedInputError: " ++ f.message)
  | f@(.tooDeep _) => some ("RecursionLimitExceededError: " ++ f.message)
  | _ => none

def Invocation.perform (i : Invocation) : Writing Nat := do
  let expression := joinWith " " i.words
  if i.help then
    putOut usage
    return 0
  else if allBlank expression then
    putErr usage
    return 2
  else
    let options := OptionsValue.record i.options
    match if i.raw then typeset options expression else typesetPolished options expression with
    | .ok latex =>
        putOut latex
        return 0
    | .error f =>
        match faultLine? f with
        | some line =>
            putErr line
            return 1
        | none => throw f

def perform (argv : List Text) : Writing Nat :=
  match Invocation.read {} argv with
  | .ok i => i.perform
  | .error problem => do
      putErr problem.message
      putErr usage
      return 2

def attempt (argv : List Text) : Except Fault Nat × Lines :=
  (perform argv).run {}

def run (argv : List Text) : Except Fault Outcome :=
  let (code, lines) := attempt argv
  code.map fun code => { lines with code := code }

end WorksheetTex.CommandLine
