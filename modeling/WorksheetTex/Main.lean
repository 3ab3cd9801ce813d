import WorksheetTex.CommandLine

open WorksheetTex

def main (args : List String) : IO UInt32 := do
  let out ← IO.getStdout
  let err ← IO.getStderr
  let (code, lines) := CommandLine.attempt (args.map String.toList)
  for line in lines.out do
    out.putStrLn (String.ofList line)
  for line in lines.err do
    err.putStrLn (String.ofList line)
  match code with
  | .ok code => return code.toUInt32
  | .error fault =>
      err.putStrLn (String.ofList fault.message)
      return 1
