import MarkovLogic.CommandLine.Session

/-!
# The program

Carries out the outcome of a run: writes the file, prints the output and the errors, and ends with
the exit code.
-/

open MarkovLogic

def main (args : List String) : IO UInt32 := do
  let outcome := Outcome.ofArguments args
  if let some (path, contents) := outcome.file then
    IO.FS.writeFile path contents
  IO.print outcome.output
  for line in outcome.errors do
    IO.eprintln line
  return outcome.exitCode.toUInt32
