import LockingScript.CommandLine.Report

/-!
# Command line

Inspects one script that is given in hex.
-/

def main (arguments : List String) : IO UInt32 := do
  let outcome := LockingScript.CommandLine.run arguments
  IO.print outcome.output
  IO.eprint outcome.errors
  return outcome.status
