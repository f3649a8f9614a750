import Formulas.CommandLine.Run
/-!
# The `formulas` program

Reads the files the command line names, runs it, and prints what the run prints.
-/

open Formulas.CommandLine

/-- The contents of a file, or nothing when it cannot be read as text. -/
def readIfPossible (path : String) : IO (Option String) := do
  try
    let text ← IO.FS.readFile path
    pure (some text)
  catch _ =>
    pure none

def main (args : List String) : IO UInt32 := do
  let paths := match Request.ofArgs args with
    | .ok r => r.paths
    | .error _ => []
  let contents ← paths.mapM fun p => do pure (p, ← readIfPossible p)
  let outcome := execute args fun p => (contents.find? (·.1 == p)).bind (·.2)
  IO.print outcome.stdout
  IO.eprint outcome.diagnostic
  pure outcome.status.toUInt32
