import FrontEnd.CommandLine

/-!
# The program

Reads the arguments and the source file, prints the report, and ends with its exit status.
-/

open FrontEnd.CommandLine

/-- Read a file; one that cannot be opened counts as missing. -/
def readSource (path : String) : IO FileContent := do
  try
    return .bytes (← IO.FS.readBinFile path)
  catch _ =>
    return .missing

def main (args : List String) : IO UInt32 := do
  let report ← run args readSource
  IO.print report.stdout
  IO.eprint report.stderr
  return report.exit.toUInt32
