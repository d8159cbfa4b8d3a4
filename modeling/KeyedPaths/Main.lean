import KeyedPaths.CommandLine

/-!
# The program

The outer layer of the command line: it reads the schema file, prints what the
run of the program leaves behind, and returns its exit code.
-/

open KeyedPaths

/-- The bytes of a file on disk. -/
def readFileBytes (path : String) :
    IO (Except CommandLine.FileError ByteArray) := do
  try
    return .ok (← IO.FS.readBinFile path)
  catch error =>
    match error with
    | .noFileOrDirectory .. => return .error .missing
    | .inappropriateType .. => return .error .directory
    | other => return .error (.other (toString other))

def main (arguments : List String) : IO UInt32 := do
  let completion :=
    CommandLine.complete (← CommandLine.run readFileBytes arguments)
  IO.print completion.stdout
  IO.eprint completion.stderr
  return completion.code
