import ReaderGen.Command.Run

/-!
# The program

Reads the format from a file and prints what the command makes of it.
-/

namespace ReaderGen

/-- Why a file could not be read. A code is reported as it is or negated. -/
def Unreadable.ofError : IO.Error → Unreadable
  | .inappropriateType _ code _ =>
    if code = 20 || code = 0 - 20 then .notDirectory else .isDirectory
  | _ => .missing

/-- The text of a file. -/
def readText (path : String) : IO (Except Unreadable String) := do
  try
    return Directory.decode (← IO.FS.readBinFile path)
  catch e =>
    return .error (.ofError e)

end ReaderGen

open ReaderGen in
def main (arguments : List String) : IO UInt32 := do
  let outcome ← match Command.parse arguments with
    | .error stop => pure (Outcome.stopped stop)
    | .ok command => do
      let content ← readText command.path
      pure (.ofResult (command.execute .wrapping content))
  IO.print outcome.output
  IO.eprint outcome.complaint
  return outcome.exitCode.toUInt32
