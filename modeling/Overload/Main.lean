import Overload.CommandLine.Outcome

/-!
The command line.
-/
namespace Overload

def ioReason : IO.Error → String
  | .noFileOrDirectory _ code _ => s!"No such file or directory (os error {code})"
  | e => toString e

def readContents (file : String) : IO (Except String String) := do
  try
    return .ok (← IO.FS.readFile file)
  catch e =>
    return .error (ioReason e)

/-- Reads the file that the command names, if it names one, and prints what comes of it. -/
def runArgs (args : List String) : IO UInt32 := do
  let contents : Except String String ←
    match (Command.ofArgs? args).bind Command.file? with
    | some file => readContents file
    | none => pure (.error "")
  let outcome := Outcome.ofArgs (fun _ => contents) args
  IO.print outcome.output
  IO.eprint outcome.errors
  return outcome.exitCode.toUInt32

end Overload

def main (args : List String) : IO UInt32 := Overload.runArgs args
