import ClassicAlgorithms.CommandLine.Program

/-!
# The executable

Arguments, environment, files and streams; everything else is `Program`. Input is
read only if the arguments ask for a command.
-/
namespace ClassicAlgorithms

/-- What went wrong with a read. The operating system tells two kinds of wrong
file apart by number: 21 is a directory where a file is asked for, and the other
a file in the place of a directory. -/
def readFault : IO.Error → ReadFault
  | .noFileOrDirectory .. => .notFound
  | .inappropriateType _ number _ =>
    if number = 21 then .isDirectory else .other "Not a directory (os error 20)"
  | .permissionDenied .. => .other "Permission denied (os error 13)"
  | e => .other (toString e)

def readBytes : InputSource → IO ByteArray
  | .stdin => do (← IO.getStdin).readBinToEnd
  | .file path => IO.FS.readBinFile path

def readSource (source : InputSource) : IO (Except ReadFault ByteArray) := do
  try return .ok (← readBytes source)
  catch e => return .error (readFault e)

def finish (o : Outcome) : IO UInt32 := do
  IO.print o.stdout
  (← IO.getStdout).flush
  IO.eprint o.stderr
  return o.exitCode.toUInt32

/-- Runs the program in the environment of the process. -/
def runProcess (arguments : List String) : IO UInt32 := do
  let logFormat := (← IO.getEnv LogFormat.variableName).map String.toUTF8
  let logFilter ← IO.getEnv LogFormat.filterVariable
  match Program.plan .builtIn logFormat logFilter arguments with
  | .done outcome => finish outcome
  | .run format filter command source =>
    let input ← readSource source
    let result := (command.run (fun _ => input) source).outcome
    finish (Program.conclude .builtIn format filter result)

end ClassicAlgorithms

def main (arguments : List String) : IO UInt32 := ClassicAlgorithms.runProcess arguments
