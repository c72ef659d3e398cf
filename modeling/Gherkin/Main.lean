import Gherkin.CommandLine.Folder
import Gherkin.CommandLine.Output

/-!
# The program

Reads the files that a command line names and writes what the command gives.
-/

namespace Gherkin.CommandLine

/-- The message for a file that cannot be opened. -/
def systemMessage : IO.Error → String
  | .noFileOrDirectory .. => OpenFault.notFound.message
  | .inappropriateType _ _ "not a directory" => OpenFault.notADirectory.message
  | .invalidArgument _ _ "name too long" => OpenFault.nameTooLong.message
  | .permissionDenied .. => "Permission denied (os error 13)"
  | e => toString e

/-- Reads a file.  A folder can be opened but not read. -/
def openFile (path : String) : IO (Except String Source) := do
  try
    let content ← IO.FS.readBinFile path
    return .ok (.ofBytes content.toList)
  catch
    | .inappropriateType _ 21 _ => return .ok folderSource
    | e => return .error (systemMessage e)

/-- The files that a command names. -/
def Command.files : Command → List String
  | validate paths => paths
  | tokens path => [path]
  | ast path => [path]

end Gherkin.CommandLine

open Gherkin.CommandLine

/-- Runs the command line of the program on the files that it names. -/
def main (arguments : List String) : IO UInt32 := do
  let paths :=
    match readArguments {} arguments with
    | .ok (command, _) => command.files
    | .error _ => []
  let opened ← paths.mapM fun path => do return (path, ← openFile path)
  let files (path : String) := (opened.lookup path).getD (.error "not read")
  let output := run files (← IO.getEnv "GHERKIN_LANGUAGE") arguments
  IO.print output.stdout
  IO.eprint output.stderr
  return output.exitCode.toUInt32
