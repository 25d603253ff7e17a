/-
UriExpansion/Main.lean

The program: `uritemplate COMMAND TEMPLATE OPTIONS`.

The two files that a call can name are looked at before it is carried out,
and all that follows is `CommandLine.run`.
-/
import UriExpansion.CommandLine

namespace UriExpansion

/-- The number by which the system refuses to read a directory. -/
def isDirectoryCode : UInt32 := 21

/-- What stands at a path of the file system. -/
def lookAt (path : Text) : IO Lookup := do
  match path.toString? with
  | none => return .unencodable
  | some name =>
    try
      return .file (← IO.FS.readBinFile name)
    catch
      | .inappropriateType _ code _ => return if code = isDirectoryCode then .directory else .blocked
      | _ => return .missing

/-- The paths of the files that a call can name. -/
def CommandLine.Call.paths : CommandLine.Call → List Text
  | .expand call => call.configFile.toList ++ call.varsFile.toList
  | _ => []

/-- The summary that is shown instead of an answer. -/
def usageText : String :=
  String.intercalate "\n"
    ["Usage: uritemplate COMMAND TEMPLATE [OPTIONS]",
      "",
      "Commands:",
      "  validate   Parse a template and list its expressions.",
      "  variables  Print the variable names a template references, in order.",
      "  expand     Expand a template with variables from a file or the command line.",
      ""]

/-- Writes a text without surrogates. -/
def putText (stream : IO.FS.Stream) (t : Text) : IO Unit :=
  stream.putStr (t.toString?.getD "")

/-- Carries out a call. -/
def carryOut (args : List String) : IO UInt32 := do
  let words := args.map lit
  let paths := match CommandLine.Call.read words with
    | .ok call => call.paths
    | .error _ => []
  let seen ← paths.mapM fun path => do return (path, ← lookAt path)
  let files : Files := fun path =>
    ((seen.find? fun e => e.1 = path).map Prod.snd).getD .missing
  match CommandLine.run files words with
  | .printed p =>
    putText (← IO.getStdout) p.out
    putText (← IO.getStderr) p.err
    return p.exitCode.toUInt32
  | .usage exitCode =>
    (← IO.getStdout).putStr usageText
    return exitCode.toUInt32
  | .uncaught _ =>
    (← IO.getStderr).putStr "uritemplate: the call could not be carried out\n"
    return 1

end UriExpansion

/-- Runs the program. -/
def main (args : List String) : IO UInt32 := UriExpansion.carryOut args
