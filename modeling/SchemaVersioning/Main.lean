import SchemaVersioning.CommandLine.Report

/-!
# The program

Reads the files that a command line names, and prints and writes what the command reports.
-/

namespace SchemaVersioning.CommandLine

/-- What a path leads to on this machine. -/
def lookUp (path : FilePath) : IO Lookup := do
  let notDirectory := 20
  let isDirectory := 21
  let nameTooLong := 36
  try
    let content ← IO.FS.readBinFile path.text
    return .found (.regular content.toList)
  catch e =>
    match e with
    | .inappropriateType _ code _ =>
      return if code = isDirectory then .found .directory
        else if code = notDirectory then .blocked else .absent
    | .invalidArgument _ code _ => return if code = nameTooLong then .overlong else .absent
    | _ => return .absent

/-- The files that a command names, and those that its output lies below. -/
def namedFiles (args : List String) : List FilePath :=
  match Command.read args with
  | .error _ => []
  | .ok command =>
    (command.paths.map FilePath.ofText).flatMap fun path => path.ancestors ++ [path]

/-- The workspace of this machine, as far as a command line names files. -/
def machine (args : List String) : IO Workspace := do
  let here ← IO.currentDir
  let found ← (namedFiles args).mapM fun path => do return (path, ← lookUp path)
  return ⟨here.toString, fun path => (found.lookup path).getD .absent⟩

end SchemaVersioning.CommandLine

open SchemaVersioning CommandLine

/-- Runs a command line and returns its exit code. -/
def main (args : List String) : IO UInt32 := do
  let outcome := run (← machine args) args
  match outcome with
  | .error failure => (← IO.getStderr).putStrLn (failure.kind ++ ": " ++ failure.text)
  | .ok report =>
    match report.written with
    | none => pure ()
    | some (path, text) =>
      IO.FS.createDirAll path.parent.text
      IO.FS.writeFile path.text text
    (← IO.getStdout).putStr report.output
    (← IO.getStderr).putStr report.errors
  return (exitCode outcome).toUInt32
