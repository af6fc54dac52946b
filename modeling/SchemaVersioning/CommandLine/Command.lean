import SchemaVersioning.CommandLine.Argument
import SchemaVersioning.Loading.Workspace
import SchemaVersioning.Telemetry.Journal

/-!
# Commands

What a command line asks for: to check a unit, to generate its declarations, or to tell the version
or the usage of the program.
-/

namespace SchemaVersioning.CommandLine

/-- How findings are reported. -/
inductive Format where
  | text
  | json
deriving DecidableEq, Repr

/-- A command, with the paths of its files as they were written. -/
inductive Command where
  | version
  | help
  | check (unit : String) (config : Option String) (format : Format)
  | generate (unit : String) (config output : Option String)
deriving DecidableEq, Repr

namespace Command

/-! ## Options -/

def helpSwitch : Switch := ⟨"help", some 'h', false⟩

def versionSwitch : Switch := ⟨"version", none, false⟩

/-- The least level of events that are written. -/
def levelSwitch : Switch := ⟨"log-level", none, true⟩

/-- Writes events as data. -/
def dataLogSwitch : Switch := ⟨"log-json", none, false⟩

/-- Writes events as text. -/
def textLogSwitch : Switch := ⟨"no-log-json", none, false⟩

/-- The file of the configuration. -/
def configSwitch : Switch := ⟨"config", some 'c', true⟩

/-- How findings are reported. -/
def formatSwitch : Switch := ⟨"format", some 'f', true⟩

/-- The file that generated declarations are written to. -/
def outputSwitch : Switch := ⟨"output-file", some 'o', true⟩

/-- The options before the name of a command. -/
def commonSwitches : List Switch :=
  [levelSwitch, dataLogSwitch, textLogSwitch, versionSwitch, helpSwitch]

/-- The levels by name. -/
def levels : List (String × Level) :=
  [("debug", .debug), ("info", .info), ("warning", .warning), ("error", .error)]

def formats : List (String × Format) := [("text", .text), ("json", .json)]

/-! ## Reading -/

/-- The one word that a command takes. -/
def onlyWord (name : String) : List String → Except UsageFault String
  | [] => .error (.missingArgument name)
  | [word] => .ok word
  | _ :: extra :: _ => .error (.extraArgument extra)

/-- A command whose name is read; asking for the usage goes before all else. -/
def readNamed (switches : List Switch) (args : List String)
    (make : List Setting → String → Except UsageFault Command) : Except UsageFault Command := do
  let (settings, words) ← readArguments (helpSwitch :: switches) true args
  if (lastValue? settings helpSwitch).isSome then .ok help
  else make settings (← onlyWord "UNIT" words)

/-- A command after the common options. -/
def readCommand : List String → Except UsageFault Command
  | [] => .error .missingCommand
  | "check" :: args =>
    readNamed [configSwitch, formatSwitch] args fun settings unit => do
      let format ← choice settings formatSwitch Format.text formats
      .ok (check unit (lastValue? settings configSwitch) format)
  | "generate" :: args =>
    readNamed [configSwitch, outputSwitch] args fun settings unit =>
      .ok (generate unit (lastValue? settings configSwitch) (lastValue? settings outputSwitch))
  | name :: _ => .error (.unknownCommand name)

/-- The command of a command line.  Asking for the version or the usage goes before all else. -/
def read (args : List String) : Except UsageFault Command := do
  let (settings, words) ← readArguments commonSwitches false args
  match settings.find? fun (s, _) => s = versionSwitch ∨ s = helpSwitch with
  | some (s, _) => .ok (if s = versionSwitch then version else help)
  | none =>
    let _ ← choice settings levelSwitch Level.error levels
    readCommand words

/-- The paths that a command names. -/
def paths : Command → List String
  | version => []
  | help => []
  | check unit config _ => unit :: config.toList
  | generate unit config output => unit :: config.toList ++ output.toList

/-- The first path of a command that leads to a directory, where a file is asked for.  An empty path
leads nowhere until the file is opened. -/
def directory? (w : Workspace) (command : Command) : Option String :=
  command.paths.find? fun path => path ≠ "" && w.look (.ofText path) = .found .directory

/-- Whether a command names a path with a null character, which no path can have. -/
def namesNull (command : Command) : Bool := command.paths.any (·.contains '\x00')

end Command

end SchemaVersioning.CommandLine
