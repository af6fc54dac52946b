import SchemaVersioning.Analysis.Data
import SchemaVersioning.CommandLine.Command
import SchemaVersioning.CommandLine.PlainText
import SchemaVersioning.Json.Writer
import SchemaVersioning.Loading.Compilation

/-!
# Reports of commands

A report is what a command prints, the files that it writes, and how it ends.  Checking and
generating end alike: well only if the files load and nothing is wrong with the unit.  A number of
too many digits cannot be told in a line of text or in generated declarations, and a command that
comes to one ends there.
-/

namespace SchemaVersioning.CommandLine

/-- How a command ends. -/
inductive Outcome where
  | success
  | failure
  | usage
  | missingFile
  | invalid
deriving DecidableEq, Repr

/-- The number of an outcome. -/
def Outcome.code : Outcome → Nat
  | success => 0
  | failure => 1
  | usage => 2
  | missingFile => 3
  | invalid => 5

/-- What a command prints and writes, and how it ends: by an outcome of its own, or in the middle of
its work by a failure that it does not catch. -/
structure Report where
  outcome : Outcome
  output : String
  errors : String
  written : Option (FilePath × String)
  uncaught : Option Failure

namespace Report

def lines (texts : List String) : String := plainText (String.join (texts.map (· ++ "\n")))

def ofLines (output : List String) : Report := ⟨.success, lines output, "", none, none⟩

/-- A report of an error, told on lines of which the last says what it means. -/
def ofError (outcome : Outcome) (details : List String) (message : String) : Report :=
  ⟨outcome, "", lines (details ++ ["Error: " ++ message]), none, none⟩

/-- A report that a failure breaks off after some lines. -/
def brokenOff (details : List String) (f : Failure) : Report :=
  ⟨.failure, "", lines details, none, some f⟩

/-- The report of a failure to load; a failure that is no error of a stage has none. -/
def ofFailure : Failure → Except Failure Report
  | .stage error =>
    .ok (ofError (if error.code = "E001" then .missingFile else .invalid) [] error.text)
  | failure => .error failure

/-- The report of a command line that cannot be understood. -/
def ofUsage (fault : UsageFault) : Report := ofError .usage [] fault.message

end Report

/-! ## Numbers that cannot be told -/

mutual

/-- Whether all integers in a value can be told. -/
def isTellable : Value → Bool
  | .int n => DecimalDigit.isShort n.natAbs
  | .list items => areTellable items
  | .set items => areTellable items
  | .object entries => areTellableEntries entries
  | .cyclic _ content => isTellable content
  | _ => true

/-- Whether all integers in the items of a list can be told. -/
def areTellable : List Value → Bool
  | [] => true
  | v :: rest => isTellable v && areTellable rest

/-- Whether all integers in the entries of an object can be told. -/
def areTellableEntries : List (Key × Value) → Bool
  | [] => true
  | (_, v) :: rest => isTellable v && areTellableEntries rest

end

/-- The report of a unit with something wrong, one diagnostic after another, up to one that cannot
be told. -/
def Report.ofDiagnostics (diagnostics : List Diagnostic) (message : String) : Report :=
  if diagnostics.all (·.isTellable) then ofError .invalid (diagnostics.map (·.text)) message
  else .brokenOff ((diagnostics.takeWhile (·.isTellable)).map (·.text)) .tooLarge

namespace Command

/-! ## Checking -/

/-- A family on one line. -/
def familyLine (f : Family) : String :=
  s!"  {f.name}: V1..V{f.latest.number} ({f.strategy.name})"

/-- The report of a result as text. -/
def textReport (r : CompilationResult) : Report :=
  if r.passed then
    .ofLines (s!"{r.unitName}: {r.families.length} families OK" :: r.families.map familyLine)
  else
    Report.ofDiagnostics r.diagnostics
      s!"{r.diagnostics.length} diagnostic(s) in unit '{r.unitName}'"

/-- The report of a result as data. -/
def dataReport (r : CompilationResult) : Report :=
  let data := Json.indented .minimal (r.toTimedValue (.finite false 0 0))
  ⟨if r.passed then .success else .invalid, Report.lines [data], "", none, none⟩

/-- The report of a checked unit. -/
def checkReport (format : Format) (r : CompilationResult) : Report :=
  match format with
  | .text => textReport r
  | .json => dataReport r

/-! ## Generating -/

/-- The generated declarations of a unit as data. -/
def generatedData (r : CompilationResult) : Value :=
  .record [("unit", .text r.unitName), ("generated", r.generatedValue)]

/-- The generated declarations of a unit. -/
def generatedText (r : CompilationResult) : String := Json.indented .ascii (generatedData r)

/-- The report of generated declarations that are printed, or written to a file. -/
def deliver (w : Workspace) (output : Option FilePath) (r : CompilationResult) : Report :=
  match output with
  | none => .ofLines [generatedText r]
  | some path =>
    match w.writeFault? path with
    | some fault =>
      .ofError .failure [] s!"Cannot write output file: {fault.message} (path={path.text})"
    | none =>
      { outcome := .success
        output := Report.lines ["Wrote " ++ path.text]
        errors := Report.lines [s!"Generated {r.generated.length} families"]
        written := some (path, generatedText r ++ "\n")
        uncaught := none }

/-- The report of generated declarations.  Of what keeps a unit from compiling only its diagnostics
are reported. -/
def generateReport (w : Workspace) (output : Option FilePath) (r : CompilationResult) :
    Except Failure Report :=
  match r.settled with
  | .ok r => if isTellable (generatedData r) then .ok (deliver w output r) else .error .tooLarge
  | .error (.violations diagnostics) =>
    .ok (Report.ofDiagnostics diagnostics
      s!"{diagnostics.length} diagnostic(s); nothing generated")
  | .error failure => .error failure

/-! ## All commands -/

def versionLine : String := "stable-schema 0.1.0"

/-- The usage of the program. -/
def usageLines : List String :=
  ["Usage: stable-schema [--log-level LEVEL] [--log-json] COMMAND ...",
    "  check UNIT [-c PATH] [-f text|json]",
    "  generate UNIT [-c PATH] [-o PATH]"]

/-- The report on a unit that loads, or the failure that no report tells of. -/
def reportOn (w : Workspace) (unit : String) (config : Option String)
    (report : CompilationResult → Except Failure Report) : Except Failure Report :=
  match w.loadInputs (.ofText unit) (config.map .ofText) with
  | .error failure => Report.ofFailure failure
  | .ok (u, c) => do report (← u.analyzed c)

/-- The report of a command.  A directory is no file that a command can name. -/
def report (w : Workspace) (command : Command) : Except Failure Report :=
  if command.namesNull then .error (.value "embedded null byte")
  else
    match command.directory? w with
    | some path => .ok (Report.ofUsage (.directory path))
    | none =>
    match command with
    | version => .ok (Report.ofLines [versionLine])
    | help => .ok (Report.ofLines usageLines)
    | check unit config format => reportOn w unit config fun r => .ok (checkReport format r)
    | generate unit config output =>
      reportOn w unit config (generateReport w (output.map .ofText))

/-- What a command leaves in the journal. -/
def journal (w : Workspace) (command : Command) : List Entry :=
  let onUnit (unit : String) (config : Option String) : List Entry :=
    let unit := FilePath.ofText unit
    let config := config.map FilePath.ofText
    match w.loadInputs unit config with
    | .error _ => w.inputSpans unit config
    | .ok (u, c) => w.inputSpans unit config ++ u.compileJournal c
  if command.namesNull || (command.directory? w).isSome then []
  else
    match command with
    | version => []
    | help => []
    | check unit config _ => onUnit unit config
    | generate unit config _ => onUnit unit config

end Command

/-- The report of a command line, or the failure that ends it without one. -/
def run (w : Workspace) (args : List String) : Except Failure Report :=
  match Command.read args with
  | .error fault => .ok (Report.ofUsage fault)
  | .ok command => command.report w

/-- The exit code of a command line. -/
def exitCode : Except Failure Report → Nat
  | .error _ => Outcome.failure.code
  | .ok report => report.outcome.code

/-- What a command line leaves in the journal: spans alone, for events are not kept. -/
def journal (w : Workspace) (args : List String) : List Entry :=
  match Command.read args with
  | .error _ => []
  | .ok command => Entry.withoutEventsAll (command.journal w)

end SchemaVersioning.CommandLine
