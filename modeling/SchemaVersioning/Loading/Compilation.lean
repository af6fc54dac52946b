import SchemaVersioning.Analysis
import SchemaVersioning.Analysis.Journal
import SchemaVersioning.Loading.Document
import SchemaVersioning.Telemetry.Block

/-!
# Compiling files

Loading a unit and its configuration and compiling the unit, and what that leaves in a journal.
-/

namespace SchemaVersioning

/-- The span of loading something, marked with the failure if it fails. -/
def loadSpan {α : Type} (name : String) (outcome : Except Failure α) : Entry :=
  let mark := match outcome with
    | .ok _ => none
    | .error f => some (Block.mark f)
  .span name [] mark []

namespace Workspace

variable (w : Workspace)

def unitSpan (path : FilePath) : Entry := loadSpan "schema.load_unit" (w.loadUnit path)

def configSpan (path : FilePath) : Entry := loadSpan "schema.load_config" (w.loadConfig path)

variable (unit : FilePath) (config : Option FilePath)

/-- A unit and its configuration. -/
def loadInputs : Except Failure (CompilationUnit × Config) := do
  let u ← w.loadUnit unit
  .ok (u, ← w.loadConfigOr config)

/-- The spans of loading a unit and then its configuration, if the unit loads. -/
def inputSpans : List Entry :=
  match w.loadUnit unit with
  | .error _ => [w.unitSpan unit]
  | .ok _ => w.unitSpan unit :: config.toList.map w.configSpan

/-- The result of compiling a unit with nothing wrong. -/
def compile : Except Failure CompilationResult := do
  let (u, c) ← w.loadInputs unit config
  u.compile c

/-- The journal of loading and compiling. -/
def compileJournal : List Entry :=
  let attributes : List (String × Value) :=
    [("schema.stage", .text Stage.load.name), ("schema.unit_path", .text unit.text)]
  let inputs := w.inputSpans unit config
  match w.loadInputs unit config with
  | .error f => [.span "schema.load" attributes (some (Block.mark f)) inputs]
  | .ok (u, c) =>
    .span "schema.load" attributes none (inputs ++ [.event (u.stageComplete .load [])])
      :: u.compileJournal c

end Workspace

end SchemaVersioning
