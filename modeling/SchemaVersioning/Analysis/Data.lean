import SchemaVersioning.Analysis
import SchemaVersioning.Config.Data
import SchemaVersioning.Diagnostic.Data
import SchemaVersioning.Family.Data

/-!
# Results as data

Reading and writing generated declarations and the result of a compilation.
-/

namespace SchemaVersioning

open Reading Checked

namespace GeneratedFamily

/-- Reads generated declarations. -/
def read (v : Value) : Checked GeneratedFamily :=
  model "GeneratedFamily" v fun entries _ =>
    onlyFields
      ["family", "container_path", "latest_version", "latest_module", "operations", "decode_order"]
      entries <|
      (GeneratedFamily.mk · · · · · ·)
        <$> required entries "family" (fun v _ => nonEmptyText v)
        <*> required entries "container_path" (fun v _ => atLeast 1 (textTuple v))
        <*> required entries "latest_version" (fun v _ => natFrom 1 v)
        <*> required entries "latest_module" (fun v _ => ModuleDecl.readPart .outermost v)
        <*> required entries "operations" (fun v _ => atLeast 2 (ValueDecl.readMembers .outermost v))
        <*> required entries "decode_order"
          (fun v _ => atLeast 1 (tupleOf v fun item _ => integer item))

/-- Generated declarations as data. -/
def toValue (g : GeneratedFamily) : Value :=
  .record [("family", .text g.family), ("container_path", .texts g.containerPath),
    ("latest_version", .nat g.latestVersion), ("latest_module", g.latestModule.toValue),
    ("operations", .list (g.operations.map (·.toValue))),
    ("decode_order", .list (g.decodeOrder.map .int))]

end GeneratedFamily

namespace CompilationResult

/-- What is wrong with the flag of a result. -/
def flagFault? (passed : Bool) (r : CompilationResult) : Option String :=
  if passed ≠ r.diagnostics.isEmpty then
    some "'passed' must be True exactly when there are no diagnostics"
  else if !r.diagnostics.isEmpty && !r.generated.isEmpty then
    some "a failed compilation must not carry generated declarations"
  else none

/-- Reads a result. -/
def read (v : Value) : Checked CompilationResult :=
  model "CompilationResult" v fun entries _ =>
    let parts := onlyFields
      ["unit_name", "passed", "families", "generated", "diagnostics", "duration_ms"] entries <|
      (fun name passed families generated diagnostics (_ : Binary64) =>
        (passed, CompilationResult.mk name families generated diagnostics))
        <$> required entries "unit_name" (fun v _ => nonEmptyText v)
        <*> required entries "passed" (fun v _ => boolean v)
        <*> optional entries "families" [] (fun v _ => tupleOf v fun item _ => Family.read item)
        <*> optional entries "generated" []
          (fun v _ => tupleOf v fun item _ => GeneratedFamily.read item)
        <*> optional entries "diagnostics" []
          (fun v _ => tupleOf v fun item _ => Diagnostic.read item)
        <*> optional entries "duration_ms" (.finite false 0 0) (fun v _ => nonNegativeReal v)
    (condition (fun (passed, r) => flagFault? passed r) parts).map (·.2)

/-- The fields of a result without its duration. -/
def toEntries (r : CompilationResult) : List (String × Value) :=
  [("unit_name", .text r.unitName), ("passed", .bool r.passed),
    ("families", .list (r.families.map (·.toValue))),
    ("generated", .list (r.generated.map (·.toValue))),
    ("diagnostics", .list (r.diagnostics.map (·.toValue)))]

def toValue (r : CompilationResult) : Value := .record r.toEntries

/-- A result as data, with the time that it took. -/
def toTimedValue (r : CompilationResult) (duration : Binary64) : Value :=
  .record (r.toEntries ++ [("duration_ms", .real duration)])

/-- The generated declarations as data, without null fields. -/
def generatedValue (r : CompilationResult) : Value :=
  .list (r.generated.map (·.toValue.withoutNulls))

end CompilationResult

end SchemaVersioning
