import SchemaVersioning.Analysis
import SchemaVersioning.Diagnostic.Data
import SchemaVersioning.Stage
import SchemaVersioning.Telemetry.Block

/-!
# Journals of analyses

What building families, indexing and checking references, and compiling a unit leave in a journal.
Compiling runs in one span, and each of its stages in a span inside that one.  An interruption marks
the spans that it leaves; what would have followed it is not there.
-/

namespace SchemaVersioning

open Event

/-- The event of building a family. -/
def FamilyDeclaration.buildEvent (d : FamilyDeclaration) (c : Config) : Event :=
  let component := match d.kind with
    | .type => "VersionGraphBuilder"
    | .rpc => "RpcFamilyBuilder"
  match d.build c with
  | .ok f =>
    info "family_built" [("component", .text component), ("family", .text f.name),
      ("kind", .text f.kind.name), ("variant", .text f.strategy.name),
      ("latest", .nat f.latest.number)]
  | .error findings =>
    info "family_rejected" [("component", .text component), ("family", .text d.name),
      ("by_code", Diagnostic.countsValue (findings.map (·.diagnostic)))]

/-- The events of building families up to the first interruption. -/
def FamilyDeclaration.buildEvents (c : Config) (ds : List FamilyDeclaration) : List Event :=
  (ds.takeWhile fun d => (d.interruption? c).isNone).map (·.buildEvent c)

/-- The event of generating the declarations of a family. -/
def Family.synthesisEvent (f : Family) (c : Config) : Event :=
  debug "family_synthesized" [("family", .text f.name), ("latest", .nat f.latest.number),
    ("operations", .texts ((f.synthesize c).operations.map (·.name)))]

/-- The event of indexing the references of a unit. -/
def CompilationUnit.indexEvent (u : CompilationUnit) (c : Config) : Event :=
  let index := u.index c
  debug "reference_index_built" [("unit", .text u.name), ("families", .nat index.declarations.length),
    ("types", .nat index.types.paths.length), ("references", .nat index.references.length)]

namespace Index

variable (index : Index)

/-- The event of checking one rule. -/
def ruleEvent (name component : String) (violations : List Diagnostic) : Event :=
  debug name [("component", .text component), ("violations", .nat violations.length)]

/-- The events of checking each rule up to the first interruption. -/
def ruleEvents (families : List Family) : List Event :=
  if index.useInterruption?.isSome then []
  else
    ruleEvent "all_the_way_down_checked" "AllTheWayDownValidator" index.unstableUses ::
      if (functorInterruption? index.declarations families).isSome then []
      else
        ruleEvent "functor_families_checked" "FunctorFamilyValidator"
            (functorFamilies index.declarations families) ::
          if index.leaksInterruption?.isSome then []
          else [ruleEvent "version_leakage_checked" "VersionLeakageValidator" index.versionLeaks]

/-- The event of a finished check of all rules. -/
def violationEvent (families : List Family) : Event :=
  let diagnostics := index.violations families
  info "reference_validation_completed" [("component", .text "ReferenceValidator"),
    ("references", .nat index.references.length), ("families", .nat index.declarations.length),
    ("diagnostics", .nat diagnostics.length), ("by_code", Diagnostic.countsValue diagnostics)]

/-- The events of checking all rules together. -/
def violationEvents (families : List Family) : List Event :=
  index.ruleEvents families ++
    if (index.interruption? families).isSome then [] else [index.violationEvent families]

end Index

namespace CompilationUnit

variable (u : CompilationUnit) (c : Config)

/-- The event at the start of a stage. -/
def stageStart (stage : Stage) : Event :=
  info "compilation_stage_start" [("unit", .text u.name), ("stage", .text stage.name)]

/-- The event at the end of a stage. -/
def stageComplete (stage : Stage) (counts : List (String × Value)) : Event :=
  info "compilation_stage_complete" ([("unit", .text u.name), ("stage", .text stage.name)] ++ counts)

/-- The mark that an interruption leaves on a span. -/
def markOf (interruption : Option Interruption) : Option SpanFailure :=
  interruption.map fun i => Block.mark (Failure.ofInterruption i)

/-- The span of a stage. -/
def stageSpan (name : String) (stage : Stage) (attributes : List (String × Value))
    (body : List Event) : Entry :=
  .span name (("schema.stage", .text stage.name) :: attributes) none (body.map .event)

/-- The span of a stage that is interrupted. -/
def interruptedStage (name : String) (stage : Stage) (interruption : Option Interruption)
    (body : List Event) : Entry :=
  .span name [("schema.stage", .text stage.name)] (markOf interruption) (body.map .event)

/-- The span in which families are built. -/
def buildSpan : Entry :=
  let declarations := u.familyDeclarations c
  let built := (u.families c).length
  stageSpan "schema.build" .build
    [("schema.families", .nat declarations.length),
      ("schema.diagnostics", .nat (u.buildDiagnostics c).length)]
    ([u.stageStart .build] ++ FamilyDeclaration.buildEvents c declarations ++
      [u.stageComplete .build
        [("families", .nat built), ("rejected", .nat (declarations.length - built))]])

/-- The span in which families are built up to an interruption. -/
def interruptedBuildSpan : Entry :=
  interruptedStage "schema.build" .build (u.buildInterruption? c)
    (u.stageStart .build :: FamilyDeclaration.buildEvents c (u.familyDeclarations c))

/-- The span in which references are checked. -/
def validateSpan : Entry :=
  let index := u.index c
  let references : Value := .nat index.references.length
  let diagnostics : Value := .nat (u.ruleDiagnostics c).length
  stageSpan "schema.validate" .validate
    [("schema.references", references), ("schema.diagnostics", diagnostics)]
    ([u.stageStart .validate, u.indexEvent c] ++ index.violationEvents (u.families c) ++
      [u.stageComplete .validate [("references", references), ("diagnostics", diagnostics)]])

/-- The span in which references are checked up to an interruption. -/
def interruptedValidateSpan : Entry :=
  let indexed :=
    if (u.indexInterruption? c).isSome then []
    else u.indexEvent c :: (u.index c).violationEvents (u.families c)
  interruptedStage "schema.validate" .validate (u.checkInterruption? c)
    (u.stageStart .validate :: indexed)

/-- The span in which declarations are generated. -/
def synthesizeSpan : Entry :=
  let families := u.families c
  stageSpan "schema.synthesize" .synthesize [("schema.generated", .nat families.length)]
    (families.map (·.synthesisEvent c) ++
      [u.stageComplete .synthesize [("generated", .nat families.length)]])

/-- The span of compiling a unit that is interrupted. -/
def interruptedSpan (stages : List Entry) : Entry :=
  .span "schema.compile" [("schema.unit", .text u.name)] (markOf (u.interruption? c)) stages

/-- The journal of compiling a unit that is not interrupted. -/
def completeJournal : List Entry :=
  let diagnostics := u.diagnostics c
  let passed := diagnostics.isEmpty
  let stages := [u.buildSpan c, u.validateSpan c] ++ if passed then [u.synthesizeSpan c] else []
  [.span "schema.compile"
      [("schema.unit", .text u.name), ("schema.passed", .bool passed),
        ("schema.diagnostics", .nat diagnostics.length)] none stages,
    .event <|
      if passed then
        info "compilation_complete"
          [("unit", .text u.name), ("families", .nat (u.families c).length)]
      else
        warning "compilation_failed"
          [("unit", .text u.name), ("diagnostics", .nat diagnostics.length),
            ("by_code", Diagnostic.countsValue diagnostics)]]

/-- The journal of compiling a unit. -/
def compileJournal : List Entry :=
  if (u.buildInterruption? c).isSome then [u.interruptedSpan c [u.interruptedBuildSpan c]]
  else if (u.checkInterruption? c).isSome then
    [u.interruptedSpan c [u.buildSpan c, u.interruptedValidateSpan c]]
  else u.completeJournal c

end CompilationUnit

end SchemaVersioning
