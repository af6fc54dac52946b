import SchemaVersioning.Reading.Object

/-!
# Stages

A compilation loads a unit, builds its families, validates its references, and synthesizes the
generated declarations.
-/

namespace SchemaVersioning

open Reading Checked

/-- A stage of a compilation. -/
inductive Stage where
  | load
  | build
  | validate
  | synthesize
deriving DecidableEq, Repr, Inhabited

namespace Stage

/-- The name of a stage. -/
def name : Stage → String
  | load => "LOAD"
  | build => "BUILD"
  | validate => "VALIDATE"
  | synthesize => "SYNTHESIZE"

/-- What a stage does. -/
def description : Stage → String
  | load => "Parse declaration files into the declaration model"
  | build => "Group version modules into validated families"
  | validate => "Check references against the stability rules"
  | synthesize => "Generate Latest aliases and dispatchers"

/-- Reads the name of a stage. -/
def read (v : Value) : Checked Stage :=
  choice ([load, build, validate, synthesize].map fun s => (s.name, s)) v

end Stage

end SchemaVersioning
