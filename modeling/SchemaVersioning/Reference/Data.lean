import SchemaVersioning.Declaration.Data
import SchemaVersioning.Reading.Object
import SchemaVersioning.Reference.Interruption

/-!
# References as data

References, declared names and what references resolve to, as objects, and questions to an index.
-/

namespace SchemaVersioning

/-- A context as data. -/
def Context.toValue (context : Context) : Value :=
  .record [("kind", .text context.kindName), ("family", .ofOption .text context.family?),
    ("version", .ofOption .nat context.number?), ("functor_arity", .ofOption .nat context.arity?)]

/-- A reference as data. -/
def Reference.toValue (r : Reference) : Value :=
  .record [("path", .texts r.path), ("scope", .texts r.scope), ("owner", .text r.owner),
    ("context", r.context.toValue), ("definition", .bool r.definition), ("exempt", .bool r.exempt),
    ("is_module", .bool r.isModule), ("location", Location.toField r.location)]

/-- What a standing is called and whose it is. -/
def Standing.toEntries (s : Standing) : List (String × Value) :=
  [("kind", .text s.kindName), ("family", .ofOption .text s.family?),
    ("version", .ofOption .nat s.number?)]

/-- A resolution as data. -/
def Resolution.toValue (r : Resolution) : Value :=
  .record (r.standing.toEntries ++ [("target", .texts r.target)])

/-- A declared name as data. -/
def Declared.toValue (d : Declared) : Value :=
  .record (d.standing.toEntries ++ [("path", .texts d.path), ("scope", .texts d.scope),
    ("alias", .ofOption (fun e => .text e.text) d.alias?)])

/-- The declared names that are in force, in ascending order of their paths. -/
def Table.toValue (table : Table) : Value :=
  let paths := table.paths.mergeSort fun p q => (p.compareLex compare q).isLE
  .list (paths.filterMap fun p => (table.find? p).map (·.toValue))

/-! ## Questions -/

/-- A path to be looked up in a scope, as a module or as a type. -/
structure Question where
  path : Path
  scope : Path
  isModule : Bool
deriving DecidableEq, Repr

open Reading in
/-- Reads a question; without a scope it is asked outside of all modules, and about a type. -/
def Question.read (v : Value) : Checked Question :=
  model "TypeReference" v fun entries _ =>
    (Question.mk · · ·)
      <$> required entries "path" (fun v _ => atLeast 1 (textTuple v))
      <*> optional entries "scope" [] (fun v _ => textTuple v)
      <*> optional entries "is_module" false (fun v _ => boolean v)

namespace Index

variable (index : Index)

/-- The resolution of a question, or the interruption by it. -/
def ask (q : Question) : Except Interruption Resolution :=
  let resolution := index.resolvePath q.isModule q.path q.scope []
  match resolution.interruption? with
  | some interruption => .error interruption
  | none => .ok resolution

/-- The first interruption by resolving all references. -/
def resolveInterruption? : Option Interruption :=
  index.references.findSome? fun r => (index.resolve r).interruption?

end Index

end SchemaVersioning
