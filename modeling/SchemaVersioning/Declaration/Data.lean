import SchemaVersioning.Declaration
import SchemaVersioning.Value

/-!
# Declarations as data

Every model as an object with all its fields, null for what is absent, in the order in which the
fields are read.
-/

namespace SchemaVersioning

/-- A location as data. -/
def Location.toValue (l : Location) : Value :=
  .record [("file", .text l.file), ("line", .nat l.line), ("column", .nat l.column)]

def Location.toField (l : Option Location) : Value := .ofOption Location.toValue l

/-- The variable name of a head. -/
def Head.var? : Head → Option String
  | named _ _ => none
  | var name => some name

namespace TypeExpr

mutual

/-- A type expression as data. -/
def toValue : TypeExpr → Value
  | ⟨head, args, attributes, location⟩ =>
    .record [("path", .texts head.path), ("var", .ofOption .text head.var?),
      ("args", .list (toValues args)), ("attributes", .texts attributes),
      ("location", Location.toField location)]

/-- Type expressions as data. -/
def toValues : List TypeExpr → List Value
  | [] => []
  | e :: rest => toValue e :: toValues rest

end

end TypeExpr

/-- A field of a record as data. -/
def RecordField.toValue (f : RecordField) : Value :=
  .record [("name", .text f.name), ("type", f.type.toValue)]

/-- A constructor as data. -/
def Constructor.toValue (c : Constructor) : Value :=
  .record [("name", .text c.name), ("args", .list (TypeExpr.toValues c.args))]

/-- A type definition as data. -/
def TypeDecl.toValue (t : TypeDecl) : Value :=
  .record [("name", .text t.name), ("kind", .text t.shape.kind.name), ("params", .texts t.params),
    ("alias", .ofOption TypeExpr.toValue t.alias?), ("fields", .list (t.fields.map (·.toValue))),
    ("constructors", .list (t.constructors.map (·.toValue))), ("attributes", .texts t.attributes),
    ("location", Location.toField t.location)]

/-- A signature as data. -/
def ValueDecl.toValue (v : ValueDecl) : Value :=
  .record [("name", .text v.name), ("params", .list (TypeExpr.toValues v.params)),
    ("returns", v.returns.toValue), ("attributes", .texts v.attributes),
    ("location", Location.toField v.location)]

/-- A codec reference as data. -/
def CodecRef.toValue (c : CodecRef) : Value :=
  .record [("adapter", .text c.adapter), ("wraps", .ofOption TypeExpr.toValue c.wraps),
    ("location", Location.toField c.location)]

/-- A functor parameter as data. -/
def FunctorParameter.toValue (p : FunctorParameter) : Value :=
  .record [("name", .text p.name), ("types", .list (p.types.map (·.toValue))),
    ("values", .list (p.values.map (·.toValue)))]

namespace ModuleDecl

mutual

/-- A module as data. -/
def toValue : ModuleDecl → Value
  | ⟨name, types, values, modules, attributes, codec, aliasOf, functor, arguments, location⟩ =>
    .record [("name", .text name), ("types", .list (types.map (·.toValue))),
      ("values", .list (values.map (·.toValue))), ("modules", .list (toValues modules)),
      ("attributes", .texts attributes), ("codec", .ofOption CodecRef.toValue codec),
      ("alias_of", .ofOption .text aliasOf),
      ("functor_arity", .ofOption (fun f : FunctorHeader => .nat f.arity) functor),
      ("functor_parameters",
        .list ((functor.map (·.parameters)).getD [] |>.map FunctorParameter.toValue)),
      ("functor_arguments", .texts arguments), ("location", Location.toField location)]

/-- Modules as data. -/
def toValues : List ModuleDecl → List Value
  | [] => []
  | m :: rest => toValue m :: toValues rest

end

end ModuleDecl

/-- A unit as data. -/
def CompilationUnit.toValue (u : CompilationUnit) : Value :=
  .record [("name", .text u.name), ("modules", .list (ModuleDecl.toValues u.modules))]

end SchemaVersioning
