import SchemaVersioning.Declaration
import SchemaVersioning.Reading.Object

/-!
# Reading declarations

One reader a model.  A type expression may be written in short form, as a dotted name or as a quote
and the name of a variable.  Modules and type expressions occur inside themselves, so their readers
are told what is open around them; a model that holds one of another kind counts for two levels of
nesting, one that holds its own kind for one.
-/

namespace SchemaVersioning

open Reading Checked

/-! ## Type expressions -/

/-- The head that a short form denotes. -/
def Head.ofShorthand (s : String) : Head :=
  match s.toList with
  | '\'' :: name => .var (String.ofList name)
  | _ => ofDotted s

/-- The head with a path or a variable name, exactly one of the two. -/
def Head.ofParts? (path : Path) (var : Option String) : Option Head :=
  match path, var with
  | first :: rest, none => some (.named first rest)
  | [], some name => some (.var name)
  | _, _ => none

namespace Location

/-- Reads a location. -/
def read (v : Value) : Checked Location :=
  model "SourceLocation" v fun entries _ =>
    onlyFields ["file", "line", "column"] entries <|
      (Location.mk · · ·)
        <$> optional entries "file" "<unknown>" (fun v _ => Reading.text v)
        <*> optional entries "line" 0 (fun v _ => natFrom 0 v)
        <*> optional entries "column" 0 (fun v _ => natFrom 0 v)

/-- Reads the location of a model that has a level of nesting of its own, null when unknown. -/
def readField (outer : Nesting) (entries : Entries) : Checked (Option Location) :=
  optional entries "location" none fun v _ =>
    nullable (fun v => outer.reading 1 "SourceLocation" v fun _ => read v) v

end Location

namespace TypeExpr

/-- Reads a path: a dotted name or a list of components. -/
def readPath (v : Value) : Checked Path :=
  match v with
  | .text s => accepted (Path.ofDotted s)
  | .broken points => accepted (Path.ofDotted (keptText points))
  | v => textTuple v

/-- Reads a type expression, which counts for some levels of nesting. -/
def readAt (levels : Nat) (outer : Nesting) (v : Value) : Checked TypeExpr :=
  outer.reading levels "TypeExpr" v fun inner =>
    match v with
    | .text s => accepted (ofHead (Head.ofShorthand s))
    | .broken points => accepted (ofHead (Head.ofShorthand (keptText points)))
    | v =>
      let parts := model "TypeExpr" v fun entries _ =>
        onlyFields ["path", "var", "args", "attributes", "location"] entries <|
          (fun path var args attributes location =>
            (Head.ofParts? path var, args, attributes, location))
            <$> optional entries "path" [] (fun v _ => readPath v)
            <*> optional entries "var" none (fun v _ => nullable Reading.text v)
            <*> optional entries "args" [] (fun v _ => tupleOf v fun item _ => readAt 1 inner item)
            <*> optional entries "attributes" [] (fun v _ => textTuple v)
            <*> optional entries "location" none (fun v _ => nullable Location.read v)
      parts.andThen fun (head, args, attributes, location) =>
        match head with
        | some head => accepted ⟨head, args, attributes, location⟩
        | none => refuse (.refused "TypeExpr requires exactly one of 'path' or 'var'")
termination_by sizeOf v

def read (v : Value) : Checked TypeExpr := readAt 1 .outermost v

def readPart (outer : Nesting) (v : Value) : Checked TypeExpr := readAt 2 outer v

/-- Reads the type expressions of another model. -/
def readParts (outer : Nesting) (v : Value) : Checked (List TypeExpr) :=
  tupleOf v fun item _ => readPart outer item

end TypeExpr

/-! ## Types and values -/

/-- The shape of a definition that aliases an expression or none, or why there is none. -/
def TypeShape.ofKind (name : String) (kind : TypeKind) (target : Option TypeExpr) :
    Except String TypeShape :=
  match kind, target with
  | .synonym, some e => .ok (.synonym e)
  | .synonym, none => .error s!"type '{name}' is an alias but has no 'alias' expression"
  | .record, none => .ok .record
  | .variant, none => .ok .variant
  | .abstract, none => .ok .abstract
  | kind, some _ => .error s!"type '{name}' has an 'alias' expression but kind '{kind.name}'"

def TypeKind.read (v : Value) : Checked TypeKind := choice (all.map fun k => (k.name, k)) v

/-- Reads a field of a record. -/
def RecordField.read (outer : Nesting) (v : Value) : Checked RecordField :=
  model "RecordField" v fun entries _ =>
    onlyFields ["name", "type"] entries <|
      (RecordField.mk · ·)
        <$> required entries "name" (fun v _ => nonEmptyText v)
        <*> required entries "type" (fun v _ => TypeExpr.readPart outer v)

/-- Reads a constructor of a variant. -/
def Constructor.read (outer : Nesting) (v : Value) : Checked Constructor :=
  model "Constructor" v fun entries _ =>
    onlyFields ["name", "args"] entries <|
      (Constructor.mk · ·)
        <$> required entries "name" (fun v _ => nonEmptyText v)
        <*> optional entries "args" [] (fun v _ => TypeExpr.readParts outer v)

/-- Reads a type definition. -/
def TypeDecl.read (outer : Nesting) (v : Value) : Checked TypeDecl :=
  model "TypeDecl" v fun entries _ =>
    let parts := onlyFields
      ["name", "kind", "params", "alias", "fields", "constructors", "attributes", "location"]
      entries <|
      (fun name kind params target fields constructors attributes location =>
        (TypeShape.ofKind name kind target,
          fun shape => TypeDecl.mk name shape params fields constructors attributes location))
        <$> required entries "name" (fun v _ => nonEmptyText v)
        <*> optional entries "kind" .abstract (fun v _ => TypeKind.read v)
        <*> optional entries "params" [] (fun v _ => textTuple v)
        <*> optional entries "alias" none (fun v _ => nullable (TypeExpr.readPart outer) v)
        <*> optional entries "fields" [] (fun v _ => tupleOf v fun item _ => RecordField.read outer item)
        <*> optional entries "constructors" []
          (fun v _ => tupleOf v fun item _ => Constructor.read outer item)
        <*> optional entries "attributes" [] (fun v _ => textTuple v)
        <*> Location.readField outer entries
    parts.andThen fun (shape, make) =>
      match shape with
      | .ok shape => accepted (make shape)
      | .error reason => refuse (.refused reason)

/-- Reads a list of type definitions. -/
def TypeDecl.readTuple (outer : Nesting) (v : Value) : Checked (List TypeDecl) :=
  tupleOf v fun item _ => read outer item

/-- Reads the type definitions of a module. -/
def TypeDecl.readMembers (outer : Nesting) (v : Value) : Checked (List TypeDecl) :=
  tupleOf v fun item _ => outer.reading 1 "TypeDecl" item fun inner => read inner item

/-- Reads the signature of a value. -/
def ValueDecl.read (outer : Nesting) (v : Value) : Checked ValueDecl :=
  model "ValueDecl" v fun entries _ =>
    onlyFields ["name", "params", "returns", "attributes", "location"] entries <|
      (ValueDecl.mk · · · · ·)
        <$> required entries "name" (fun v _ => nonEmptyText v)
        <*> optional entries "params" [] (fun v _ => TypeExpr.readParts outer v)
        <*> required entries "returns" (fun v _ => TypeExpr.readPart outer v)
        <*> optional entries "attributes" [] (fun v _ => textTuple v)
        <*> Location.readField outer entries

/-- Reads the signatures of a module. -/
def ValueDecl.readMembers (outer : Nesting) (v : Value) : Checked (List ValueDecl) :=
  tupleOf v fun item _ => outer.reading 1 "ValueDecl" item fun inner => read inner item

/-! ## Codecs, functors and modules -/

/-- Reads how a codec is obtained. -/
def CodecRef.read (outer : Nesting) (v : Value) : Checked CodecRef :=
  model "CodecRef" v fun entries _ =>
    onlyFields ["adapter", "wraps", "location"] entries <|
      (CodecRef.mk · · ·)
        <$> optional entries "adapter" "derived" (fun v _ => nonEmptyText v)
        <*> optional entries "wraps" none (fun v _ => nullable (TypeExpr.readPart outer) v)
        <*> Location.readField outer entries

/-- Reads a parameter of a functor. -/
def FunctorParameter.read (outer : Nesting) (v : Value) : Checked FunctorParameter :=
  model "FunctorParameter" v fun entries _ =>
    onlyFields ["name", "types", "values"] entries <|
      (FunctorParameter.mk · · ·)
        <$> required entries "name" (fun v _ => nonEmptyText v)
        <*> optional entries "types" [] (fun v _ => TypeDecl.readMembers outer v)
        <*> optional entries "values" [] (fun v _ => ValueDecl.readMembers outer v)

/-- The functor of an arity and described parameters, or what is wrong with the two. -/
def FunctorHeader.ofParts (name : String) (arity : Option Nat) (parameters : List FunctorParameter) :
    Except String (Option FunctorHeader) :=
  match arity with
  | none =>
    if parameters.isEmpty then .ok none
    else .error s!"module '{name}' declares functor parameters without an arity"
  | some arity =>
    if h : parameters.length ≤ arity then .ok (some ⟨arity, parameters, h⟩)
    else .error (s!"module '{name}' declares {parameters.length} functor parameters "
      ++ s!"but arity {arity}")

/-- Reads a module, which counts for some levels of nesting. -/
def ModuleDecl.readAt (levels : Nat) (outer : Nesting) (v : Value) : Checked ModuleDecl :=
  outer.reading levels "ModuleDecl" v fun inner =>
    let parts := model "ModuleDecl" v fun entries _ =>
      onlyFields
        ["name", "types", "values", "modules", "attributes", "codec", "alias_of", "functor_arity",
          "functor_parameters", "functor_arguments", "location"]
        entries <|
        (fun name types values modules attributes codec aliasOf arity parameters arguments
            location =>
          (FunctorHeader.ofParts name arity parameters,
            fun functor => ModuleDecl.mk name types values modules attributes codec aliasOf functor
              arguments location))
          <$> required entries "name" (fun v _ => nonEmptyText v)
          <*> optional entries "types" [] (fun v _ => TypeDecl.readMembers inner v)
          <*> optional entries "values" [] (fun v _ => ValueDecl.readMembers inner v)
          <*> optional entries "modules" [] (fun v _ => tupleOf v fun item _ => readAt 1 inner item)
          <*> optional entries "attributes" [] (fun v _ => textTuple v)
          <*> optional entries "codec" none (fun v _ => nullable (CodecRef.read inner) v)
          <*> optional entries "alias_of" none (fun v _ => nullable Reading.text v)
          <*> optional entries "functor_arity" none (fun v _ => nullable (natFrom 0) v)
          <*> optional entries "functor_parameters" []
            (fun v _ => tupleOf v fun item _ => FunctorParameter.read inner item)
          <*> optional entries "functor_arguments" [] (fun v _ => textTuple v)
          <*> Location.readField inner entries
    parts.andThen fun (functor, make) =>
      match functor with
      | .ok functor => accepted (make functor)
      | .error reason => refuse (.refused reason)
termination_by sizeOf v

def ModuleDecl.read (v : Value) : Checked ModuleDecl := readAt 1 .outermost v

def ModuleDecl.readPart (outer : Nesting) (v : Value) : Checked ModuleDecl := readAt 2 outer v

/-- Reads a unit. -/
def CompilationUnit.read (v : Value) : Checked CompilationUnit :=
  model "CompilationUnit" v fun entries _ =>
    onlyFields ["name", "modules"] entries <|
      (CompilationUnit.mk · ·)
        <$> required entries "name" (fun v _ => nonEmptyText v)
        <*> optional entries "modules" []
          (fun v _ => tupleOf v fun item _ => ModuleDecl.readPart .outermost item)

end SchemaVersioning
