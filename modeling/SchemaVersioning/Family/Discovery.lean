import SchemaVersioning.Config

/-!
# Finding family containers

A container is any module with a family attribute.  The walk over the tree records what encloses
each module: its path, the arities of the functor bodies around it, whether it lies in a test, and
the types declared beside it.
-/

namespace SchemaVersioning

/-- The attributes that make a module a family container. -/
def familyAttributes : List (String × FamilyKind × CodecStrategy) :=
  [("versioned", .type, .plain), ("versioned_asserted", .type, .asserted),
    ("versioned_binable", .type, .binable), ("versioned_rpc", .rpc, .plain)]

/-- What the first family attribute of a module declares. -/
def ModuleDecl.familyAttribute? (m : ModuleDecl) : Option (FamilyKind × CodecStrategy) :=
  m.attributes.findSome? fun name => familyAttributes.lookup name

/-- A family container and its surroundings. -/
structure FamilyDeclaration where
  container : ModuleDecl
  parentPath : Path
  kind : FamilyKind
  strategy : CodecStrategy
  functorArities : List Nat
  inTest : Bool
  parentTypes : List TypeDecl

namespace FamilyDeclaration

def containerPath (d : FamilyDeclaration) : Path := d.parentPath ++ [d.container.name]

/-- The name of the family: the path of the module around the container, if there is one. -/
def name (d : FamilyDeclaration) : String :=
  if d.parentPath.isEmpty then d.container.name else d.parentPath.dotted

end FamilyDeclaration

/-- What encloses the members of a module. -/
structure Enclosure where
  path : Path
  arities : List Nat
  inTest : Bool
  types : List TypeDecl

namespace Enclosure

/-- Outside of all modules. -/
def top : Enclosure := ⟨[], [], false, []⟩

/-- What encloses the members of a module inside an enclosure. -/
def enter (c : Config) (outer : Enclosure) (m : ModuleDecl) : Enclosure where
  path := outer.path ++ [m.name]
  arities := outer.arities ++ m.arity?.toList
  inTest := outer.inTest || c.isTest m
  types := m.types

/-- The family that a module inside an enclosure declares. -/
def declaration? (c : Config) (outer : Enclosure) (m : ModuleDecl) : Option FamilyDeclaration :=
  m.familyAttribute?.map fun (kind, strategy) =>
    { container := m
      parentPath := outer.path
      kind := kind
      strategy := strategy
      functorArities := (outer.enter c m).arities
      inTest := (outer.enter c m).inTest
      parentTypes := outer.types }

mutual

/-- The families declared in a module, itself first. -/
def declarations (c : Config) (outer : Enclosure) : ModuleDecl → List FamilyDeclaration
  | m@⟨_, _, _, modules, _, _, _, _, _, _⟩ =>
    (outer.declaration? c m).toList ++ declarationsAll c (outer.enter c m) modules

/-- The families declared in modules, in order. -/
def declarationsAll (c : Config) (outer : Enclosure) : List ModuleDecl → List FamilyDeclaration
  | [] => []
  | m :: rest => declarations c outer m ++ declarationsAll c outer rest

end

end Enclosure

/-- The families declared in a unit, in tree order. -/
def CompilationUnit.familyDeclarations (u : CompilationUnit) (c : Config) :
    List FamilyDeclaration :=
  Enclosure.top.declarationsAll c u.modules

end SchemaVersioning
