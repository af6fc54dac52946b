import SchemaVersioning.Family.Discovery
import SchemaVersioning.Reference

/-!
# The index of a unit

The declared names of a unit and all its references.  The walk visits every module once and notes
the context inside it; references and declared names are then read off the visited modules.
-/

namespace SchemaVersioning

/-- Declared names, the newest first; a later declaration of a path hides an earlier one. -/
abbrev Table := List Declared

namespace Table

def find? (table : Table) (p : Path) : Option Declared := List.find? (·.path = p) table

def paths (table : Table) : List Path := (table.map (·.path)).eraseDups

end Table

/-! ## Contexts -/

/-- The container at a path; the last one if several share it. -/
def containerAt? (ds : List FamilyDeclaration) (p : Path) : Option FamilyDeclaration :=
  (ds.filter fun d => d.containerPath = p).getLast?

namespace Context

/-- The context inside a module that is no part of a container. -/
def inherit (outer : Context) (m : ModuleDecl) : Context :=
  match outer with
  | version .. => outer
  | latestAlias _ => outer
  | _ =>
    match m.arity? with
    | some arity => functorBody arity
    | none => outer

/-- The context inside a module of a container. -/
def enterMember (c : Config) (outer : Context) (d : FamilyDeclaration) (m : ModuleDecl) : Context :=
  match versionNumber? m.name with
  | some number => version d.name number
  | none => if m.name = c.latestName then latestAlias d.name else outer.inherit m

/-- The context inside a module. -/
def enter (c : Config) (ds : List FamilyDeclaration) (outer : Context) (parent : Path)
    (m : ModuleDecl) : Context :=
  if outer = test ∨ c.isTest m then test
  else
    match containerAt? ds parent with
    | some d => outer.enterMember c d m
    | none => outer.inherit m

end Context

/-! ## Visited modules -/

/-- A module of a unit, the path of the module around it, and the contexts outside and inside. -/
structure Site where
  module : ModuleDecl
  parent : Path
  outer : Context
  context : Context

namespace Site

def path (s : Site) : Path := s.parent ++ [s.module.name]

mutual

/-- The module and the modules nested in it, in tree order. -/
def ofModule (c : Config) (ds : List FamilyDeclaration) (parent : Path) (outer : Context) :
    ModuleDecl → List Site
  | m@⟨name, _, _, modules, _, _, _, _, _, _⟩ =>
    let context := outer.enter c ds parent m
    ⟨m, parent, outer, context⟩ :: ofModules c ds (parent ++ [name]) context modules

/-- The modules and the modules nested in them, in tree order. -/
def ofModules (c : Config) (ds : List FamilyDeclaration) (parent : Path) (outer : Context) :
    List ModuleDecl → List Site
  | [] => []
  | m :: rest => ofModule c ds parent outer m ++ ofModules c ds parent outer rest

end

/-! ## References of a site -/

/-- The reference to a module named where the site is declared. -/
def moduleReference (s : Site) (context : Context) (target : String) : Reference where
  path := Path.ofDotted target
  scope := s.parent
  owner := s.path.dotted
  context := context
  definition := false
  exempt := false
  isModule := true
  location := s.module.location

/-- The references to functor arguments, which are written outside the module. -/
def argumentReferences (s : Site) : List Reference :=
  let context := if s.context = .test then .test else s.outer
  s.module.functorArguments.map (s.moduleReference context)

/-- The reference to the target of a module alias, which is written outside a functor body. -/
def aliasReferences (s : Site) : List Reference :=
  let context := match s.context with
    | .functorBody _ => s.outer
    | context => context
  (s.module.aliasOf.map (s.moduleReference context)).toList

mutual

/-- The references of a type expression and of its arguments; an exemption covers the arguments. -/
def exprReferences (s : Site) (owner : String) (definition : Bool) (fallback : Option Location)
    (exempt : Bool) : TypeExpr → List Reference
  | ⟨head, args, attributes, location⟩ =>
    let exempt := exempt || attributes.contains unversionedAttribute
    let own : List Reference :=
      match head with
      | .var _ => []
      | .named first rest =>
        [{ path := first :: rest
           scope := s.path
           owner := owner
           context := s.context
           definition := definition
           exempt := exempt
           isModule := false
           location := location.or fallback }]
    own ++ exprReferencesAll s owner definition fallback exempt args

/-- The references of type expressions. -/
def exprReferencesAll (s : Site) (owner : String) (definition : Bool) (fallback : Option Location)
    (exempt : Bool) : List TypeExpr → List Reference
  | [] => []
  | e :: rest =>
    exprReferences s owner definition fallback exempt e
      ++ exprReferencesAll s owner definition fallback exempt rest

end

/-- The references of a type definition. -/
def typeReferences (s : Site) (owner : String) (t : TypeDecl) : List Reference :=
  s.exprReferencesAll (owner ++ "." ++ t.name) true t.location false t.typeExprs

/-- The references of a signature. -/
def valueReferences (s : Site) (owner : String) (v : ValueDecl) : List Reference :=
  s.exprReferencesAll (owner ++ "." ++ v.name) false v.location false v.typeExprs

/-- The references of a functor parameter. -/
def parameterReferences (s : Site) (p : FunctorParameter) : List Reference :=
  let owner := s.path.dotted ++ "(" ++ p.name ++ ")"
  p.types.flatMap (s.typeReferences owner) ++ p.values.flatMap (s.valueReferences owner)

/-- All references of a module outside its nested modules. -/
def references (s : Site) : List Reference :=
  s.argumentReferences ++ s.aliasReferences
    ++ s.module.functorParameters.flatMap s.parameterReferences
    ++ s.module.types.flatMap (s.typeReferences s.path.dotted)
    ++ s.module.values.flatMap (s.valueReferences s.path.dotted)

/-! ## Declared names of a site -/

/-- What a type is that is declared in a context. -/
def standingOf (context : Context) (t : TypeDecl) : Standing :=
  match context with
  | .test => .test
  | .version family number => .version family number
  | .latestAlias family => .latest family
  | _ => if t.isUnversioned then .unversioned else .plain

/-- The types that a module declares. -/
def declaredTypes (s : Site) : List Declared :=
  s.module.types.map fun t => ⟨s.path ++ [t.name], standingOf s.context t, s.path, t.alias?⟩

/-- The module itself, if it is a version of a family. -/
def declaredVersion (s : Site) (ds : List FamilyDeclaration) : List Declared :=
  if s.context = .test then []
  else
    match containerAt? ds s.parent, versionNumber? s.module.name with
    | some d, some number => [⟨s.path, .version d.name number, [], none⟩]
    | _, _ => []

/-- The module itself, if it is an alias. -/
def declaredAlias (s : Site) : List Declared :=
  (s.module.aliasOf.map fun target =>
    Declared.mk s.path .plain s.parent (some (.ofHead (.ofDotted target)))).toList

end Site

/-! ## The index -/

/-- The path of the alias of a container's latest version. -/
def FamilyDeclaration.latestPath (d : FamilyDeclaration) (c : Config) : Path :=
  d.containerPath ++ [c.latestName]

/-- The alias module that every family has. -/
def FamilyDeclaration.declaredLatest (d : FamilyDeclaration) (c : Config) : Declared :=
  ⟨d.latestPath c, .latest d.name, [], none⟩

/-- The types of the alias module that every family has. -/
def FamilyDeclaration.declaredLatestTypes (d : FamilyDeclaration) (c : Config) : List Declared :=
  (c.versionedTypeNames d.kind).map fun typeName =>
    ⟨d.latestPath c ++ [typeName], .latest d.name, [], none⟩

/-- The declared names and the references of a unit. -/
structure Index where
  config : Config
  declarations : List FamilyDeclaration
  types : Table
  modules : Table
  moduleAliases : Table
  references : List Reference

/-- The index of a unit. -/
def CompilationUnit.index (u : CompilationUnit) (c : Config) : Index :=
  let ds := u.familyDeclarations c
  let sites := Site.ofModules c ds [] .ordinary u.modules
  { config := c
    declarations := ds
    types := (ds.flatMap (·.declaredLatestTypes c) ++ sites.flatMap (·.declaredTypes)).reverse
    modules := (ds.map (·.declaredLatest c) ++ sites.flatMap (·.declaredVersion ds)).reverse
    moduleAliases := (sites.flatMap (·.declaredAlias)).reverse
    references := sites.flatMap (·.references) }

end SchemaVersioning
