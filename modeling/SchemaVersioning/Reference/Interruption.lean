import SchemaVersioning.Rule.FunctorFamilies
import SchemaVersioning.Rule.StableTypes
import SchemaVersioning.Rule.VersionLeaks

/-!
# Interrupted checks of an index

A version whose number has too many digits to be read ends the work that comes upon it: the walk
over the modules of a unit, the resolution of a reference, and the report of a leak.  The rules are
checked one after another, so the first of them that is interrupted decides.
-/

namespace SchemaVersioning

/-- The interruption by visiting a module: outside of tests the members of a container are told
apart by their names. -/
def Site.interruption? (ds : List FamilyDeclaration) (s : Site) : Option Interruption :=
  if s.context = .test || (containerAt? ds s.parent).isNone then none
  else (overlongVersion? s.module.name).map .overlongVersion

/-- The first interruption by indexing a unit. -/
def CompilationUnit.indexInterruption? (u : CompilationUnit) (c : Config) : Option Interruption :=
  let ds := u.familyDeclarations c
  (Site.ofModules c ds [] .ordinary u.modules).findSome? (Site.interruption? ds)

namespace Resolution

/-- The interruption by resolving a reference. -/
def interruption? (r : Resolution) : Option Interruption :=
  r.standing.overlong?.map .overlongVersion

end Resolution

namespace Index

variable (index : Index)

/-- The first interruption by checking the definitions of versions. -/
def useInterruption? : Option Interruption :=
  index.references.findSome? fun r =>
    if r.definedVersion?.isNone then none else (index.resolve r).interruption?

/-- The interruption by checking whether a reference leaks a version. -/
def leakInterruption? (r : Reference) : Option Interruption :=
  if r.context.isExempt then none
  else
    let resolution := index.resolve r
    resolution.interruption?.or <|
      if (index.versionLeak? r).isNone then none
      else
        (r.versionedPath resolution.target).overlongVersion?.map .overlongVersion

/-- The first interruption by checking for leaks. -/
def leaksInterruption? : Option Interruption := index.references.findSome? index.leakInterruption?

/-- The first interruption by checking an index by all rules, beside families built elsewhere. -/
def interruption? (families : List Family) : Option Interruption :=
  index.useInterruption?.or <|
  (functorInterruption? index.declarations families).or index.leaksInterruption?

end Index

end SchemaVersioning
