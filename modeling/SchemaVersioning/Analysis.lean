import SchemaVersioning.Family.Build
import SchemaVersioning.Family.Synthesis
import SchemaVersioning.Reference.Interruption

/-!
# Analysis of a unit

`analyze` builds every family of a unit, checks every reference, and generates declarations if
nothing at all is wrong.  A failed build hides no finding of the rules, and a unit with a finding
generates nothing.
-/

namespace SchemaVersioning

/-- The diagnostics of all rules in the order of reports.  Families built elsewhere are checked
beside those of the unit. -/
def Index.violations (index : Index) (families : List Family) : List Diagnostic :=
  Diagnostic.sort
    (index.unstableUses ++ functorFamilies index.declarations families ++ index.versionLeaks)

/-- What compiling a unit gave. -/
structure CompilationResult where
  unitName : String
  families : List Family
  generated : List GeneratedFamily
  diagnostics : List Diagnostic

def CompilationResult.passed (r : CompilationResult) : Bool := r.diagnostics.isEmpty

/-- The family of a declaration, if it builds. -/
def FamilyDeclaration.family? (d : FamilyDeclaration) (c : Config) : Option Family :=
  match d.build c with
  | .ok f => some f
  | .error _ => none

/-- The diagnostics of a declaration that does not build. -/
def FamilyDeclaration.buildDiagnostics (d : FamilyDeclaration) (c : Config) : List Diagnostic :=
  match d.build c with
  | .ok _ => []
  | .error findings => findings.map (·.diagnostic)

namespace CompilationUnit

variable (u : CompilationUnit) (c : Config)

def families : List Family := (u.familyDeclarations c).filterMap (·.family? c)

/-- The diagnostics of the families that do not build, in tree order. -/
def buildDiagnostics : List Diagnostic := (u.familyDeclarations c).flatMap (·.buildDiagnostics c)

/-- The findings of the rules, given the families that build. -/
def ruleDiagnostics : List Diagnostic := (u.index c).violations (u.families c)

/-- All diagnostics in the order of reports. -/
def diagnostics : List Diagnostic := Diagnostic.sort (u.buildDiagnostics c ++ u.ruleDiagnostics c)

/-- The first interruption by building the families. -/
def buildInterruption? : Option Interruption :=
  (u.familyDeclarations c).findSome? (·.interruption? c)

/-- The first interruption by checking the references. -/
def checkInterruption? : Option Interruption :=
  (u.indexInterruption? c).or ((u.index c).interruption? (u.families c))

/-- The first interruption of an analysis. -/
def interruption? : Option Interruption := (u.buildInterruption? c).or (u.checkInterruption? c)

/-- Builds and checks a unit, and generates declarations if nothing is wrong. -/
def analyze : CompilationResult :=
  let families := u.families c
  let diagnostics := u.diagnostics c
  { unitName := u.name
    families := families
    generated := if diagnostics.isEmpty then families.map (·.synthesize c) else []
    diagnostics := diagnostics }

/-- The result of an analysis that is not interrupted. -/
def analyze? : Except Interruption CompilationResult :=
  match u.interruption? c with
  | some interruption => .error interruption
  | none => .ok (u.analyze c)

end CompilationUnit

end SchemaVersioning
