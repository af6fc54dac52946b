import SchemaVersioning.Diagnostic
import SchemaVersioning.Family.Interruption

/-!
# Families inside functors

A family in the body of a functor with parameters would have another serialized form for each
argument.  Functors without parameters and tests are exempt.  A diagnostic tells the largest arity,
and a number of too many digits interrupts the check.
-/

namespace SchemaVersioning

/-- The largest positive arity. -/
def largestArity? (arities : List Int) : Option Int := (arities.filter (0 < ·)).max?

/-- The diagnostic of a family inside functor bodies of some arities, of which it tells the largest.
An arity of too many digits cannot be told: `functorFindings` fails there. -/
def parameterizedFamily? (name : String) (arities : List Int) (location : Option Location) :
    Option Diagnostic :=
  match largestArity? arities with
  | none => none
  | some arity => some {
      rule := .functorParameterizedFamily
      message := s!"family '{name}' is declared inside a functor body of arity {arity}; "
        ++ "its serialized form would differ per instantiation"
      subject := name
      location := location
      suggestion := some ("Move the family out of the functor, "
        ++ "or make the functor take no parameters") }

/-- The diagnostic of a declared family. -/
def FamilyDeclaration.parameterized? (d : FamilyDeclaration) : Option Diagnostic :=
  if d.inTest then none
  else parameterizedFamily? d.name (d.functorArities.map Int.ofNat) d.container.location

/-- The diagnostic of a built family. -/
def Family.parameterized? (f : Family) : Option Diagnostic :=
  parameterizedFamily? f.name f.functorArities f.location

/-- The built families that are checked: those at paths that have not been seen, each path once. -/
def foreignFamilies (seen : List Path) : List Family → List Family
  | [] => []
  | f :: rest =>
    if seen.contains f.containerPath || f.inTest then foreignFamilies seen rest
    else f :: foreignFamilies (f.containerPath :: seen) rest

/-- The diagnostics of declared families and of families built elsewhere. -/
def functorFamilies (ds : List FamilyDeclaration) (families : List Family) : List Diagnostic :=
  ds.filterMap FamilyDeclaration.parameterized?
    ++ (foreignFamilies (ds.map (·.containerPath)) families).filterMap Family.parameterized?

/-! ## Arities that cannot be told -/

/-- The interruption by telling the largest of some arities. -/
def arityInterruption? (arities : List Int) : Option Interruption :=
  match largestArity? arities with
  | none => none
  | some arity => if DecimalDigit.isShort arity.natAbs then none else some .overlongNumeral

/-- The interruption by checking a declared family. -/
def FamilyDeclaration.arityInterruption? (d : FamilyDeclaration) : Option Interruption :=
  if d.inTest then none
  else SchemaVersioning.arityInterruption? (d.functorArities.map Int.ofNat)

/-- The interruption by checking a built family. -/
def Family.arityInterruption? (f : Family) : Option Interruption :=
  SchemaVersioning.arityInterruption? f.functorArities

/-- The first interruption by checking declared families and families built elsewhere. -/
def functorInterruption? (ds : List FamilyDeclaration) (families : List Family) :
    Option Interruption :=
  (ds.findSome? FamilyDeclaration.arityInterruption?).or
    ((foreignFamilies (ds.map (·.containerPath)) families).findSome? Family.arityInterruption?)

/-- The diagnostics of declared families and of families built elsewhere, unless one of them would
tell a number in too many digits. -/
def functorFindings (ds : List FamilyDeclaration) (families : List Family) :
    Except Interruption (List Diagnostic) :=
  match functorInterruption? ds families with
  | some interruption => .error interruption
  | none => .ok (functorFamilies ds families)

end SchemaVersioning
