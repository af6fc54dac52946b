import SchemaVersioning.Diagnostic
import SchemaVersioning.Reference.Resolution

/-!
# Stable types all the way down

The definition of a version may use only types that never change: built-in types, the latest types
of families, types marked as never persisted, and types declared in versions.  Type variables are
no references.
-/

namespace SchemaVersioning

namespace Standing

/-- Whether the definition of a version may use such a type. -/
def isStable : Standing → Bool
  | builtin => true
  | latest _ => true
  | unversioned => true
  | version _ _ => true
  | _ => false

/-- Why a type is not stable. -/
def instability : Standing → String
  | plain => "is an ordinary type with no version family"
  | test => "is declared in a test and has no stable serialized form"
  | unknown => "is neither a built-in nor a declared stable type"
  | _ => "is not a stable type"

end Standing

/-- The version in whose definition a reference counts: no exempt one, and no signature. -/
def Reference.definedVersion? (r : Reference) : Option (String × Nat) :=
  match r.context with
  | .version family number => if r.definition && !r.exempt then some (family, number) else none
  | _ => none

namespace Index

variable (index : Index)

/-- The diagnostic of a reference that the definition of a version must not hold. -/
def unstableUse? (r : Reference) : Option Diagnostic :=
  match r.definedVersion? with
  | none => none
  | some (family, number) =>
    let standing := (index.resolve r).standing
    if standing.isStable then none
    else some {
      rule := .notVersionedAllTheWayDown
      message := s!"'{r.path.dotted}' used in {family}.V{number} " ++ standing.instability
      subject := r.owner
      location := r.location
      suggestion := some (s!"Use a built-in, another family's "
        ++ s!"'{index.config.containerName}.{index.config.latestName}' type, "
        ++ "or mark the type [@unversioned] if it is never persisted") }

/-- The diagnostics of all uses of types that are not stable. -/
def unstableUses : List Diagnostic := index.references.filterMap index.unstableUse?

end Index

end SchemaVersioning
