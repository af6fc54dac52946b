import SchemaVersioning.Diagnostic
import SchemaVersioning.Reference.Resolution

/-!
# Leaks of specific versions

Outside version definitions only the latest version of a family may be named.  The alias of a
family's latest version may name that family's versions.  An exemption from the rule of stable
types is no exemption from this one.
-/

namespace SchemaVersioning

/-- Whether every version may be named in a context. -/
def Context.isExempt : Context → Bool
  | .version _ _ => true
  | .test => true
  | _ => false

/-- Whether a version of a family may be named in a context. -/
def Context.mayName (context : Context) (family : String) : Bool :=
  match context with
  | .version _ _ => true
  | .test => true
  | .latestAlias own => family = own
  | _ => false

/-- A context in the words of a report. -/
def Context.phrase : Context → String
  | .functorBody _ => "a functor body"
  | .latestAlias _ => "another family's Latest alias"
  | _ => "ordinary code"

/-- The path as written, or what it names when an alias hides the version. -/
def Reference.versionedPath (r : Reference) (target : Path) : Path :=
  if r.path.any isVersionName then r.path else target

namespace Index

variable (index : Index)

/-- The diagnostic of a reference that leaks a version. -/
def versionLeak? (r : Reference) : Option Diagnostic :=
  let resolution := index.resolve r
  match resolution.standing with
  | .version family number =>
    if r.context.mayName family then none
    else
      let what := if r.isModule then "module" else "type"
      let replacement := (r.versionedPath resolution.target).toLatest index.config.latestName
      some {
        rule := .specificVersionLeak
        message := s!"{what} '{r.path.dotted}' names version V{number} of '{family}' in "
          ++ r.context.phrase
        subject := r.owner
        location := r.location
        suggestion := some s!"Use '{replacement.dotted}' instead" }
  | _ => none

def versionLeaks : List Diagnostic := index.references.filterMap index.versionLeak?

end Index

end SchemaVersioning
