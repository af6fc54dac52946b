import SchemaVersioning.Declaration

/-!
# References

A reference is a use of a type or of a module, with the scope in which its path is looked up and
the context in which it is written.  A resolution says what a reference names.
-/

namespace SchemaVersioning

/-- Where a reference is written. -/
inductive Context where
  | version (family : String) (number : Nat)
  | latestAlias (family : String)
  | functorBody (arity : Nat)
  | test
  | ordinary
deriving DecidableEq, Repr, Inhabited

namespace Context

/-- The name of a kind of context. -/
def kindName : Context → String
  | version _ _ => "inside_version"
  | latestAlias _ => "inside_latest_alias"
  | functorBody _ => "inside_functor_body"
  | test => "inside_test"
  | ordinary => "ordinary"

/-- The names of all kinds of contexts. -/
def kindNames : List String :=
  ["inside_version", "inside_latest_alias", "inside_functor_body", "inside_test", "ordinary"]

/-- The family of a version or of an alias of the latest one. -/
def family? : Context → Option String
  | version family _ => some family
  | latestAlias family => some family
  | _ => none

/-- The number of a version. -/
def number? : Context → Option Nat
  | version _ number => some number
  | _ => none

/-- The arity of a functor body. -/
def arity? : Context → Option Nat
  | functorBody arity => some arity
  | _ => none

end Context

/-- A use of a type or of a module. -/
structure Reference where
  path : Path
  scope : Path
  owner : String
  context : Context
  definition : Bool
  exempt : Bool
  isModule : Bool
  location : Option Location
deriving DecidableEq, Repr, Inhabited

/-- What a name stands for in the discipline.  A version whose number has too many digits to be read
is overlong. -/
inductive Standing where
  | builtin
  | version (family : String) (number : Nat)
  | latest (family : String)
  | unversioned
  | plain
  | test
  | unknown
  | overlong (digits : Nat)
deriving DecidableEq, Repr, Inhabited

namespace Standing

/-- The name of a kind of standing. -/
def kindName : Standing → String
  | builtin => "builtin"
  | version _ _ => "version"
  | latest _ => "latest"
  | unversioned => "unversioned"
  | plain => "plain"
  | test => "test"
  | unknown => "unknown"
  | overlong _ => "overlong"

/-- The family of a version or of a latest type. -/
def family? : Standing → Option String
  | version family _ => some family
  | latest family => some family
  | _ => none

/-- The number of a version. -/
def number? : Standing → Option Nat
  | version _ number => some number
  | _ => none

/-- Whether something is the latest version of a family. -/
def isLatest : Standing → Bool
  | latest _ => true
  | _ => false

/-- How many digits an overlong version has. -/
def overlong? : Standing → Option Nat
  | overlong digits => some digits
  | _ => none

end Standing

/-- A type or a module declared in a unit. -/
structure Declared where
  path : Path
  standing : Standing
  scope : Path
  alias? : Option TypeExpr

/-- What a reference names. -/
structure Resolution where
  standing : Standing
  target : Path
deriving DecidableEq, Repr, Inhabited

end SchemaVersioning
