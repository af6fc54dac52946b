import SchemaVersioning.Family.VersionName
import SchemaVersioning.Text.NameSet

/-!
# Families

A family is the ordered set of versions of one stable type, or of the query and response types of
a remote call.  The versions of a family are numbered from one without gaps, and a family that is
asserted has a companion test.
-/

namespace SchemaVersioning

/-- What a family versions. -/
inductive FamilyKind where
  | type
  | rpc
deriving DecidableEq, Repr, Inhabited

/-- How the versions of a family obtain their codecs. -/
inductive CodecStrategy where
  | plain
  | asserted
  | binable
deriving DecidableEq, Repr, Inhabited

/-- The name of a kind. -/
def FamilyKind.name : FamilyKind → String
  | type => "type"
  | rpc => "rpc"

/-- The name of a strategy. -/
def CodecStrategy.name : CodecStrategy → String
  | plain => "plain"
  | asserted => "asserted"
  | binable => "binable"

/-- The adapters that a binable version may use, in alphabetical order. -/
def recognizedAdapters : List String := ["of_binable", "of_stringable"]

/-- The call-site adapters of a version of a remote call. -/
def callAdapters : List String :=
  ["query_of_caller_model", "callee_model_of_query", "response_of_callee_model",
    "caller_model_of_response"]

/-- A direct conversion from a version's type to the latest one. -/
structure UpgradeFunction where
  name : String
  typeName : String
  parameter : TypeExpr
  returns : TypeExpr
  location : Option Location
deriving Inhabited

/-- The companion test of an asserted family. -/
structure TestObligation where
  modulePath : Path
  location : Option Location
deriving DecidableEq, Repr, Inhabited

/-- A numbered version. -/
structure SchemaVersion where
  number : Nat
  modulePath : Path
  types : List TypeDecl
  codec : CodecRef
  upgrades : List (String × UpgradeFunction)
  adapters : List (String × ValueDecl)
  location : Option Location
deriving Inhabited

namespace SchemaVersion

def name (v : SchemaVersion) : String := versionName v.number

/-- The first type of a name. -/
def findType? (v : SchemaVersion) (typeName : String) : Option TypeDecl :=
  v.types.find? (·.name = typeName)

end SchemaVersion

/-! ## Families -/

/-- The parts of a family, in no particular order. -/
structure FamilyParts where
  name : String
  containerPath : Path
  kind : FamilyKind
  strategy : CodecStrategy
  typeNames : List String
  versions : List SchemaVersion
  testObligation : Option TestObligation
  functorArities : List Int
  inTest : Bool
  location : Option Location

/-- A family: versions `1..n`, at least one, and a test if it is asserted. -/
structure Family extends FamilyParts where
  nonempty : versions ≠ []
  numbered : versions.map (·.number) = List.range' 1 versions.length
  tested : strategy = .asserted → testObligation.isSome

/-- Why parts make no family. -/
inductive FamilyFault where
  | noVersion
  | misnumbered (numbers : List Nat)
  | untested
deriving DecidableEq, Repr

/-- A list of numbers in brackets. -/
def numbersText (numbers : List Int) : String :=
  "[" ++ ", ".intercalate (numbers.map toString) ++ "]"

/-- The wording of a fault of the named family.  Numbers of too many digits are not told. -/
def FamilyFault.message (name : String) : FamilyFault → String
  | noVersion => s!"family '{name}' must contain at least one version"
  | misnumbered numbers =>
    if numbers.all DecimalDigit.isShort then
      s!"family '{name}' versions must be exactly 1..n, got {numbersText (numbers.map Int.ofNat)}"
    else DecimalDigit.tooLargeText
  | untested => s!"asserted family '{name}' requires a test obligation"

namespace Family

/-- The family of some parts. -/
def ofParts (parts : FamilyParts) : Except FamilyFault Family :=
  if hn : parts.versions = [] then .error .noVersion
  else if h : parts.versions.map (·.number) = List.range' 1 parts.versions.length then
    if ht : parts.strategy = .asserted → parts.testObligation.isSome then
      .ok { parts with nonempty := hn, numbered := h, tested := ht }
    else .error .untested
  else .error (.misnumbered (parts.versions.map (·.number)))

def latest (f : Family) : SchemaVersion := f.versions.getLast f.nonempty

/-- The versions below the latest, in ascending order. -/
def older (f : Family) : List SchemaVersion := f.versions.dropLast

/-- The version of a number. -/
def version? (f : Family) (number : Int) : Option SchemaVersion :=
  if 1 ≤ number then f.versions[(number - 1).toNat]? else none

/-- The numbers of the versions in the order in which their decoders are tried, newest first. -/
def decodeOrder (f : Family) : List Nat := (f.versions.map (·.number)).reverse

/-- The report that a family has no such version. -/
def noVersionText (f : Family) (number : Int) : String :=
  s!"family '{f.name}' has no version {number}"

end Family

/-- The report that a version has no such type. -/
def SchemaVersion.noTypeText (v : SchemaVersion) (typeName : String) : String :=
  s!"{v.name} has no versioned type '{typeName}'"

end SchemaVersioning
