import SchemaVersioning.Declaration
import SchemaVersioning.Text.DecimalDigit

/-!
# Diagnostics

A diagnostic is a finding that stops a build: the rule that is broken, what is wrong, and where.
There is no advisory mode.  `sort` orders diagnostics by place, rule and subject and keeps the
order of those that agree in all three.
-/

namespace SchemaVersioning

/-- The rules of the discipline, those of the families first. -/
inductive Rule where
  | emptyFamily
  | nonContiguousVersions
  | missingUpgradeFunction
  | missingTestObligation
  | unrecognizedCodecAdapter
  | missingVersionedType
  | unexpectedContainerMember
  | latestNotHighest
  | missingRpcAdapter
  | notVersionedAllTheWayDown
  | functorParameterizedFamily
  | specificVersionLeak
deriving DecidableEq, Repr, Inhabited

namespace Rule

/-- All rules. -/
def all : List Rule :=
  [emptyFamily, nonContiguousVersions, missingUpgradeFunction, missingTestObligation,
    unrecognizedCodecAdapter, missingVersionedType, unexpectedContainerMember, latestNotHighest,
    missingRpcAdapter, notVersionedAllTheWayDown, functorParameterizedFamily, specificVersionLeak]

/-- The stable code of a rule. -/
def code : Rule → String
  | emptyFamily => "EmptyFamily"
  | nonContiguousVersions => "NonContiguousVersions"
  | missingUpgradeFunction => "MissingUpgradeFunction"
  | missingTestObligation => "MissingTestObligation"
  | unrecognizedCodecAdapter => "UnrecognizedCodecAdapter"
  | missingVersionedType => "MissingVersionedType"
  | unexpectedContainerMember => "UnexpectedContainerMember"
  | latestNotHighest => "LatestNotHighest"
  | missingRpcAdapter => "MissingRpcAdapter"
  | notVersionedAllTheWayDown => "NotVersionedAllTheWayDown"
  | functorParameterizedFamily => "FunctorParameterizedFamily"
  | specificVersionLeak => "SpecificVersionLeak"

/-- A rule in a few words. -/
def description : Rule → String
  | emptyFamily => "Family container declares no V<n> modules"
  | nonContiguousVersions => "Version numbers must be exactly 1..n"
  | missingUpgradeFunction => "Non-latest version lacks a direct upgrade to Latest"
  | missingTestObligation => "Asserted family lacks its companion test declaration"
  | unrecognizedCodecAdapter => "Binable codec is not a recognized adapter"
  | missingVersionedType => "Version module does not declare its versioned type"
  | unexpectedContainerMember => "Family container holds an unexpected module"
  | latestNotHighest => "Latest alias does not point at the highest version"
  | missingRpcAdapter => "RPC version lacks a call-site adapter"
  | notVersionedAllTheWayDown => "Versioned type uses a non-stable type"
  | functorParameterizedFamily => "Family declared inside a parameterized functor"
  | specificVersionLeak => "Specific version named outside a version definition"

end Rule

/-- A broken rule, with its subject and the remedy. -/
structure Diagnostic where
  rule : Rule
  message : String
  subject : String
  location : Option Location
  suggestion : Option String
deriving DecidableEq, Repr, Inhabited

namespace Diagnostic

/-- The diagnostic on one line. -/
def short (d : Diagnostic) : String :=
  let place := match d.location with
    | some l => l.text
    | none => "<unknown>"
  s!"{place}: [{d.rule.code}] {d.subject}: {d.message}"

/-- The diagnostic with its suggestion on a second line. -/
def text (d : Diagnostic) : String :=
  match d.suggestion with
  | none => d.short
  | some s => if s = "" then d.short else d.short ++ "\n  Suggestion: " ++ s

/-- Whether the place of a diagnostic can be told: neither its line nor its column has too many
digits. -/
def isTellable (d : Diagnostic) : Bool :=
  match d.location with
  | none => true
  | some l => DecimalDigit.isShort l.line && DecimalDigit.isShort l.column

/-! ## Order -/

/-- The place that a diagnostic is sorted by; an unknown one comes before all others. -/
def place (d : Diagnostic) : Location := d.location.getD ⟨"", 0, 0⟩

/-- The order of reports: by file, line, column, rule code and subject. -/
def compare : Diagnostic → Diagnostic → Ordering :=
  compareLex (compareOn (·.place.file)) <|
  compareLex (compareOn (·.place.line)) <|
  compareLex (compareOn (·.place.column)) <|
  compareLex (compareOn (·.rule.code)) (compareOn (·.subject))

/-- The diagnostics in the order of reports. -/
def sort (ds : List Diagnostic) : List Diagnostic := ds.mergeSort fun a b => (compare a b).isLE

/-! ## Summaries -/

/-- The rules of the diagnostics in order of first occurrence, each with its number. -/
def countByRule (ds : List Diagnostic) : List (Rule × Nat) :=
  (ds.map (·.rule)).eraseDups.map fun rule => (rule, ds.countP (·.rule = rule))

def maxShown : Nat := 5

/-- The number of diagnostics and the first of them. -/
def summary (ds : List Diagnostic) : String :=
  let noun := if ds.length = 1 then "diagnostic" else "diagnostics"
  let shown := (ds.take maxShown).map fun d => "\n  " ++ d.short
  let more :=
    if maxShown < ds.length then s!"\n  ... and {ds.length - maxShown} more" else ""
  s!"Schema compilation failed with {ds.length} {noun}:" ++ String.join shown ++ more

/-- The summary, or a message of the caller's in its place. -/
def summaryOr (message : Option String) (ds : List Diagnostic) : String :=
  match message with
  | none => summary ds
  | some m => if m = "" then summary ds else m

/-- The number of diagnostics in short. -/
def countText (ds : List Diagnostic) : String :=
  s!"SchemaCompilationError(diagnostics={ds.length})"

end Diagnostic

end SchemaVersioning
