import SchemaVersioning.Diagnostic
import SchemaVersioning.Family

/-!
# Problems of a family

What keeps the modules of a container from being a family.  A problem carries what its wording
needs; a finding adds the subject and the place and becomes a diagnostic.
-/

namespace SchemaVersioning

/-- What is wrong with the upgrade function of a version. -/
inductive UpgradeFault where
  | absent
  | parameterCount (count : Nat)
  | foreignParameter (signature : String)
  | chained (signature : String) (target : Nat)
  | notLatest (signature : String)
deriving DecidableEq, Repr

/-- What is wrong with the codec of a binable version. -/
inductive AdapterFault where
  | undeclared (moduleName : String)
  | unknown (adapter : String)
  | wrapsNothing
deriving DecidableEq, Repr

/-- Why a container holds no family. -/
inductive Problem where
  | noVersions (containerPath : Path)
  | unexpectedMember (member container : String)
  | nonContiguous (numbers : List Nat)
  | latestNotHighest (latestName : String) (targets : List String) (highest : Nat)
  | missingType (moduleName typeName : String)
  | badUpgrade (number : Nat) (function typeName latestName : String) (fault : UpgradeFault)
  | badAdapter (fault : AdapterFault)
  | missingCallAdapters (moduleName : String) (names : List String)
  | noTest (testName container : String)
deriving DecidableEq, Repr

/-! ## Gaps and repetitions -/

/-- The numbers from one to the largest of a list that the list lacks, ascending. -/
def absentNumbers (numbers : List Nat) : List Nat :=
  (List.range' 1 (numbers.foldl max 0)).filter fun n => !numbers.contains n

/-- The numbers that occur more than once in a list, each once, in the order of the list. -/
def repeatedNumbers : List Nat → List Nat
  | [] => []
  | n :: rest =>
    let others := (repeatedNumbers rest).filter (· ≠ n)
    if rest.contains n then n :: others else others

def versionNames (numbers : List Nat) : String := ", ".intercalate (numbers.map versionName)

/-- What keeps ascending numbers from being `1..n`. -/
def gapDetails (numbers : List Nat) : List String :=
  let absent := absentNumbers numbers
  let repeated := repeatedNumbers numbers
  (if absent.isEmpty then [] else ["missing " ++ versionNames absent])
    ++ (if repeated.isEmpty then [] else ["duplicate " ++ versionNames repeated])
    ++ (if numbers.contains 0 then ["V0 is not a valid version"] else [])

/-! ## Wording -/

/-- The wording of a fault of an upgrade function. -/
def UpgradeFault.message (number : Nat) (function typeName latestName : String) :
    UpgradeFault → String
  | absent => s!"'V{number}' has no upgrade function '{function}'"
  | parameterCount count =>
    s!"'V{number}.{function}' takes {count} parameters; expected exactly one"
  | foreignParameter signature =>
    s!"'V{number}.{function}' has signature '{signature}'; its parameter must be V{number}.{typeName}"
  | chained signature target =>
    s!"'V{number}.{function}' has signature '{signature}'; it upgrades to V{target} "
      ++ "instead of directly to the latest version"
  | notLatest signature =>
    s!"'V{number}.{function}' has signature '{signature}'; it must return {latestName}.{typeName}"

def recognizedText : String := ", ".intercalate recognizedAdapters

/-- The wording of a fault of a codec. -/
def AdapterFault.message : AdapterFault → String
  | undeclared moduleName => s!"'{moduleName}' of a binable family declares no codec adapter"
  | unknown adapter => s!"codec adapter '{adapter}' is not one of: {recognizedText}"
  | wrapsNothing => "'of_binable' adapter does not name the wrapped binary representation"

namespace Problem

/-- The rule that a problem breaks. -/
def rule : Problem → Rule
  | noVersions _ => .emptyFamily
  | unexpectedMember _ _ => .unexpectedContainerMember
  | nonContiguous _ => .nonContiguousVersions
  | latestNotHighest _ _ _ => .latestNotHighest
  | missingType _ _ => .missingVersionedType
  | badUpgrade _ _ _ _ _ => .missingUpgradeFunction
  | badAdapter _ => .unrecognizedCodecAdapter
  | missingCallAdapters _ _ => .missingRpcAdapter
  | noTest _ _ => .missingTestObligation

/-- The wording of a problem. -/
def message : Problem → String
  | noVersions containerPath => s!"'{containerPath.dotted}' declares no version modules"
  | unexpectedMember member container =>
    s!"module '{member}' inside '{container}' is not a version, the Latest alias or a test"
  | nonContiguous numbers =>
    let expected := versionNames (List.range' 1 numbers.length)
    s!"versions must be exactly {expected}; found {versionNames numbers} "
      ++ "(" ++ "; ".intercalate (gapDetails numbers) ++ ")"
  | latestNotHighest latestName targets highest =>
    let wrong := ", ".intercalate targets
    s!"'{latestName}' refers to {wrong} but the highest version is V{highest}"
  | missingType moduleName typeName => s!"'{moduleName}' does not declare type '{typeName}'"
  | badUpgrade number function typeName latestName fault =>
    fault.message number function typeName latestName
  | badAdapter fault => fault.message
  | missingCallAdapters moduleName names =>
    s!"'{moduleName}' is missing adapter(s): " ++ ", ".intercalate names
  | noTest _ _ => "asserted family has no companion test declaration"

/-- The remedy of a problem. -/
def suggestion : Problem → String
  | noVersions containerPath =>
    let container := containerPath.getLast?.getD ""
    s!"Declare at least 'module V1' inside '{container}'"
  | unexpectedMember member container =>
    s!"Move '{member}' out of '{container}' or rename it V<n>"
  | nonContiguous _ => "Number versions consecutively from V1 without gaps or duplicates"
  | latestNotHighest latestName _ highest => s!"Alias '{latestName}' to V{highest} or remove it"
  | missingType moduleName typeName => s!"Declare 'type {typeName}' inside '{moduleName}'"
  | badUpgrade number function typeName latestName _ =>
    s!"Declare '{function} : {typeName} -> {latestName}.{typeName}' in 'V{number}'"
  | badAdapter _ => s!"Build the codec with one of: {recognizedText}"
  | missingCallAdapters _ _ => "Every RPC version defines all four caller/callee model adapters"
  | noTest testName container =>
    s!"Add 'module {testName}' inside '{container}' exercising the serialized form"

end Problem

/-- A problem, the declaration that has it, and its place. -/
structure Finding where
  problem : Problem
  subject : String
  location : Option Location
deriving DecidableEq, Repr

/-- The diagnostic of a finding. -/
def Finding.diagnostic (f : Finding) : Diagnostic where
  rule := f.problem.rule
  message := f.problem.message
  subject := f.subject
  location := f.location
  suggestion := some f.problem.suggestion

end SchemaVersioning
