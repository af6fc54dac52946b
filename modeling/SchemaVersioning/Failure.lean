import SchemaVersioning.Diagnostic
import SchemaVersioning.Analysis
import SchemaVersioning.Loading.StageError

/-!
# Failures

Everything that can go wrong while a unit is loaded, a family is bound or a buffer is decoded, and
whatever else the host's own code raises.  `kind` names the class of a failure, `text` words it.  A
failure whose wording would tell a number in too many digits fails itself, as a wrong value.
-/

namespace SchemaVersioning

/-- Why codecs do not fit a family. -/
inductive BindingFault where
  | mismatch (missing extra : List Int)
  | upgradeOfLatest (latest : Nat)
  | noUpgrade (number latest : Nat)
  | wrongCodec (number : Nat) (adapter codec : String)
  | remoteCall
  | noRemoteCall
  | missingAdapters (number : Int) (names : List String)
deriving DecidableEq, Repr

/-- The wording of a binding fault. -/
def BindingFault.message : BindingFault → String
  | mismatch missing extra =>
    s!"bindings do not match versions (missing={numbersText missing}, extra={numbersText extra})"
  | upgradeOfLatest latest => s!"V{latest} is Latest and takes no upgrade function"
  | noUpgrade number latest => s!"V{number} has no upgrade function to V{latest}"
  | wrongCodec number adapter codec =>
    s!"V{number} declares codec '{adapter}' but is bound to {codec}"
  | remoteCall => "RPC families are bound with bind_rpc()"
  | noRemoteCall => "only RPC families are bound with bind_rpc()"
  | missingAdapters number names =>
    s!"V{number} is missing adapter(s): " ++ ", ".intercalate names

/-- The numbers that the wording of a binding fault tells. -/
def BindingFault.numbers : BindingFault → List Int
  | mismatch missing extra => missing ++ extra
  | upgradeOfLatest latest => [latest]
  | noUpgrade number latest => [number, latest]
  | wrongCodec number _ _ => [number]
  | remoteCall => []
  | noRemoteCall => []
  | missingAdapters number _ => [number]

/-- A class of errors: its name, and whether its errors refuse the value of a conversion, because
the value or its type is wrong. -/
structure ErrorClass where
  name : String
  refuses : Bool
deriving DecidableEq, Repr, Inhabited

/-- What went wrong.  A `host` failure is an error of any class that the host's own code raises. -/
inductive Failure where
  | host (kind : ErrorClass) (message : String)
  | decode (codec reason : String)
  | key (key : String)
  | brokenKey (points : List Nat)
  | invalid (issues : List Issue)
  | binding (family : String) (fault : BindingFault)
  | stage (error : StageError)
  | violations (diagnostics : List Diagnostic)
  | undecodable (fault : Encoding.Fault)
deriving Inhabited

namespace Failure

/-! ## Failures of common classes -/

def value (message : String) : Failure := host ⟨"ValueError", true⟩ message

def type (message : String) : Failure := host ⟨"TypeError", true⟩ message

def runtime (message : String) : Failure := host ⟨"RuntimeError", false⟩ message

def tooDeep : Failure := host ⟨"RecursionError", false⟩ "maximum recursion depth exceeded"

/-- A value has no attribute of a name. -/
def noAttribute (kind name : String) : Failure :=
  host ⟨"AttributeError", false⟩ s!"'{kind}' object has no attribute '{name}'"

/-- Other than two things stand where there should be a pair. -/
def notPair (count : Nat) : Failure :=
  value <|
    if count < 2 then s!"not enough values to unpack (expected 2, got {count})"
    else "too many values to unpack (expected 2)"

/-- The failure to tell a number in too many digits. -/
def tooLarge : Failure := value DecimalDigit.tooLargeText

/-! ## What is told of a failure -/

/-- The class of a failure. -/
def kind : Failure → String
  | host kind _ => kind.name
  | decode _ _ => "DecodeError"
  | key _ => "KeyError"
  | brokenKey _ => "KeyError"
  | invalid _ => "ValidationError"
  | binding _ _ => "BindingError"
  | stage _ => "CompilationException"
  | violations _ => "SchemaCompilationError"
  | undecodable _ => "UnicodeDecodeError"

/-- The wording of a failure.  Of the issues of refused data only their number is told here. -/
def text : Failure → String
  | host _ message => message
  | decode codec reason => codec ++ ": " ++ reason
  | key k => Quoted.quote k
  | brokenKey points => String.ofList (Quoted.quotePoints points)
  | invalid issues =>
    let noun := if issues.length = 1 then "error" else "errors"
    s!"{issues.length} validation {noun}"
  | binding family fault => family ++ ": " ++ fault.message
  | stage error => error.short
  | violations diagnostics => Diagnostic.summary diagnostics
  | undecodable fault => fault.message

/-- The failure of work that is interrupted. -/
def ofInterruption : Interruption → Failure
  | .overlongVersion digits => value (DecimalDigit.tooManyText digits)
  | .overlongNumeral => tooLarge
  | .emptyText field => invalid [⟨[.field field], .emptyText⟩]

/-- The failure of codecs that do not fit the named family, if its numbers can be told. -/
def ofBinding (family : String) (fault : BindingFault) : Failure :=
  if fault.numbers.all fun n => DecimalDigit.isShort n.natAbs then binding family fault
  else tooLarge

/-- The failure of a unit with some diagnostics, if the summary of these can be told. -/
def ofDiagnostics (diagnostics : List Diagnostic) : Failure :=
  if (diagnostics.take Diagnostic.maxShown).all (·.isTellable) then violations diagnostics
  else tooLarge

/-- Whether a conversion that fails so refuses its value: the value or its type is wrong. -/
def isRefusal : Failure → Bool
  | host kind _ => kind.refuses
  | invalid _ => true
  | undecodable _ => true
  | _ => false

end Failure

/-- The version of a number, or the report that the family has none.  The report tells the number,
unless that has too many digits. -/
def Family.version (f : Family) (number : Int) : Except Failure SchemaVersion :=
  match f.version? number with
  | some v => .ok v
  | none =>
    .error <|
      if DecimalDigit.isShort number.natAbs then .key (f.noVersionText number) else .tooLarge

/-- A result with nothing wrong, or the failure that its diagnostics come to. -/
def CompilationResult.settled (r : CompilationResult) : Except Failure CompilationResult :=
  if r.passed then .ok r else .error (.ofDiagnostics r.diagnostics)

namespace CompilationUnit

/-- The result of an analysis, or the failure that interrupts it. -/
def analyzed (u : CompilationUnit) (c : Config) : Except Failure CompilationResult :=
  (u.analyze? c).mapError Failure.ofInterruption

/-- The result of a unit with nothing wrong, or the failure that keeps it from compiling. -/
def compile (u : CompilationUnit) (c : Config) : Except Failure CompilationResult := do
  (← u.analyzed c).settled

end CompilationUnit

end SchemaVersioning
