import SchemaVersioning.Dispatch

/-!
# Binding families to codecs

The host supplies a codec for every version of a family and an upgrade for every version below the
latest one.  `Family.bind` checks that they fit the declarations and gives a dispatcher whose
decoders are tried newest first.
-/

namespace SchemaVersioning

/-- What the host supplies for a version. -/
structure VersionBinding where
  codec : Codec
  upgrade : Option Conversion

/-- Things by version number, each number once. -/
abbrev ByNumber (β : Type) := List (Int × β)

namespace ByNumber

variable {β : Type}

/-- Puts a thing under a number: in its place if the number is there, else at the end. -/
def put (number : Int) (b : β) : ByNumber β → ByNumber β
  | [] => [(number, b)]
  | (n, old) :: rest => if n = number then (n, b) :: rest else (n, old) :: put number b rest

/-- Things put one after another; of two with one number the later one counts. -/
def ofList (pairs : List (Int × β)) : ByNumber β :=
  pairs.foldl (fun bs (number, b) => put number b bs) []

def numbers (bs : ByNumber β) : List Int := bs.map (·.1)

end ByNumber

/-- Bindings by version number. -/
abbrev Bindings := ByNumber VersionBinding

def ascending (numbers : List Int) : List Int := numbers.mergeSort (· ≤ ·)

namespace Family

variable (f : Family)

def versionNumbers : List Int := f.versions.map fun v => v.number

/-- The versions that are not bound and the bound numbers that are no version, if any. -/
def mismatch? (bound : List Int) : Option BindingFault :=
  let missing := f.versionNumbers.filter (!bound.contains ·)
  let extra := bound.filter (!f.versionNumbers.contains ·)
  if missing.isEmpty && extra.isEmpty then none
  else some (.mismatch (ascending missing) (ascending extra))

/-- What is wrong with the binding of a version, if anything. -/
def bindingFault? (v : SchemaVersion) (b : VersionBinding) : Option BindingFault :=
  let latest := f.latest.number
  if v.number = latest ∧ b.upgrade.isSome then some (.upgradeOfLatest latest)
  else if v.number ≠ latest ∧ b.upgrade.isNone then some (.noUpgrade v.number latest)
  else if f.strategy = .binable ∧
      ¬(recognizedAdapters.contains v.codec.adapter ∧ b.codec.adapter = some v.codec.adapter) then
    some (.wrongCodec v.number v.codec.adapter b.codec.name)
  else none

/-- The decoder of a version, if its binding fits. -/
def decoderOf (bs : Bindings) (v : SchemaVersion) : Except BindingFault VersionDecoder :=
  match bs.lookup (v.number : Int) with
  | none => .error (.mismatch [v.number] [])
  | some b =>
    match f.bindingFault? v b with
    | some fault => .error fault
    | none => .ok ⟨v.number, b.codec, b.upgrade⟩

/-- The decoders of all versions in ascending order, if their bindings fit. -/
def decoders (bs : Bindings) : Except BindingFault (List VersionDecoder) :=
  match f.mismatch? (ByNumber.numbers bs) with
  | some fault => .error fault
  | none => f.versions.mapM (f.decoderOf bs)

/-- The name under which a dispatcher of a family, or of one of its types, is known. -/
def subject (typeName : Option String) : String :=
  match typeName with
  | none => f.name
  | some typeName => f.name ++ "." ++ typeName

/-- The dispatcher of a family, or of one of its types, over some bindings. -/
def dispatcher (bs : Bindings) (typeName : Option String) : Except Failure Dispatcher :=
  let subject := f.subject typeName
  match f.decoders bs with
  | .error fault => .error (.ofBinding subject fault)
  | .ok decoders =>
    match decoders.getLast? with
    | none => .error (.ofBinding subject (.mismatch [] []))
    | some last => Dispatcher.ofDecoders subject last.codec decoders.reverse

/-- The dispatcher of a family that is no remote call. -/
def bind (bs : Bindings) : Except Failure Dispatcher :=
  if f.kind = .rpc then .error (.ofBinding f.name .remoteCall) else f.dispatcher bs none

end Family

end SchemaVersioning
